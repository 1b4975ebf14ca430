import BootMemory.Archive.Reader
import BootMemory.Boot
import BootMemory.Console
import BootMemory.Main
import BootMemory.Session
import BootMemory.Proofs.LargePages
import BootMemory.Proofs.Loading
import BootMemory.Proofs.Partition
import BootMemory.Proofs.Rejection
import BootMemory.Proofs.SpaceMaps
import BootMemory.Proofs.StaleFrames
import BootMemory.Proofs.Confinement
import BootMemory.Proofs.LostFrames
import BootMemory.Proofs.RoundTrip
import BootMemory.Proofs.PathNames
import BootMemory.Proofs.Visits
import BootMemory.Proofs.PackTree
import BootMemory.Proofs.NextFit
import BootMemory.Proofs.CachedPages
import BootMemory.Proofs.RehousedRuns
import BootMemory.Proofs.FailedMaps
import BootMemory.Proofs.RangePages
import BootMemory.Proofs.InitialBitmap
import BootMemory.Proofs.Clipping
import BootMemory.Proofs.UnusableFrames
import BootMemory.Proofs.Damage
import BootMemory.Proofs.SharedTables
import BootMemory.Proofs.BitmapPlace
import BootMemory.Proofs.Spelling
import BootMemory.Proofs.ShownSizes
import BootMemory.Proofs.Alignment
import BootMemory.Proofs.TableIndices
import BootMemory.Proofs.EntryRoundTrip
import BootMemory.Proofs.BitRanges
