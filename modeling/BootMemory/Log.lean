import BootMemory.MemoryMap.Survey
import BootMemory.Paging.Entry

/-!
# The log

The memory system reports what it does as a sequence of events.  An event knows its level and
its text; where the text goes is up to the reader of the sequence.
-/

namespace BootMemory

inductive LogLevel where
  | trace
  | debug
  | info
  | warn
  | error
  deriving DecidableEq

namespace LogLevel

def name : LogLevel → String
  | .trace => "TRACE"
  | .debug => "DEBUG"
  | .info => "INFO"
  | .warn => "WARN"
  | .error => "ERROR"

def ofName? : String → Option LogLevel
  | "TRACE" => some .trace
  | "DEBUG" => some .debug
  | "INFO" => some .info
  | "WARN" => some .warn
  | "ERROR" => some .error
  | _ => none

end LogLevel

inductive LogEvent where
  | surveyed (survey : MemorySurvey) (bitmapBytes : Word)
  /-- Frame 0 is usable and was set aside, because its address stands for no address. -/
  | frameZeroReserved
  /-- An allocator was set up in the memory it manages. -/
  | allocatorReady (frames : Word) (bitmap : PhysAddr)
  | allocated (count : Word) (base : PhysAddr)
  | outOfMemory (count : Word)
  | freed (count : Word) (base : PhysAddr)
  | spaceCreated (root : PhysAddr)
  | tableAdded (level : Nat) (virt : VirtAddr) (table : PhysAddr)
  | mapped (virt : VirtAddr) (phys : PhysAddr) (flags : EntryFlags)
  | mappingPages (pages : Word) (virt : VirtAddr) (phys : PhysAddr)
  | loadingSegment (index : Nat) (virt : VirtAddr) (size : Word) (frames : PhysAddr)
      (rights : AccessRights)
  | region (base stop : PhysAddr) (kind : RegionKind) (length : Word)

namespace LogEvent

def level : LogEvent → LogLevel
  | .surveyed .. => .debug
  | .frameZeroReserved => .warn
  | .allocatorReady .. => .info
  | .allocated .. => .trace
  | .outOfMemory _ => .warn
  | .freed .. => .trace
  | .spaceCreated _ => .debug
  | .tableAdded .. => .trace
  | .mapped .. => .trace
  | .mappingPages .. => .debug
  | .loadingSegment .. => .debug
  | .region .. => .debug

def sizeText (bytes : Word) : String :=
  (BinarySize.ofBytes bytes.toNat).text

def message : LogEvent → String
  | .surveyed survey bitmapBytes =>
      "usable memory: " ++ sizeText survey.usableBytes ++ " in [" ++ survey.base.text ++ ", " ++
        survey.top.text ++ "), bitmap " ++ sizeText bitmapBytes
  | .frameZeroReserved => "physical frame 0 is usable, reserving it"
  | .allocatorReady frames bitmap =>
      "frame allocator: " ++ toString frames.toNat ++ " frames tracked, bitmap at " ++ bitmap.text
  | .allocated count base =>
      "allocated " ++ toString count.toNat ++ " frames at " ++ base.text
  | .outOfMemory count =>
      "out of memory: failed to allocate " ++ toString count.toNat ++ " frames"
  | .freed count base => "freed " ++ toString count.toNat ++ " frames at " ++ base.text
  | .spaceCreated root => "created address space with root " ++ root.text
  | .tableAdded level virt table =>
      "level " ++ toString level ++ " table for " ++ virt.text ++ " at " ++ table.text
  | .mapped virt phys flags =>
      "mapped " ++ virt.text ++ " -> " ++ phys.text ++ " " ++ flags.debugText
  | .mappingPages pages virt phys =>
      "mapping " ++ toString pages.toNat ++ " pages " ++ virt.text ++ " -> " ++ phys.text
  | .loadingSegment index virt size frames rights =>
      "segment " ++ toString index ++ ": " ++ virt.text ++ " (" ++ size.hex ++ " bytes) -> " ++
        frames.text ++ " " ++ rights.debugText
  | .region base stop kind length =>
      base.text ++ " - " ++ stop.text ++ " " ++ kind.name ++ " (" ++ sizeText length ++ ")"

def line (event : LogEvent) : String :=
  event.level.name ++ " " ++ event.message

end LogEvent

end BootMemory
