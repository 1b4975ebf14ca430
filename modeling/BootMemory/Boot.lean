import BootMemory.Frames.Allocator

/-!
# What the bootloader hands over

The bootloader answers requests for the memory map, for the offset at which it maps all of
physical memory, and for the modules it loaded.  Any answer may be missing.
-/

namespace BootMemory

/-- The kind that a type number of the boot protocol stands for. -/
def RegionKind.ofTypeNumber : Word → RegionKind
  | 0 => .usable
  | 2 => .acpiReclaimable
  | 3 => .acpiNvs
  | 4 => .badMemory
  | 5 => .bootloaderReclaimable
  | 6 => .executableAndModules
  | 7 => .framebuffer
  | _ => .reserved

structure BootRegion where
  base : Word
  length : Word
  typeNumber : Word
  deriving DecidableEq

def BootRegion.region (r : BootRegion) : MemoryRegion :=
  ⟨⟨r.base⟩, r.length, .ofTypeNumber r.typeNumber⟩

/-- A file that the bootloader loaded, with the string it is known by. -/
structure BootModule where
  string : ByteArray
  contents : ByteArray

/-- A mapping of all of physical memory at a fixed offset. -/
structure PhysicalWindow where
  offset : Word
  deriving DecidableEq

/-- Where the byte at `phys` is mapped; the sum wraps around. -/
def PhysicalWindow.pointer (d : PhysicalWindow) (phys : PhysAddr) : Word :=
  phys.word + d.offset

structure BootInfo where
  regions : Option (List BootRegion)
  windowOffset : Option Word
  modules : Option (List BootModule)

namespace BootInfo

def memoryMap (info : BootInfo) : Option MemoryMap :=
  info.regions.map fun regions => ⟨regions.map BootRegion.region, none⟩

def physicalWindow (info : BootInfo) : Option PhysicalWindow :=
  info.windowOffset.map PhysicalWindow.mk

def module? (info : BootInfo) (string : ByteArray) : Option ByteArray := do
  let modules ← info.modules
  let found ← modules.find? fun m => m.string == string
  return found.contents

end BootInfo

def MemoryRegion.dump {ε : Type} (r : MemoryRegion) : Reported ε Unit := do
  let stop ← r.stop
  report (.region r.base stop r.kind r.length)

def MemoryMap.dump {ε : Type} (map : MemoryMap) : Reported ε Unit :=
  map.readable.forM MemoryRegion.dump

end BootMemory
