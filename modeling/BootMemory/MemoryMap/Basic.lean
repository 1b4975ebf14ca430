import BootMemory.Address.Arithmetic

/-!
# The memory map

The bootloader describes physical memory as a list of regions that is read by index.  The end of
the list and a lookup that fails are the same error, so a reader takes the entries up to the
first one and stops there.
-/

namespace BootMemory

inductive RegionKind where
  | usable
  /-- Memory the firmware keeps, and any kind this list does not name. -/
  | reserved
  /-- Firmware tables that are free once they are read. -/
  | acpiReclaimable
  /-- Firmware storage that survives sleep. -/
  | acpiNvs
  | badMemory
  | bootloaderReclaimable
  /-- The running program and its modules. -/
  | executableAndModules
  | framebuffer
  deriving DecidableEq

def RegionKind.name : RegionKind → String
  | .usable => "USABLE"
  | .reserved => "RESERVED"
  | .acpiReclaimable => "ACPI_RECLAIMABLE"
  | .acpiNvs => "ACPI_NVS"
  | .badMemory => "BAD_MEMORY"
  | .bootloaderReclaimable => "BOOTLOADER_RECLAIMABLE"
  | .executableAndModules => "EXECUTABLE_AND_MODULES"
  | .framebuffer => "FRAMEBUFFER"

structure MemoryRegion where
  base : PhysAddr
  length : Word
  kind : RegionKind
  deriving DecidableEq

namespace MemoryRegion

def stop (r : MemoryRegion) : Except Fault PhysAddr :=
  r.base.add r.length

def isUsable (r : MemoryRegion) : Bool :=
  r.kind == .usable

end MemoryRegion

inductive MapLookupError where
  | outOfRange (index : Nat)
  deriving DecidableEq

def MapLookupError.message : MapLookupError → String
  | .outOfRange index => "memory map index " ++ toString index ++ " is out of range"

/-- A memory map.  The lookup of entry `failAt` fails even if the entry is there. -/
structure MemoryMap where
  regions : List MemoryRegion
  failAt : Option Nat

namespace MemoryMap

def region (map : MemoryMap) (index : Nat) : Except MapLookupError MemoryRegion :=
  if map.failAt = some index then .error (.outOfRange index)
  else
    match map.regions[index]? with
    | some r => .ok r
    | none => .error (.outOfRange index)

/-- The regions before the first lookup that fails. -/
def readable (map : MemoryMap) : List MemoryRegion :=
  match map.failAt with
  | some index => map.regions.take index
  | none => map.regions

def usable (map : MemoryMap) : List MemoryRegion :=
  map.readable.filter MemoryRegion.isUsable

end MemoryMap

end BootMemory
