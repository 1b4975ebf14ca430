import BootMemory.Paging.Table

/-!
# Mapping pages

A page is mapped by writing one leaf entry, unmapped by clearing it, and looked up by reading it.
A range is mapped page by page in increasing order and stays mapped up to the first page that
fails.
-/

namespace BootMemory

structure MapRequest where
  virt : VirtAddr
  phys : PhysAddr
  length : Word
  deriving DecidableEq

namespace Machine

def mapPage (space : AddressSpace) (virt : VirtAddr) (phys : PhysAddr) (rights : AccessRights)
    (size : PageSize) : MachineM MapError Unit := do
  if size ≠ .size4KiB then Action.fail (.unsupportedSize size)
  else
    let page := virt.pageFloor
    let table ← walkTo space page 1 true
    let entry := TableEntry.make phys (.ofRights rights)
    writeWord (← slot table (page.tableIndex 1)) entry.bits
    invalidate page
    emit (.mapped page phys entry.flags)

/-- The leaf entry for `virt` and its address, if there is a table for it. -/
def leaf {ε : Type} (space : AddressSpace) (virt : VirtAddr) :
    MachineM ε (Option (PhysAddr × TableEntry)) := do
  match ← Action.attempt (walkTo space virt 1 false) with
  | none => return none
  | some table =>
      let entryAddr ← slot table (virt.tableIndex 1)
      return some (entryAddr, ⟨← readWord entryAddr⟩)

/-- Clears the leaf entry of the page that holds `virt` and answers the frame it led to. -/
def unmapPage {ε : Type} (space : AddressSpace) (virt : VirtAddr) :
    MachineM ε (Option PhysAddr) := do
  let page := virt.pageFloor
  match ← leaf space page with
  | none => return none
  | some (entryAddr, entry) =>
      if entry.isPresent then
        writeWord entryAddr 0
        invalidate page
        return some entry.address
      else return none

def translate {ε : Type} (space : AddressSpace) (virt : VirtAddr) :
    MachineM ε (Option (PhysAddr × EntryFlags)) := do
  match ← leaf space virt with
  | none => return none
  | some (_, entry) =>
      if entry.isPresent then
        return some (← entry.address.add virt.pageOffset, entry.flags)
      else return none

/-- Maps the pages numbered from `first` on, `count` of them, of a range at `virt`. -/
def mapPages (space : AddressSpace) (virt : VirtAddr) (phys : PhysAddr) (rights : AccessRights) :
    (count first : Nat) → MachineM MapError Unit
  | 0, _ => return ()
  | count + 1, first => do
      let offset ← Word.mul (UInt64.ofNat first) pageSize
      let page ← virt.add offset
      let frame ← phys.add offset
      mapPage space page frame rights .size4KiB
      mapPages space virt phys rights count (first + 1)

/-- Maps the pages of a request.  Both addresses are rounded down to a page and the length is
rounded up by itself. -/
def mapRange (space : AddressSpace) (request : MapRequest) (rights : AccessRights) :
    MachineM MapError Unit := do
  let virt := request.virt.pageFloor
  let phys := request.phys.pageFloor
  let pages ← Word.pageCount request.length
  emit (.mappingPages pages virt phys)
  mapPages space virt phys rights pages.toNat 0

end Machine

end BootMemory
