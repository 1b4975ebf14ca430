import BootMemory.Machine.Basic

/-!
# Page tables

An address space is the physical address of its root table.  A walk goes from the root down to a
table of a lower level, adding missing tables if it is allowed to; an entry that maps a large
page ends it.  Giving a space back follows every entry in use above the lowest level and frees
the tables, but not the frames that leaves point at.
-/

namespace BootMemory

inductive MapError where
  | unsupportedSize (size : PageSize)
  | noFrame (e : AllocError)
  | missingTable
  /-- An entry of this level on the way maps a large page. -/
  | largePage (level : Nat)
  deriving DecidableEq

def MapError.message : MapError → String
  | .unsupportedSize size =>
      "unsupported page size " ++ size.debugText ++ ", only 4 KiB pages can be mapped"
  | .noFrame e => "failed to allocate a page-table node: " ++ e.message
  | .missingTable => "no page table present for the address"
  | .largePage level => "a level " ++ toString level ++ " entry on the walk maps a large page"

structure AddressSpace where
  root : PhysAddr
  deriving DecidableEq

namespace Machine

def activeSpace (m : Machine) : AddressSpace :=
  ⟨m.activeRoot⟩

def slot (table : PhysAddr) (index : Nat) : Except Fault PhysAddr :=
  table.add (UInt64.ofNat (index * entrySize))

def newTable : MachineM MapError PhysAddr := do
  let table ← Action.mapError .noFrame (alloc 1)
  zeroPages table 1
  return table

def newSpace : MachineM MapError AddressSpace := do
  let root ← newTable
  emit (.spaceCreated root)
  return ⟨root⟩

/-- The table below `table`, which is of the given level, on the way to `virt`. -/
def child (virt : VirtAddr) (allocate : Bool) (table : PhysAddr) (level : Nat) :
    MachineM MapError PhysAddr := do
  let entryAddr ← slot table (virt.tableIndex level)
  let entry : TableEntry := ⟨← readWord entryAddr⟩
  if entry.isPresent then
    if entry.isLargePage then Action.fail (.largePage level) else return entry.address
  else if allocate then
    let node ← newTable
    writeWord entryAddr (TableEntry.make node .node).bits
    emit (.tableAdded (level - 1) virt node)
    return node
  else Action.fail .missingTable

def walk (virt : VirtAddr) (allocate : Bool) (target : Nat) :
    (steps : Nat) → PhysAddr → MachineM MapError PhysAddr
  | 0, table => return table
  | steps + 1, table => do
      let next ← child virt allocate table (target + steps + 1)
      walk virt allocate target steps next

/-- The table of level `target` on the way to `virt`. -/
def walkTo (space : AddressSpace) (virt : VirtAddr) (target : Nat) (allocate : Bool) :
    MachineM MapError PhysAddr := do
  let top := (← get).levels.top
  if 1 ≤ target ∧ target ≤ top then walk virt allocate target (top - target) space.root
  else Action.abort (.noSuchLevel target top)

/-- Frees a table of the given level and the tables below it. -/
def releaseTree {ε : Type} : (level : Nat) → PhysAddr → MachineM ε Unit
  | level + 2, table => do
      (List.range entryCount).forM fun index => do
        let entry : TableEntry := ⟨← readWord (← slot table index)⟩
        if entry.isPresent then
          releaseTree (level + 1) entry.address
      free table 1
  | _, table => free table 1

/-- Frees every table of a space that the processor is not using. -/
def releaseSpace {ε : Type} (space : AddressSpace) : MachineM ε Unit := do
  let m ← get
  if space.root = m.activeRoot then Action.abort (.releasingActive space.root m.activeRoot)
  else releaseTree m.levels.top space.root

end Machine

end BootMemory
