import BootMemory.Address.Basic
import BootMemory.Paging.Flags

/-!
# Table entries

A page-table entry is one word: the address of a frame in bits 12 to 51 and flags in the others.
-/

namespace BootMemory

structure TableEntry where
  bits : Word
  deriving DecidableEq

namespace TableEntry

/-- The entry that leads to `addr` with `flags`.  Address bits outside 12 to 51 are dropped. -/
def make (addr : PhysAddr) (flags : EntryFlags) : TableEntry :=
  ⟨(addr.word &&& frameMask) ||| flags.bits⟩

def address (e : TableEntry) : PhysAddr :=
  ⟨e.bits &&& frameMask⟩

def flags (e : TableEntry) : EntryFlags :=
  EntryFlags.ofBits e.bits

def isPresent (e : TableEntry) : Bool :=
  e.bits &&& EntryFlags.present.bits != 0

def isLargePage (e : TableEntry) : Bool :=
  e.flags.contains .largePage

def debugText (e : TableEntry) : String :=
  "PageEntry(" ++ e.address.text ++ ", " ++ e.flags.debugText ++ ")"

end TableEntry

end BootMemory
