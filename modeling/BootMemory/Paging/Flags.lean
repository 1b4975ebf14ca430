import BootMemory.Word.Basic
import BootMemory.Paging.AccessRights

/-!
# Flags of a table entry

The bits of a page-table entry that are no address bits.  A present entry may be writable,
reachable from user mode, a leaf for a large page, and closed to instruction fetches.
-/

namespace BootMemory

/-- The bits of an entry that hold an address, bits 12 to 51. -/
def frameMask : Word := 0x000FFFFFFFFFF000

structure EntryFlags where
  bits : Word
  deriving DecidableEq

namespace EntryFlags

def empty : EntryFlags := ⟨0⟩

def present : EntryFlags := ⟨0x1⟩

def writable : EntryFlags := ⟨0x2⟩

def user : EntryFlags := ⟨0x4⟩

/-- The entry maps a large page and leads to no table. -/
def largePage : EntryFlags := ⟨0x80⟩

/-- Instructions are not fetched from behind the entry. -/
def executeDisabled : EntryFlags := ⟨0x8000000000000000⟩

def union (a b : EntryFlags) : EntryFlags :=
  ⟨a.bits ||| b.bits⟩

def without (a b : EntryFlags) : EntryFlags :=
  ⟨a.bits &&& ~~~b.bits⟩

def set (a b : EntryFlags) (on : Bool) : EntryFlags :=
  if on then a.union b else a.without b

def contains (a b : EntryFlags) : Bool :=
  a.bits &&& b.bits == b.bits

/-- The flags among the bits of a whole entry. -/
def ofBits (bits : Word) : EntryFlags :=
  ⟨bits &&& ~~~frameMask⟩

/-- The flags of an entry that leads to a table: the leaf alone restricts access. -/
def node : EntryFlags :=
  (present.union writable).union user

/-- The flags of a leaf that grants the given rights. -/
def ofRights (rights : AccessRights) : EntryFlags :=
  (((present.union executeDisabled).set writable (rights.contains .write)).set executeDisabled
    (!rights.contains .execute)).set user (rights.contains .user)

/-- The named flags, in the order in which they are shown. -/
def named : List (EntryFlags × String) :=
  [(present, "P"), (writable, "W"), (user, "U"), (largePage, "PS"), (executeDisabled, "NX")]

def debugText (flags : EntryFlags) : String :=
  let names := (named.filter fun flag => flags.contains flag.1).map Prod.snd
  "PageFlags(" ++ String.intercalate "|" names ++ ")"

end EntryFlags

end BootMemory
