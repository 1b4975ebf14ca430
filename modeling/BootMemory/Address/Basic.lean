import BootMemory.Word.Basic

/-!
# Physical and virtual addresses

The two address spaces of the machine have the same arithmetic, so an address is one structure
tagged by the space it lives in; the tag keeps a physical address from standing where a virtual
one is meant.  Frames of physical memory are numbered from zero, one per page.
-/

namespace BootMemory

inductive AddrKind where
  | physical
  | virtual
  deriving DecidableEq

def AddrKind.name : AddrKind → String
  | .physical => "PhysicalAddress"
  | .virtual => "VirtualAddress"

structure Addr (kind : AddrKind) where
  word : Word
  deriving DecidableEq

abbrev PhysAddr := Addr .physical

/-- An address as a program sees it, before paging. -/
abbrev VirtAddr := Addr .virtual

namespace Addr

variable {kind : AddrKind}

def text (a : Addr kind) : String :=
  a.word.hex

def debugText (a : Addr kind) : String :=
  kind.name ++ "(" ++ a.word.hex ++ ")"

def pageFloor (a : Addr kind) : Addr kind :=
  ⟨a.word.pageFloor⟩

/-- How far `a` lies into its page. -/
def pageOffset (a : Addr kind) : Word :=
  a.word &&& (pageSize - 1)

def startsPage (a : Addr kind) : Bool :=
  a.word.isMultipleOf pageSize

def compare (a b : Addr kind) : Ordering :=
  Ord.compare a.word b.word

end Addr

/-- Whether the bits from 47 upwards are all equal, as four-level paging requires. -/
def Addr.isCanonical (a : VirtAddr) : Bool :=
  a.word >>> 47 == 0 || a.word >>> 47 == (~~~0 : Word) >>> 47

structure Frame where
  index : Word
  deriving DecidableEq

namespace Frame

def containing (a : PhysAddr) : Frame :=
  ⟨a.word >>> pageShift⟩

/-- The address of the first byte of the frame; bits above the word are lost. -/
def start (n : Frame) : PhysAddr :=
  ⟨n.index <<< pageShift⟩

def text (n : Frame) : String :=
  toString n.index.toNat

def debugText (n : Frame) : String :=
  "FrameNumber(" ++ n.text ++ ")"

end Frame

end BootMemory
