import BootMemory.Word.Arithmetic

/-!
# Address arithmetic

Moving an address and measuring the distance of two addresses of one kind, with the checks of
word arithmetic.
-/

namespace BootMemory

namespace Addr

variable {kind : AddrKind}

def add (a : Addr kind) (bytes : Word) : Except Fault (Addr kind) := do
  return ⟨← Word.add a.word bytes⟩

def sub (a : Addr kind) (bytes : Word) : Except Fault (Addr kind) := do
  return ⟨← Word.sub a.word bytes⟩

/-- The distance from `b` up to `a`. -/
def distance (a b : Addr kind) : Except Fault Word :=
  Word.sub a.word b.word

def alignUp (a : Addr kind) (align : Word) : Except Fault (Addr kind) := do
  return ⟨← Word.alignUp a.word align⟩

def alignDown (a : Addr kind) (align : Word) : Except Fault (Addr kind) := do
  return ⟨← Word.alignDown a.word align⟩

end Addr

namespace Frame

def add (n : Frame) (count : Word) : Except Fault Frame := do
  return ⟨← Word.add n.index count⟩

/-- The number of frames from `m` up to `n`. -/
def distance (n m : Frame) : Except Fault Word :=
  Word.sub n.index m.index

end Frame

end BootMemory
