import BootMemory.Fault

/-!
# Checked arithmetic

Sums, differences and products of words whose result does not fit the word are faults, so an
address that the memory system computes is the exact one.  Rounding up to an alignment adds the
alignment first and fails whenever that sum does.
-/

namespace BootMemory.Word

def add (a b : Word) : Except Fault Word :=
  if a.toNat + b.toNat < UInt64.size then .ok (a + b) else .error .addOverflow

def sub (a b : Word) : Except Fault Word :=
  if b ≤ a then .ok (a - b) else .error .subOverflow

def mul (a b : Word) : Except Fault Word :=
  if a.toNat * b.toNat < UInt64.size then .ok (a * b) else .error .mulOverflow

/-- The greatest multiple of `align` that is not above `w`. -/
def alignDown (w align : Word) : Except Fault Word :=
  if align.isPowerOfTwo then .ok (w &&& ~~~(align - 1)) else .error .alignmentNotPowerOfTwo

/-- The least multiple of `align` that is not below `w`; `w + align` has to fit the word. -/
def alignUp (w align : Word) : Except Fault Word :=
  if align.isPowerOfTwo then do
    let past ← Word.add w align
    return (past - 1) &&& ~~~(align - 1)
  else .error .alignmentNotPowerOfTwo

def isAligned (w align : Word) : Except Fault Bool :=
  if align.isPowerOfTwo then .ok (w.isMultipleOf align) else .error .alignmentNotPowerOfTwo

/-- Pages needed for `length` bytes. -/
def pageCount (length : Word) : Except Fault Word := do
  let whole ← Word.alignUp length pageSize
  return whole / pageSize

end BootMemory.Word
