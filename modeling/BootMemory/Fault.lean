import BootMemory.Address.Basic

/-!
# Faults and failures

An operation of the memory system can end early in two ways.  An *error* is an answer its caller
is prepared for, such as running out of frames.  A *fault* is a broken precondition, such as a
sum that leaves the word or an access outside physical memory: it ends the operation on the spot.
What was written before either of them stays written.
-/

namespace BootMemory

inductive Fault where
  | addOverflow
  | subOverflow
  | mulOverflow
  | alignmentNotPowerOfTwo
  | outsideMemory (addr : PhysAddr)
  /-- A table entry is accessed at an address that is no multiple of its size. -/
  | unalignedEntry
  /-- A frame is given back by an address inside it. -/
  | unalignedFree (addr : PhysAddr)
  /-- A walk is asked for a level that the tables do not have. -/
  | noSuchLevel (level top : Nat)
  | unalignedMemoryBase
  | unalignedMemoryLength
  | readPastEnd
  | writePastEnd
  /-- The tables the processor is using would be given back. -/
  | releasingActive (root active : PhysAddr)
  deriving DecidableEq

def Fault.message : Fault → String
  | .addOverflow => "attempt to add with overflow"
  | .subOverflow => "attempt to subtract with overflow"
  | .mulOverflow => "attempt to multiply with overflow"
  | .alignmentNotPowerOfTwo => "alignment must be a power of two"
  | .outsideMemory addr => addr.debugText ++ " is outside emulated memory"
  | .unalignedEntry => "unaligned page table access"
  | .unalignedFree addr => "freeing unaligned frame " ++ addr.debugText
  | .noSuchLevel level top =>
      "target level " ++ toString level ++ " outside 1..=" ++ toString top
  | .unalignedMemoryBase => "emulated memory base must be page-aligned"
  | .unalignedMemoryLength => "emulated memory length must be page-aligned"
  | .readPastEnd =>
      "assertion failed: phys.as_usize() + len <= self.base.as_usize() + self.size()"
  | .writePastEnd => "write runs past the end of emulated memory"
  | .releasingActive root active =>
      "assertion `left != right` failed: releasing the active address space\n  left: " ++
        root.debugText ++ "\n right: " ++ active.debugText

/-- Why an operation that reports errors of type `ε` stopped early. -/
inductive Failure (ε : Type) where
  | error (e : ε)
  | fault (f : Fault)

def Failure.mapError {ε δ : Type} (restate : ε → δ) : Failure ε → Failure δ
  | .error e => .error (restate e)
  | .fault f => .fault f

/-- A computation over a state `σ`.  The state survives a failure. -/
abbrev Action (σ ε α : Type) := EStateM (Failure ε) σ α

namespace Action

variable {σ ε δ α : Type}

def fail (e : ε) : Action σ ε α :=
  throw (.error e)

def abort (f : Fault) : Action σ ε α :=
  throw (.fault f)

def ofChecked : Except Fault α → Action σ ε α
  | .ok a => pure a
  | .error f => abort f

/-- Runs `x` and restates its error. -/
def mapError (restate : ε → δ) (x : Action σ ε α) : Action σ δ α :=
  EStateM.adaptExcept (Failure.mapError restate) x

/-- Runs `x` and answers `none` if it ends in an error; a fault goes through. -/
def attempt (x : Action σ ε α) : Action σ δ (Option α) := fun s =>
  match x s with
  | .ok a s' => .ok (some a) s'
  | .error (.error _) s' => .ok none s'
  | .error (.fault f) s' => .error (.fault f) s'

end Action

instance {σ ε : Type} : MonadLift (Except Fault) (EStateM (Failure ε) σ) where
  monadLift := Action.ofChecked

end BootMemory
