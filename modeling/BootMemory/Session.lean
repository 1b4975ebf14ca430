import BootMemory.Image.Loader
import BootMemory.Image.Parsing

/-!
# Sessions on a machine

A session runs commands on a machine one after the other.  Address spaces are known by the
numbers of their slots; a slot is taken by each command that makes a space, and it is empty if the
command answered an error or the space was given back.
-/

namespace BootMemory

inductive Command where
  | alloc (count : Word)
  | free (addr : PhysAddr) (count : Word)
  | reserve (addr : PhysAddr) (count : Word)
  | isTaken (addr : PhysAddr)
  | trackedFrames
  | newSpace
  | adoptSpace (root : PhysAddr)
  | activeSpace
  | setActiveRoot (root : PhysAddr)
  | walkTo (space : Nat) (virt : VirtAddr) (level : Nat) (allocate : Bool)
  | mapPage (space : Nat) (virt : VirtAddr) (phys : PhysAddr) (rights : AccessRights)
      (size : PageSize)
  | mapRange (space : Nat) (request : MapRequest) (rights : AccessRights)
  | unmapPage (space : Nat) (virt : VirtAddr)
  | translate (space : Nat) (virt : VirtAddr)
  | release (space : Nat)
  | load (space : Nat) (image : ByteArray)
  | read (addr : PhysAddr) (length : Word)
  | write (addr : PhysAddr) (data : ByteArray)
  | zero (addr : PhysAddr) (count : Word)
  | readWord (addr : PhysAddr)
  | writeWord (addr : PhysAddr) (value : Word)
  | nonzeroWords (addr : PhysAddr) (count : Word)
  | fingerprint

inductive Answer where
  | done
  | word (w : Word)
  | number (n : Nat)
  | truth (b : Bool)
  | absent
  | space (slot : Nat) (root : PhysAddr)
  | mapping (phys : PhysAddr) (flags : EntryFlags)
  | entry (virt : VirtAddr)
  | bytes (b : ByteArray)
  | words (ws : List (PhysAddr × Word))

inductive SessionError where
  | noSpace
  | alloc (e : AllocError)
  | map (e : MapError)
  | load (e : LoadError)
  deriving DecidableEq

/-- A machine with the address spaces made so far, by slot. -/
structure Session where
  machine : Machine
  slots : Array (Option AddressSpace)

abbrev SessionM (α : Type) := Action Session SessionError α

namespace Session

def start (machine : Machine) : Session :=
  ⟨machine, #[]⟩

def onMachine {ε α : Type} (restate : ε → SessionError) (x : MachineM ε α) : SessionM α := fun s =>
  match x s.machine with
  | .ok a machine => .ok a { s with machine }
  | .error failure machine => .error (failure.mapError restate) { s with machine }

/-- Runs a computation that only changes the machine. -/
def perform (x : MachineM SessionError Unit) : SessionM Answer := do
  onMachine id x
  return .done

def spaceAt (slot : Nat) : SessionM AddressSpace := do
  match (← get).slots[slot]? with
  | some (some space) => return space
  | _ => Action.fail .noSpace

def takeSlot (space : Option AddressSpace) : SessionM Nat :=
  modifyGet fun s => (s.slots.size, { s with slots := s.slots.push space })

def clearSlot (slot : Nat) : SessionM Unit :=
  modify fun s => { s with slots := s.slots.setIfInBounds slot none }

/-- Puts the space that `x` makes into the next slot, which stays empty if `x` ends in an error.
No slot is taken if it ends in a fault. -/
def keepSpace (x : SessionM AddressSpace) : SessionM Answer := do
  try
    let space ← x
    let slot ← takeSlot (some space)
    return .space slot space.root
  catch
    | .error e =>
        let _ ← takeSlot none
        Action.fail e
    | .fault f => Action.abort f

/-- Runs a command.  A command on a slot looks up its space before it does anything else. -/
def step : Command → SessionM Answer
  | .alloc count => return .word (← onMachine .alloc (Machine.alloc count)).word
  | .free addr count => perform (Machine.free addr count)
  | .reserve addr count => perform (Machine.reserve addr count)
  | .isTaken addr => return .truth (← (← get).machine.allocator.isTaken addr)
  | .trackedFrames => return .number (← get).machine.frameCount
  | .newSpace => keepSpace (onMachine .map Machine.newSpace)
  | .adoptSpace root => keepSpace (pure ⟨root⟩)
  | .activeSpace => do keepSpace (pure (← get).machine.activeSpace)
  | .setActiveRoot root => perform (Machine.setActiveRoot root)
  | .walkTo slot virt level allocate => do
      let space ← spaceAt slot
      return .word (← onMachine .map (Machine.walkTo space virt level allocate)).word
  | .mapPage slot virt phys rights size => do
      let space ← spaceAt slot
      onMachine .map (Machine.mapPage space virt phys rights size)
      return .done
  | .mapRange slot request rights => do
      let space ← spaceAt slot
      onMachine .map (Machine.mapRange space request rights)
      return .done
  | .unmapPage slot virt => do
      let space ← spaceAt slot
      match ← onMachine id (Machine.unmapPage space virt) with
      | some frame => return .word frame.word
      | none => return .absent
  | .translate slot virt => do
      let space ← spaceAt slot
      match ← onMachine id (Machine.translate space virt) with
      | some (phys, flags) => return .mapping phys flags
      | none => return .absent
  | .release slot => do
      let space ← spaceAt slot
      clearSlot slot
      perform (Machine.releaseSpace space)
  | .load slot image => do
      let space ← spaceAt slot
      return .entry (← onMachine .load (Machine.load Elf.parse space image))
  | .read addr length => return .bytes (← (← get).machine.memory.read addr length)
  | .write addr data => perform (Machine.copyIn addr data.data.toList)
  | .zero addr count => perform (Machine.zeroPages addr count)
  | .readWord addr => return .word (← (← get).machine.memory.readWord addr)
  | .writeWord addr value => perform (Machine.writeWord addr value)
  | .nonzeroWords addr count =>
      return .words (← (← get).machine.memory.nonzeroWords addr count)
  | .fingerprint => return .word (← (← get).machine.memory.fingerprint)

end Session

end BootMemory
