import BootMemory.Proofs.ActiveRoot

/-!
# Runs that keep a record

Work in an address space reaches memory and the cached mappings through a few operations of the
machine.  Here the same work goes through a port, which decides how these operations are done.
Through the plain port it is the work of the machine itself.  The recording port does the same and
also writes down what is done to memory and to the cached mappings, each time with the machine as
it was just before.
-/

namespace BootMemory

namespace Action

variable {σ τ ε δ α β : Type}

/-- What a result is once only a part of its state is looked at. -/
def seen (part : σ → τ) : EStateM.Result (Failure ε) σ α → EStateM.Result (Failure ε) τ α
  | .ok a s => .ok a (part s)
  | .error e s => .error e (part s)

/-- On a part of its state an action runs like an action on that part alone. -/
def Shows (part : σ → τ) (x : Action σ ε α) (y : Action τ ε α) : Prop :=
  ∀ s, seen part (x s) = y (part s)

theorem final_seen (part : σ → τ) (result : EStateM.Result (Failure ε) σ α) :
    final (seen part result) = part (final result) := by
  cases result <;> rfl

theorem seen_id (result : EStateM.Result (Failure ε) σ α) : seen id result = result := by
  cases result <;> rfl

section Shows

variable {part : σ → τ} {x : Action σ ε α} {y : Action τ ε α}

theorem shows_pure (a : α) : Shows part (pure a : Action σ ε α) (pure a) :=
  fun _ => rfl

theorem shows_fail (e : ε) : Shows part (fail e : Action σ ε α) (fail e) :=
  fun _ => rfl

theorem shows_abort (f : Fault) : Shows part (abort f : Action σ ε α) (abort f) :=
  fun _ => rfl

theorem shows_lift (checked : Except Fault α) :
    Shows part (liftM checked : Action σ ε α) (liftM checked) := by
  intro s
  cases checked <;> rfl

theorem Shows.bind {f : α → Action σ ε β} {g : α → Action τ ε β} (hx : Shows part x y)
    (hf : ∀ a, Shows part (f a) (g a)) : Shows part (x >>= f) (y >>= g) := by
  intro s
  rw [bind_apply, bind_apply, ← hx s]
  cases x s with
  | ok a s' => exact hf a s'
  | error e s' => rfl

theorem Shows.ite {x' : Action σ ε α} {y' : Action τ ε α} (p : Prop) [Decidable p]
    (hx : Shows part x y) (hx' : Shows part x' y') :
    Shows part (if p then x else x') (if p then y else y') := by
  split
  · exact hx
  · exact hx'

theorem Shows.mapError {restate : ε → δ} (hx : Shows part x y) :
    Shows part (mapError restate x) (mapError restate y) := by
  intro s
  have hrun := hx s
  cases hresult : x s with
  | ok a s' =>
      rw [hresult] at hrun
      rw [mapError_ok hresult, mapError_ok hrun.symm]
      rfl
  | error e s' =>
      rw [hresult] at hrun
      rw [mapError_error hresult, mapError_error hrun.symm]
      rfl

theorem Shows.attempt (hx : Shows part x y) :
    Shows part (attempt x : Action σ δ (Option α)) (attempt y) := by
  intro s
  rw [Action.attempt, Action.attempt, ← hx s]
  rcases x s with _ | ⟨_ | _, _⟩ <;> rfl

theorem shows_forM {f : α → Action σ ε Unit} {g : α → Action τ ε Unit} (items : List α)
    (hf : ∀ i, Shows part (f i) (g i)) : Shows part (items.forM f) (items.forM g) := by
  induction items with
  | nil => exact shows_pure _
  | cons i rest ih => exact (hf i).bind fun _ => ih

theorem shows_loadBy {place : Segment → Action σ MapError Unit}
    {place' : Segment → Action τ MapError Unit} (hplace : ∀ s, Shows part (place s) (place' s))
    (parse : Elf.Parser) (file : ByteArray) :
    Shows part (loadBy place parse file) (loadBy place' parse file) := by
  unfold loadBy
  cases Executable.ofImage parse file with
  | error e => exact shows_fail _
  | ok image =>
      refine (shows_forM _ fun header => ?_).bind fun _ => shows_pure _
      unfold loadPart
      cases header.1.segment file header.2 with
      | error e => exact shows_fail _
      | ok s => exact (hplace s).mapError

end Shows

end Action

open BootMemory.Action

namespace Machine

/-- What work in a space does beside reading, taking frames and reporting: it writes bytes of
memory, or it drops the cached mapping of a page. -/
inductive Touch where
  | write (addr : PhysAddr) (length : Nat)
  | drop (page : VirtAddr)

/-- A way to do the operations of the machine on states `σ`.  `quiet` does those that write nothing
but bits of the bitmap, and `touch` does the others, being told what they do. -/
structure Port (σ : Type) where
  quiet : {ε α : Type} → MachineM ε α → Action σ ε α
  touch : {ε : Type} → Touch → MachineM ε Unit → Action σ ε Unit

namespace Port

def plain : Port Machine where
  quiet x := x
  touch _ x := x

/-- A machine with what was done to it, the oldest first. -/
abbrev Recorded :=
  Machine × List (Machine × Touch)

/-- Carries out a step of the machine that leaves `record` behind it. -/
def carryOut {ε α : Type} (x : MachineM ε α) (record : List (Machine × Touch))
    (m : Machine) : EStateM.Result (Failure ε) Recorded α :=
  match x m with
  | .ok a m' => .ok a (m', record)
  | .error e m' => .error e (m', record)

def recording : Port Recorded where
  quiet x := fun s => carryOut x s.2 s.1
  touch act x := fun s => carryOut x (s.2 ++ [(s.1, act)]) s.1

section Programs

variable {σ ε : Type} (port : Port σ)

/-! ## Operations through a port -/

def get : Action σ ε Machine :=
  port.quiet MonadState.get

def emit (event : LogEvent) : Action σ ε Unit :=
  port.quiet (Machine.emit event)

def alloc (count : Word) : Action σ AllocError PhysAddr :=
  port.quiet (Machine.alloc count)

def readWord (addr : PhysAddr) : Action σ ε Word :=
  port.quiet (Machine.readWord addr)

def writeWord (addr : PhysAddr) (value : Word) : Action σ ε Unit :=
  port.touch (.write addr 8) (Machine.writeWord addr value)

def zeroPages (addr : PhysAddr) (count : Word) : Action σ ε Unit :=
  port.touch (.write addr (count.toNat * 4096)) (Machine.zeroPages addr count)

def copyIn (addr : PhysAddr) (values : List UInt8) : Action σ ε Unit :=
  port.touch (.write addr values.length) (Machine.copyIn addr values)

def invalidate (virt : VirtAddr) : Action σ ε Unit :=
  port.touch (.drop virt) (Machine.invalidate virt)

/-! ## Work through a port -/

def newTable : Action σ MapError PhysAddr := do
  let table ← Action.mapError .noFrame (port.alloc 1)
  port.zeroPages table 1
  return table

def child (virt : VirtAddr) (allocate : Bool) (table : PhysAddr) (level : Nat) :
    Action σ MapError PhysAddr := do
  let entryAddr ← slot table (virt.tableIndex level)
  let entry : TableEntry := ⟨← port.readWord entryAddr⟩
  if entry.isPresent then
    if entry.isLargePage then Action.fail (.largePage level) else return entry.address
  else if allocate then
    let node ← port.newTable
    port.writeWord entryAddr (TableEntry.make node .node).bits
    port.emit (.tableAdded (level - 1) virt node)
    return node
  else Action.fail .missingTable

def walk (virt : VirtAddr) (allocate : Bool) (target : Nat) :
    (steps : Nat) → PhysAddr → Action σ MapError PhysAddr
  | 0, table => return table
  | steps + 1, table => do
      let next ← port.child virt allocate table (target + steps + 1)
      walk virt allocate target steps next

def walkTo (space : AddressSpace) (virt : VirtAddr) (target : Nat) (allocate : Bool) :
    Action σ MapError PhysAddr := do
  let top := (← port.get).levels.top
  if 1 ≤ target ∧ target ≤ top then port.walk virt allocate target (top - target) space.root
  else Action.abort (.noSuchLevel target top)

def mapPage (space : AddressSpace) (virt : VirtAddr) (phys : PhysAddr) (rights : AccessRights)
    (size : PageSize) : Action σ MapError Unit := do
  if size ≠ .size4KiB then Action.fail (.unsupportedSize size)
  else
    let page := virt.pageFloor
    let table ← port.walkTo space page 1 true
    let entry := TableEntry.make phys (.ofRights rights)
    port.writeWord (← slot table (page.tableIndex 1)) entry.bits
    port.invalidate page
    port.emit (.mapped page phys entry.flags)

def leaf (space : AddressSpace) (virt : VirtAddr) :
    Action σ ε (Option (PhysAddr × TableEntry)) := do
  match ← Action.attempt (port.walkTo space virt 1 false) with
  | none => return none
  | some table =>
      let entryAddr ← slot table (virt.tableIndex 1)
      return some (entryAddr, ⟨← port.readWord entryAddr⟩)

def unmapPage (space : AddressSpace) (virt : VirtAddr) : Action σ ε (Option PhysAddr) := do
  let page := virt.pageFloor
  match ← port.leaf space page with
  | none => return none
  | some (entryAddr, entry) =>
      if entry.isPresent then
        port.writeWord entryAddr 0
        port.invalidate page
        return some entry.address
      else return none

def mapPages (space : AddressSpace) (virt : VirtAddr) (phys : PhysAddr) (rights : AccessRights) :
    (count first : Nat) → Action σ MapError Unit
  | 0, _ => return ()
  | count + 1, first => do
      let offset ← Word.mul (UInt64.ofNat first) pageSize
      let page ← virt.add offset
      let frame ← phys.add offset
      port.mapPage space page frame rights .size4KiB
      mapPages space virt phys rights count (first + 1)

def mapRange (space : AddressSpace) (request : MapRequest) (rights : AccessRights) :
    Action σ MapError Unit := do
  let virt := request.virt.pageFloor
  let phys := request.phys.pageFloor
  let pages ← Word.pageCount request.length
  port.emit (.mappingPages pages virt phys)
  port.mapPages space virt phys rights pages.toNat 0

def placeSegment (space : AddressSpace) (s : Segment) : Action σ MapError Unit := do
  let span ← Word.add s.memorySize s.virt.pageOffset
  let length ← Word.alignUp span pageSize
  let pages := length / pageSize
  let frames ← Action.mapError .noFrame (port.alloc pages)
  port.emit (.loadingSegment s.index s.virt s.memorySize frames s.rights)
  port.mapRange space ⟨s.virt.pageFloor, frames, length⟩ s.rights
  port.zeroPages frames pages
  port.copyIn (← frames.add s.virt.pageOffset) s.contents

def load (parse : Elf.Parser) (space : AddressSpace) (file : ByteArray) :
    Action σ LoadError VirtAddr :=
  loadBy (port.placeSegment space) parse file

end Programs

end Port

/-- Work in a space that changes where its pages lead. -/
inductive SpaceWork where
  | map (virt : VirtAddr) (phys : PhysAddr) (rights : AccessRights) (size : PageSize)
  | unmap (virt : VirtAddr)
  | mapRange (request : MapRequest) (rights : AccessRights)
  | load (parse : Elf.Parser) (file : ByteArray)

/-- The state after some work, whether it succeeded or failed on the way. -/
def SpaceWork.after (space : AddressSpace) : SpaceWork → Machine → Machine
  | .map virt phys rights size, m => Action.final (mapPage space virt phys rights size m)
  | .unmap virt, m => Action.final (unmapPage space virt m : EStateM.Result (Failure MapError) _ _)
  | .mapRange request rights, m => Action.final (Machine.mapRange space request rights m)
  | .load parse file, m => Action.final (Machine.load parse space file m)

def Port.after {σ : Type} (port : Port σ) (space : AddressSpace) : SpaceWork → σ → σ
  | .map virt phys rights size, s => Action.final (port.mapPage space virt phys rights size s)
  | .unmap virt, s =>
      Action.final (port.unmapPage space virt s : EStateM.Result (Failure MapError) _ _)
  | .mapRange request rights, s => Action.final (port.mapRange space request rights s)
  | .load parse file, s => Action.final (port.load parse space file s)

namespace Port

/-! ## Faithful ports -/

/-- On a part of its states, a port does what the machine does. -/
structure Faithful {σ : Type} (port : Port σ) (part : σ → Machine) : Prop where
  quiet : ∀ {ε α : Type} (x : MachineM ε α), Shows part (port.quiet x) x
  touch : ∀ {ε : Type} (act : Touch) (x : MachineM ε Unit), Shows part (port.touch act x) x

theorem faithful_plain : plain.Faithful id where
  quiet x s := seen_id (x s)
  touch _ x s := seen_id (x s)

theorem seen_carryOut {ε α : Type} (x : MachineM ε α) (record : List (Machine × Touch))
    (m : Machine) : seen Prod.fst (carryOut x record m) = x m := by
  rw [carryOut]
  cases x m <;> rfl

theorem faithful_recording : recording.Faithful Prod.fst where
  quiet x s := seen_carryOut x s.2 s.1
  touch act x s := seen_carryOut x (s.2 ++ [(s.1, act)]) s.1

namespace Faithful

variable {σ ε : Type} {port : Port σ} {part : σ → Machine} (hport : port.Faithful part)

include hport

theorem newTable : Shows part port.newTable Machine.newTable :=
  (hport.quiet _).mapError.bind fun _ => (hport.touch _ _).bind fun _ => shows_pure _

theorem child (virt : VirtAddr) (allocate : Bool) (table : PhysAddr) (level : Nat) :
    Shows part (port.child virt allocate table level)
      (Machine.child virt allocate table level) := by
  refine (shows_lift _).bind fun entryAddr => (hport.quiet _).bind fun entry => ?_
  refine .ite _ (.ite _ (shows_fail _) (shows_pure _)) (.ite _ ?_ (shows_fail _))
  refine hport.newTable.bind fun node => (hport.touch _ _).bind fun _ => ?_
  exact (hport.quiet _).bind fun _ => shows_pure node

theorem walk (virt : VirtAddr) (allocate : Bool) (target steps : Nat) (table : PhysAddr) :
    Shows part (port.walk virt allocate target steps table)
      (Machine.walk virt allocate target steps table) := by
  induction steps generalizing table with
  | zero => exact shows_pure table
  | succ steps ih => exact (hport.child virt allocate table _).bind ih

theorem walkTo (space : AddressSpace) (virt : VirtAddr) (target : Nat) (allocate : Bool) :
    Shows part (port.walkTo space virt target allocate)
      (Machine.walkTo space virt target allocate) := by
  refine (hport.quiet _).bind fun m => .ite _ ?_ (shows_abort _)
  exact hport.walk virt allocate target _ space.root

theorem mapPage (space : AddressSpace) (virt : VirtAddr) (phys : PhysAddr) (rights : AccessRights)
    (size : PageSize) :
    Shows part (port.mapPage space virt phys rights size)
      (Machine.mapPage space virt phys rights size) := by
  refine .ite _ (shows_fail _) ?_
  refine (hport.walkTo space _ 1 true).bind fun table => (shows_lift _).bind fun entryAddr => ?_
  exact (hport.touch _ _).bind fun _ => (hport.touch _ _).bind fun _ => hport.quiet _

theorem leaf (space : AddressSpace) (virt : VirtAddr) :
    Shows part (port.leaf space virt : Action σ ε _) (Machine.leaf space virt) := by
  refine (hport.walkTo space virt 1 false).attempt.bind fun found => ?_
  cases found with
  | none => exact shows_pure none
  | some table =>
      exact (shows_lift _).bind fun entryAddr => (hport.quiet _).bind fun entry => shows_pure _

theorem unmapPage (space : AddressSpace) (virt : VirtAddr) :
    Shows part (port.unmapPage space virt : Action σ ε _) (Machine.unmapPage space virt) := by
  refine (hport.leaf space virt.pageFloor).bind fun found => ?_
  cases found with
  | none => exact shows_pure none
  | some target =>
      refine .ite _ ?_ (shows_pure none)
      exact (hport.touch _ _).bind fun _ => (hport.touch _ _).bind fun _ => shows_pure _

theorem mapPages (space : AddressSpace) (virt : VirtAddr) (phys : PhysAddr)
    (rights : AccessRights) (count first : Nat) :
    Shows part (port.mapPages space virt phys rights count first)
      (Machine.mapPages space virt phys rights count first) := by
  induction count generalizing first with
  | zero => exact shows_pure ()
  | succ count ih =>
      refine (shows_lift _).bind fun offset => (shows_lift _).bind fun page => ?_
      refine (shows_lift _).bind fun frame => ?_
      exact (hport.mapPage space page frame rights .size4KiB).bind fun _ => ih (first + 1)

theorem mapRange (space : AddressSpace) (request : MapRequest) (rights : AccessRights) :
    Shows part (port.mapRange space request rights) (Machine.mapRange space request rights) := by
  refine (shows_lift _).bind fun pages => (hport.quiet _).bind fun _ => ?_
  exact hport.mapPages space _ _ rights pages.toNat 0

theorem placeSegment (space : AddressSpace) (s : Segment) :
    Shows part (port.placeSegment space s) (Machine.placeSegment space s) := by
  refine (shows_lift _).bind fun span => (shows_lift _).bind fun length => ?_
  refine (hport.quiet _).mapError.bind fun frames => (hport.quiet _).bind fun _ => ?_
  refine (hport.mapRange space _ s.rights).bind fun _ => (hport.touch _ _).bind fun _ => ?_
  exact (shows_lift _).bind fun addr => hport.touch _ _

theorem load (parse : Elf.Parser) (space : AddressSpace) (file : ByteArray) :
    Shows part (port.load parse space file) (Machine.load parse space file) :=
  shows_loadBy (hport.placeSegment space) parse file

/-- Work through a faithful port ends in what the work of the machine ends in. -/
theorem after (space : AddressSpace) (work : SpaceWork) (s : σ) :
    part (port.after space work s) = work.after space (part s) := by
  cases work with
  | map virt phys rights size =>
      rw [Port.after, SpaceWork.after, ← hport.mapPage space virt phys rights size s, final_seen]
  | unmap virt =>
      rw [Port.after, SpaceWork.after, ← hport.unmapPage space virt s, final_seen]
  | mapRange request rights =>
      rw [Port.after, SpaceWork.after, ← hport.mapRange space request rights s, final_seen]
  | load parse file =>
      rw [Port.after, SpaceWork.after, ← hport.load parse space file s, final_seen]

end Faithful

theorem after_plain : plain.after = SpaceWork.after := by
  funext space work m
  exact faithful_plain.after space work m

end Port

end Machine

end BootMemory
