import BootMemory.Session
import BootMemory.Proofs.Actions

/-!
# The root in use

Only one command changes which root table the processor is using.  All others are put together
from operations that keep it, so they keep it however they end.
-/

namespace BootMemory

namespace Action

variable {σ τ ε δ α β : Type}

/-- The state that an action ends in. -/
def final : EStateM.Result (Failure ε) σ α → σ
  | .ok _ s => s
  | .error _ s => s

/-- However two actions in a row end, what holds after the first and is kept by the second holds. -/
theorem final_bind {p : σ → Prop} {x : Action σ ε α} {f : α → Action σ ε β} {s : σ}
    (hx : p (final (x s))) (hf : ∀ a s', x s = .ok a s' → p s' → p (final (f a s'))) :
    p (final ((x >>= f) s)) := by
  rw [bind_apply]
  cases hrun : x s with
  | ok a s' =>
      rw [hrun] at hx
      exact hf a s' hrun hx
  | error e s' =>
      rw [hrun] at hx
      exact hx

theorem final_mapError {x : Action σ ε α} {restate : ε → δ} {s : σ} :
    final (mapError restate x s) = final (x s) := by
  cases hrun : x s with
  | ok a s' => rw [mapError_ok hrun, final, final]
  | error e s' => rw [mapError_error hrun, final, final]

/-- However it ends, an action leaves a part of the state as it was. -/
def Keeps (part : σ → τ) (x : Action σ ε α) : Prop :=
  ∀ s, part (final (x s)) = part s

variable {part : σ → τ}

theorem keeps_pure (a : α) : Keeps part (pure a : Action σ ε α) :=
  fun _ => rfl

theorem keeps_fail (e : ε) : Keeps part (fail e : Action σ ε α) :=
  fun _ => rfl

theorem keeps_abort (f : Fault) : Keeps part (abort f : Action σ ε α) :=
  fun _ => rfl

theorem keeps_get : Keeps part (get : Action σ ε σ) :=
  fun _ => rfl

theorem keeps_modify {f : σ → σ} (hf : ∀ s, part (f s) = part s) :
    Keeps part (modify f : Action σ ε PUnit) :=
  hf

theorem keeps_lift (x : Except Fault α) : Keeps part (liftM x : Action σ ε α) := by
  intro s
  cases x <;> rfl

theorem keeps_bind {x : Action σ ε α} {f : α → Action σ ε β} (hx : Keeps part x)
    (hf : ∀ a, Keeps part (f a)) : Keeps part (x >>= f) := fun s =>
  final_bind (p := fun s' => part s' = part s) (hx s) fun a s' _ hkept => (hf a s').trans hkept

theorem keeps_ite {x y : Action σ ε α} (p : Prop) [Decidable p] (hx : Keeps part x)
    (hy : Keeps part y) : Keeps part (if p then x else y) := by
  split
  · exact hx
  · exact hy

theorem keeps_mapError {x : Action σ ε α} {restate : ε → δ} (hx : Keeps part x) :
    Keeps part (mapError restate x) := by
  intro s
  rw [final_mapError]
  exact hx s

theorem keeps_attempt {x : Action σ ε α} (hx : Keeps part x) :
    Keeps part (attempt x : Action σ δ (Option α)) := by
  intro s
  rw [← hx s, attempt]
  rcases x s with _ | ⟨_ | _, _⟩ <;> rfl

theorem keeps_forM {f : α → Action σ ε Unit} (items : List α) (hf : ∀ i, Keeps part (f i)) :
    Keeps part (items.forM f) := by
  induction items with
  | nil => exact keeps_pure _
  | cons i rest ih => exact keeps_bind (hf i) fun _ => ih

end Action

open BootMemory.Action

namespace Machine

variable {ε : Type}

@[simp] theorem activeRoot_withAllocator (m : Machine) (a : FrameAllocator) :
    (m.withAllocator a).activeRoot = m.activeRoot := by
  unfold withAllocator
  cases m.home <;> rfl

theorem keepsRoot_emit (event : LogEvent) : Keeps activeRoot (emit event : MachineM ε Unit) :=
  keeps_modify fun _ => rfl

theorem keepsRoot_alloc (count : Word) : Keeps activeRoot (alloc count) := by
  intro m
  simp only [alloc, Action.bind_apply, Action.modifyGet_apply, takeFrames]
  rcases m.allocator.alloc count with ⟨⟨_ | _⟩ | base, a⟩ <;> exact activeRoot_withAllocator m a

theorem keepsRoot_free (base : PhysAddr) (count : Word) :
    Keeps activeRoot (free base count : MachineM ε Unit) := by
  intro m
  simp only [free, Action.bind_apply, Action.get_apply]
  cases m.allocator.free base count with
  | ok a => exact activeRoot_withAllocator m a
  | error f => rfl

theorem keepsRoot_reserve (base : PhysAddr) (count : Word) :
    Keeps activeRoot (reserve base count : MachineM ε Unit) := by
  intro m
  simp only [reserve, Action.bind_apply, Action.get_apply]
  cases m.allocator.reserve base count with
  | ok a => exact activeRoot_withAllocator m a
  | error f => rfl

theorem keepsRoot_readWord (addr : PhysAddr) : Keeps activeRoot (readWord addr : MachineM ε Word) :=
  keeps_bind keeps_get fun _ => keeps_lift _

theorem keepsRoot_overwrite (i : Nat) (values : List UInt8) :
    Keeps activeRoot (overwrite i values : MachineM ε Unit) :=
  keeps_modify fun _ => rfl

theorem keepsRoot_writeWord (addr : PhysAddr) (value : Word) :
    Keeps activeRoot (writeWord addr value : MachineM ε Unit) :=
  keeps_bind keeps_get fun _ => keeps_bind (keeps_lift _) fun _ => keeps_modify fun _ => rfl

theorem keepsRoot_zeroPages (addr : PhysAddr) (count : Word) :
    Keeps activeRoot (zeroPages addr count : MachineM ε Unit) :=
  keeps_bind keeps_get fun _ => keeps_bind (keeps_lift _) fun _ => keeps_bind (keeps_lift _)
    fun _ => keeps_bind keeps_get fun _ => keeps_bind (keeps_lift _) fun _ =>
      keepsRoot_overwrite _ _

theorem keepsRoot_copyIn (addr : PhysAddr) (values : List UInt8) :
    Keeps activeRoot (copyIn addr values : MachineM ε Unit) :=
  keeps_bind keeps_get fun _ => keeps_bind (keeps_lift _) fun _ => keepsRoot_overwrite _ _

/-! ## Working in a space -/

theorem keepsRoot_newTable : Keeps activeRoot newTable :=
  keeps_bind (keeps_mapError (keepsRoot_alloc 1)) fun _ =>
    keeps_bind (keepsRoot_zeroPages _ _) fun _ => keeps_pure _

theorem keepsRoot_newSpace : Keeps activeRoot newSpace :=
  keeps_bind keepsRoot_newTable fun _ => keeps_bind (keepsRoot_emit _) fun _ => keeps_pure _

theorem keepsRoot_child (virt : VirtAddr) (allocate : Bool) (table : PhysAddr) (level : Nat) :
    Keeps activeRoot (child virt allocate table level) := by
  refine keeps_bind (keeps_lift _) fun entryAddr => keeps_bind (keepsRoot_readWord entryAddr)
    fun bits => keeps_ite _ (keeps_ite _ (keeps_fail _) (keeps_pure _)) (keeps_ite _ ?_
      (keeps_fail _))
  exact keeps_bind keepsRoot_newTable fun _ => keeps_bind (keepsRoot_writeWord _ _) fun _ =>
    keeps_bind (keepsRoot_emit _) fun _ => keeps_pure _

theorem keepsRoot_walk (virt : VirtAddr) (allocate : Bool) (target steps : Nat) (table : PhysAddr) :
    Keeps activeRoot (walk virt allocate target steps table) := by
  induction steps generalizing table with
  | zero => exact keeps_pure _
  | succ steps ih => exact keeps_bind (keepsRoot_child _ _ _ _) fun next => ih next

theorem keepsRoot_walkTo (space : AddressSpace) (virt : VirtAddr) (target : Nat)
    (allocate : Bool) : Keeps activeRoot (walkTo space virt target allocate) :=
  keeps_bind keeps_get fun _ => keeps_ite _ (keepsRoot_walk _ _ _ _ _) (keeps_abort _)

theorem keepsRoot_mapPage (space : AddressSpace) (virt : VirtAddr) (phys : PhysAddr)
    (rights : AccessRights) (size : PageSize) :
    Keeps activeRoot (mapPage space virt phys rights size) := by
  refine keeps_ite _ (keeps_fail _) ?_
  exact keeps_bind (keepsRoot_walkTo _ _ _ _) fun _ => keeps_bind (keeps_lift _) fun _ =>
    keeps_bind (keepsRoot_writeWord _ _) fun _ =>
      keeps_bind (keeps_modify fun _ => rfl) fun _ => keepsRoot_emit _

theorem keepsRoot_mapPages (space : AddressSpace) (virt : VirtAddr) (phys : PhysAddr)
    (rights : AccessRights) (count first : Nat) :
    Keeps activeRoot (mapPages space virt phys rights count first) := by
  induction count generalizing first with
  | zero => exact keeps_pure _
  | succ count ih =>
      exact keeps_bind (keeps_lift _) fun _ => keeps_bind (keeps_lift _) fun _ =>
        keeps_bind (keeps_lift _) fun _ => keeps_bind (keepsRoot_mapPage _ _ _ _ _) fun _ =>
          ih (first + 1)

theorem keepsRoot_mapRange (space : AddressSpace) (request : MapRequest) (rights : AccessRights) :
    Keeps activeRoot (mapRange space request rights) :=
  keeps_bind (keeps_lift _) fun _ => keeps_bind (keepsRoot_emit _) fun _ =>
    keepsRoot_mapPages _ _ _ _ _ _

theorem keepsRoot_leaf (space : AddressSpace) (virt : VirtAddr) :
    Keeps activeRoot (leaf space virt : MachineM ε _) := by
  refine keeps_bind (keeps_attempt (keepsRoot_walkTo _ _ _ _)) ?_
  rintro (_ | table)
  · exact keeps_pure _
  · exact keeps_bind (keeps_lift _) fun _ => keeps_bind (keepsRoot_readWord _) fun _ => keeps_pure _

theorem keepsRoot_unmapPage (space : AddressSpace) (virt : VirtAddr) :
    Keeps activeRoot (unmapPage space virt : MachineM ε _) := by
  refine keeps_bind (keepsRoot_leaf _ _) ?_
  rintro (_ | ⟨entryAddr, entry⟩)
  · exact keeps_pure _
  · exact keeps_ite _ (keeps_bind (keepsRoot_writeWord _ _) fun _ =>
      keeps_bind (keeps_modify fun _ => rfl) fun _ => keeps_pure _) (keeps_pure _)

theorem keepsRoot_translate (space : AddressSpace) (virt : VirtAddr) :
    Keeps activeRoot (translate space virt : MachineM ε _) := by
  refine keeps_bind (keepsRoot_leaf _ _) ?_
  rintro (_ | ⟨entryAddr, entry⟩)
  · exact keeps_pure _
  · exact keeps_ite _ (keeps_bind (keeps_lift _) fun _ => keeps_pure _) (keeps_pure _)

theorem keepsRoot_releaseTree (level : Nat) (table : PhysAddr) :
    Keeps activeRoot (releaseTree level table : MachineM ε Unit) := by
  induction level using Nat.strong_induction_on generalizing table with
  | _ level ih =>
      match level with
      | 0 => exact keepsRoot_free table 1
      | 1 => exact keepsRoot_free table 1
      | level + 2 =>
          rw [releaseTree]
          refine keeps_bind (keeps_forM _ fun index => ?_) fun _ => keepsRoot_free table 1
          exact keeps_bind (keeps_lift _) fun _ => keeps_bind (keepsRoot_readWord _) fun _ =>
            keeps_ite _ (ih (level + 1) (Nat.lt_succ_self _) _) (keeps_pure _)

theorem keepsRoot_releaseSpace (space : AddressSpace) :
    Keeps activeRoot (releaseSpace space : MachineM ε Unit) :=
  keeps_bind keeps_get fun _ => keeps_ite _ (keeps_abort _) (keepsRoot_releaseTree _ _)

theorem keepsRoot_placeSegment (space : AddressSpace) (s : Segment) :
    Keeps activeRoot (placeSegment space s) :=
  keeps_bind (keeps_lift _) fun _ => keeps_bind (keeps_lift _) fun _ =>
    keeps_bind (keeps_mapError (keepsRoot_alloc _)) fun _ =>
      keeps_bind (keepsRoot_emit _) fun _ => keeps_bind (keepsRoot_mapRange _ _ _) fun _ =>
        keeps_bind (keepsRoot_zeroPages _ _) fun _ => keeps_bind (keeps_lift _) fun _ =>
          keepsRoot_copyIn _ _

theorem keepsRoot_load (parse : Elf.Parser) (space : AddressSpace) (file : ByteArray) :
    Keeps activeRoot (load parse space file) := by
  unfold load loadBy
  cases Executable.ofImage parse file with
  | error e => exact keeps_fail _
  | ok image =>
      refine keeps_bind (keeps_forM _ fun part => ?_) fun _ => keeps_pure _
      unfold loadPart
      cases part.1.segment file part.2 with
      | error e => exact keeps_fail _
      | ok s => exact keeps_mapError (keepsRoot_placeSegment space s)

end Machine

namespace Session

variable {ε α : Type}

def activeRoot (s : Session) : PhysAddr :=
  s.machine.activeRoot

theorem keepsRoot_onMachine {restate : ε → SessionError} {x : MachineM ε α}
    (hx : Keeps Machine.activeRoot x) : Keeps activeRoot (onMachine restate x) := by
  intro s
  have hmachine := hx s.machine
  unfold onMachine
  cases hrun : x s.machine <;> rw [hrun] at hmachine <;> exact hmachine

theorem keepsRoot_perform {x : MachineM SessionError Unit} (hx : Keeps Machine.activeRoot x) :
    Keeps activeRoot (perform x) :=
  keeps_bind (keepsRoot_onMachine hx) fun _ => keeps_pure _

theorem keepsRoot_spaceAt (slot : Nat) : Keeps activeRoot (spaceAt slot) := by
  refine keeps_bind keeps_get fun s => ?_
  rcases s.slots[slot]? with _ | ⟨_ | space⟩
  · exact keeps_fail _
  · exact keeps_fail _
  · exact keeps_pure _

theorem keepsRoot_keepSpace {x : SessionM AddressSpace} (hx : Keeps activeRoot x) :
    Keeps activeRoot (keepSpace x) := by
  intro s
  rw [← hx s]
  simp only [keepSpace, tryCatch, tryCatchThe, MonadExceptOf.tryCatch, EStateM.tryCatch, bind,
    EStateM.bind]
  rcases x s with ⟨space, s'⟩ | ⟨_ | _, s'⟩ <;> rfl

theorem keepsRoot_reading {x : Session → Except Fault α} {answer : α → Answer} :
    Keeps activeRoot
      (get >>= fun s => liftM (x s) >>= fun a => pure (answer a) : SessionM Answer) :=
  keeps_bind keeps_get fun _ => keeps_bind (keeps_lift _) fun _ => keeps_pure _

theorem keepsRoot_inSpace {slot : Nat} {restate : ε → SessionError}
    {x : AddressSpace → MachineM ε α} {answer : α → SessionM Answer}
    (hx : ∀ space, Keeps Machine.activeRoot (x space))
    (hanswer : ∀ a, Keeps activeRoot (answer a)) :
    Keeps activeRoot (spaceAt slot >>= fun space => onMachine restate (x space) >>= answer) :=
  keeps_bind (keepsRoot_spaceAt slot) fun space =>
    keeps_bind (keepsRoot_onMachine (hx space)) hanswer

/-- Every command but one keeps the root in use. -/
theorem keepsRoot_step {command : Command} (hother : ∀ root, command ≠ .setActiveRoot root) :
    Keeps activeRoot (step command) := by
  cases command with
  | alloc count =>
      exact keeps_bind (keepsRoot_onMachine (Machine.keepsRoot_alloc _)) fun _ => keeps_pure _
  | free addr count => exact keepsRoot_perform (Machine.keepsRoot_free addr count)
  | reserve addr count => exact keepsRoot_perform (Machine.keepsRoot_reserve addr count)
  | isTaken addr => exact keepsRoot_reading
  | trackedFrames => exact keeps_bind keeps_get fun _ => keeps_pure _
  | newSpace => exact keepsRoot_keepSpace (keepsRoot_onMachine Machine.keepsRoot_newSpace)
  | adoptSpace root => exact keepsRoot_keepSpace (keeps_pure _)
  | activeSpace => exact keeps_bind keeps_get fun _ => keepsRoot_keepSpace (keeps_pure _)
  | setActiveRoot root => exact absurd rfl (hother root)
  | walkTo slot virt level allocate =>
      exact keepsRoot_inSpace (fun space => Machine.keepsRoot_walkTo space virt level allocate)
        fun _ => keeps_pure _
  | mapPage slot virt phys rights size =>
      exact keepsRoot_inSpace (fun space => Machine.keepsRoot_mapPage space virt phys rights size)
        fun _ => keeps_pure _
  | mapRange slot request rights =>
      exact keepsRoot_inSpace (fun space => Machine.keepsRoot_mapRange space request rights)
        fun _ => keeps_pure _
  | unmapPage slot virt =>
      refine keepsRoot_inSpace (fun space => Machine.keepsRoot_unmapPage space virt) ?_
      rintro (_ | frame) <;> exact keeps_pure _
  | translate slot virt =>
      refine keepsRoot_inSpace (fun space => Machine.keepsRoot_translate space virt) ?_
      rintro (_ | target) <;> exact keeps_pure _
  | release slot =>
      exact keeps_bind (keepsRoot_spaceAt slot) fun space => keeps_bind (keeps_modify fun _ => rfl)
        fun _ => keepsRoot_perform (Machine.keepsRoot_releaseSpace space)
  | load slot image =>
      exact keepsRoot_inSpace (fun space => Machine.keepsRoot_load Elf.parse space image)
        fun _ => keeps_pure _
  | read addr length => exact keepsRoot_reading
  | write addr data => exact keepsRoot_perform (Machine.keepsRoot_copyIn addr _)
  | zero addr count => exact keepsRoot_perform (Machine.keepsRoot_zeroPages addr count)
  | readWord addr => exact keepsRoot_reading
  | writeWord addr value => exact keepsRoot_perform (Machine.keepsRoot_writeWord addr value)
  | nonzeroWords addr count => exact keepsRoot_reading
  | fingerprint => exact keepsRoot_reading

end Session

end BootMemory
