import BootMemory.Session
import BootMemory.Proofs.Construction
import BootMemory.Proofs.Leases
import BootMemory.Proofs.Ownership
import BootMemory.Proofs.Supply

/-!
# Spaces as maps

A session makes spaces, maps and unmaps pages, allocates frames and gives them back, in any order.
The ledger of a session keeps a map of pages for each space and the frames that clients hold, and
it is kept up to date from the commands and their answers alone.  What a lookup in a live space
answers is read off the map of that space.
-/

namespace BootMemory

namespace Session

def left : EStateM.Result (Failure SessionError) Session Answer → Session
  | .ok _ s => s
  | .error _ s => s

/-- The session after a command, however the command ended. -/
def next (s : Session) (command : Command) : Session :=
  left (step command s)

theorem next_of_ok {s s' : Session} {command : Command} {answer : Answer}
    (hstep : step command s = .ok answer s') : s.next command = s' := by
  rw [next, hstep]
  rfl

section Running

variable {ε α : Type} {s : Session} {m : Machine}

theorem onMachine_ok {restate : ε → SessionError} {x : MachineM ε α} {a : α}
    (hrun : x s.machine = .ok a m) : onMachine restate x s = .ok a { s with machine := m } := by
  rw [onMachine, hrun]

theorem onMachine_error {restate : ε → SessionError} {x : MachineM ε α} {failure : Failure ε}
    (hrun : x s.machine = .error failure m) :
    onMachine restate x s = .error (failure.mapError restate) { s with machine := m } := by
  rw [onMachine, hrun]

theorem spaceAt_ok {slot : Nat} {space : AddressSpace}
    (hslot : s.slots[slot]? = some (some space)) : spaceAt slot s = .ok space s := by
  rw [spaceAt, Action.bind_ok (Action.get_apply s), hslot]
  rfl

theorem spaceAt_error {slot : Nat} (hslot : (s.slots[slot]?).join = none) :
    spaceAt slot s = .error (.error .noSpace) s := by
  rw [spaceAt, Action.bind_ok (Action.get_apply s)]
  cases hfound : s.slots[slot]? with
  | none => rfl
  | some found =>
      rw [hfound] at hslot
      cases found with
      | none => rfl
      | some space => cases hslot

theorem keepSpace_ok {x : SessionM AddressSpace} {s' : Session} {space : AddressSpace}
    (hrun : x s = .ok space s') :
    keepSpace x s =
      .ok (.space s'.slots.size space.root) { s' with slots := s'.slots.push (some space) } := by
  simp only [keepSpace, tryCatch, tryCatchThe, MonadExceptOf.tryCatch, EStateM.tryCatch, bind,
    EStateM.bind, hrun]
  rfl

theorem keepSpace_error {x : SessionM AddressSpace} {s' : Session} {e : SessionError}
    (hrun : x s = .error (.error e) s') :
    keepSpace x s = .error (.error e) { s' with slots := s'.slots.push none } := by
  simp only [keepSpace, tryCatch, tryCatchThe, MonadExceptOf.tryCatch, EStateM.tryCatch, bind,
    EStateM.bind, hrun]
  rfl

theorem keepSpace_fault {x : SessionM AddressSpace} {s' : Session} {f : Fault}
    (hrun : x s = .error (.fault f) s') : keepSpace x s = .error (.fault f) s' := by
  simp only [keepSpace, tryCatch, tryCatchThe, MonadExceptOf.tryCatch, EStateM.tryCatch, bind,
    EStateM.bind, hrun]
  rfl

end Running

/-- The roots of the spaces in the slots. -/
def HasRoots (s : Session) (roots : Nat → Option Nat) : Prop :=
  ∀ slot, (s.slots[slot]?).join = (roots slot).map fun root => ⟨frameBase root⟩

section Roots

variable {s : Session} {roots : Nat → Option Nat}

theorem HasRoots.live (hroots : s.HasRoots roots) {slot root : Nat}
    (hroot : roots slot = some root) : s.slots[slot]? = some (some ⟨frameBase root⟩) := by
  have hslot := hroots slot
  rw [hroot] at hslot
  exact Option.join_eq_some_iff.mp hslot

theorem HasRoots.cases (hroots : s.HasRoots roots) (slot : Nat) :
    (s.slots[slot]?).join = none ∨
      ∃ root, roots slot = some root ∧ s.slots[slot]? = some (some ⟨frameBase root⟩) := by
  cases hroot : roots slot with
  | none =>
      have hslot := hroots slot
      rw [hroot] at hslot
      exact .inl hslot
  | some root => exact .inr ⟨root, rfl, hroots.live hroot⟩

theorem HasRoots.exists_root (hroots : s.HasRoots roots) {slot : Nat} {space : AddressSpace}
    (hslot : s.slots[slot]? = some (some space)) :
    ∃ root, roots slot = some root ∧ space = ⟨frameBase root⟩ := by
  rcases hroots.cases slot with hnone | ⟨root, hroot, hlive⟩
  · rw [hslot] at hnone
    cases hnone
  · exact ⟨root, hroot, Option.some.inj (Option.some.inj (hslot.symm.trans hlive))⟩

theorem HasRoots.size (hroots : s.HasRoots roots) : roots s.slots.size = none := by
  have hslot := hroots s.slots.size
  rw [Array.getElem?_eq_none (le_refl _)] at hslot
  exact Option.map_eq_none_iff.mp hslot.symm

theorem HasRoots.push_none (hroots : s.HasRoots roots) (m : Machine) :
    HasRoots ⟨m, s.slots.push none⟩ roots := by
  intro slot
  rw [← hroots slot]
  simp only [Array.getElem?_push]
  split
  next heq =>
    rw [heq, Array.getElem?_eq_none (le_refl _)]
    rfl
  next => rfl

theorem HasRoots.push_some (hroots : s.HasRoots roots) (m : Machine) (root : Nat) :
    HasRoots ⟨m, s.slots.push (some ⟨frameBase root⟩)⟩
      (Function.update roots s.slots.size (some root)) := by
  intro slot
  simp only [Array.getElem?_push, Function.update_apply]
  split
  next => rfl
  next => exact hroots slot

theorem HasRoots.clear (hroots : s.HasRoots roots) (m : Machine) (slot : Nat) :
    HasRoots ⟨m, s.slots.setIfInBounds slot none⟩ (Function.update roots slot none) := by
  intro other
  simp only [Array.getElem?_setIfInBounds, Function.update_apply]
  by_cases heq : slot = other
  · rw [if_pos heq, if_pos heq.symm]
    split <;> rfl
  · rw [if_neg heq, if_neg (Ne.symm heq)]
    exact hroots other

end Roots

end Session

/-- What is known of a session from its commands and their answers. -/
structure Ledger where
  /-- The frames that clients hold. -/
  held : Set Nat
  /-- The map of the space in each slot. -/
  maps : Nat → PageMap

namespace Ledger

def empty : Ledger :=
  ⟨∅, fun _ _ => none⟩

def setMap (g : Ledger) (slot : Nat) (pages : PageMap) : Ledger :=
  { g with maps := Function.update g.maps slot pages }

theorem setMap_self (g : Ledger) (slot : Nat) : g.setMap slot (g.maps slot) = g := by
  rw [setMap, Function.update_eq_self]

def pagesAsked (request : MapRequest) : Nat :=
  match Word.pageCount request.length with
  | .ok count => count.toNat
  | .error _ => 0

/-- How many pages of a range were mapped: all of them if the command succeeded, else one for
each cached lookup that it dropped. -/
def pagesMapped (request : MapRequest) (s : Session) :
    EStateM.Result (Failure SessionError) Session Answer → Nat
  | .ok _ _ => pagesAsked request
  | .error _ s' => s'.machine.invalidated.size - s.machine.invalidated.size

/-- The ledger after a command on a session came to an outcome. -/
def record (g : Ledger) (s : Session) (command : Command)
    (outcome : EStateM.Result (Failure SessionError) Session Answer) : Ledger :=
  let top := s.machine.levels.top
  match command, outcome with
  | .alloc count, .ok (.word base) _ => { g with held := g.held ∪ runFrames ⟨base⟩ count }
  | .free base count, .ok _ _ => { g with held := g.held \ runFrames base count }
  | .newSpace, .ok (.space slot _) _ => g.setMap slot fun _ => none
  | .mapPage slot virt phys rights _, .ok _ _ =>
      g.setMap slot
        (Function.update (g.maps slot) (virt.pageKey top) (some (pageTarget phys rights)))
  | .mapRange slot request rights, outcome =>
      g.setMap slot
        ((g.maps slot).setRange top request.virt.pageFloor request.phys.pageFloor rights
          (pagesMapped request s outcome))
  | .unmapPage slot virt, .ok (.word _) _ =>
      g.setMap slot (Function.update (g.maps slot) (virt.pageKey top) none)
  | _, _ => g

def after (g : Ledger) (s : Session) (command : Command) : Ledger :=
  g.record s command (Session.step command s)

/-- Clients give back and write only frames that they hold, and spaces are made only by asking for
a new one. -/
def Permits (g : Ledger) : Command → Prop
  | .free base count => runFrames base count ⊆ g.held
  | .write addr data => ∀ k < data.size, (addr.word.toNat + k) / 4096 ∈ g.held
  | .zero addr count => ∀ k < count.toNat * 4096, (addr.word.toNat + k) / 4096 ∈ g.held
  | .writeWord addr _ => ∀ k < 8, (addr.word.toNat + k) / 4096 ∈ g.held
  | .adoptSpace _ | .activeSpace | .load _ _ => False
  | _ => True

/-- The sessions that commands lead to from a machine that was just built, with their ledgers. -/
inductive Reached : Session → Ledger → Prop
  | start {m : Machine} (hbooted : m.Booted) (hspans : m.Spans) : Reached (Session.start m) empty
  | step {s : Session} {g : Ledger} (hreached : Reached s g) (command : Command)
      (hpermits : g.Permits command) : Reached (s.next command) (g.after s command)

/-- The spaces of the session look up what the ledger says. -/
def Describes (g : Ledger) (s : Session) : Prop :=
  ∃ roots, s.HasRoots roots ∧ s.machine.view.Owned roots g.held g.maps

/-- What one command can do on a machine whose live spaces have the roots `roots`. -/
inductive Change (v : View) (roots : Nat → Option Nat) (g : Ledger) :
    View → (Nat → Option Nat) → Ledger → Prop
  | nothing : Change v roots g v roots g
  | alloc {f count : Nat} (hfree : Set.Ico f (f + count) ⊆ v.free) :
      Change v roots g (v.take f count) roots { g with held := g.held ∪ Set.Ico f (f + count) }
  | free {frames : Set Nat} (hheld : frames ⊆ g.held) :
      Change v roots g (v.give frames) roots { g with held := g.held \ frames }
  | write {a : Nat} {values : List UInt8}
      (hheld : ∀ k < values.length, (a + k) / 4096 ∈ g.held) :
      Change v roots g (v.write a values) roots g
  | newSpace {f slot : Nat} (hfree : f ∈ v.free) (hslot : roots slot = none) :
      Change v roots g (v.newRoot f) (Function.update roots slot (some f))
        (g.setMap slot fun _ => none)
  | work {slot root : Nat} {w : View} {pages : PageMap} (hslot : roots slot = some root)
      (hgrown : View.Grown root v w) (hmaps : w.Maps root pages) :
      Change v roots g w roots (g.setMap slot pages)
  | release {slot root : Nat} (hslot : roots slot = some root) :
      Change v roots g (v.give (v.tables root)) (Function.update roots slot none) g

theorem Change.owned {v w : View} {roots roots' : Nat → Option Nat} {g g' : Ledger}
    (hchange : Change v roots g w roots' g') (howned : v.Owned roots g.held g.maps) :
    w.Owned roots' g'.held g'.maps := by
  cases hchange with
  | nothing => exact howned
  | alloc hfree => exact howned.alloc hfree
  | free hheld => exact howned.free hheld
  | write hheld => exact howned.write hheld
  | newSpace hfree _ => exact howned.newRoot hfree _
  | work hslot hgrown hmaps => exact howned.grown hslot hgrown hmaps
  | release hslot => exact howned.release hslot

theorem Change.kept {v w : View} {roots : Nat → Option Nat} {g : Ledger} {slot root : Nat}
    (hslot : roots slot = some root) (hkept : View.PagesKept root v w)
    (hmaps : v.Maps root (g.maps slot)) : Change v roots g w roots g := by
  have hwork := Change.work (g := g) hslot hkept.grown (hkept.maps hmaps)
  rwa [setMap_self] at hwork

/-- A command changes one thing. -/
def Moves (g : Ledger) (s : Session) (command : Command) : Prop :=
  ∀ roots, s.HasRoots roots → s.machine.view.Owned roots g.held g.maps →
    ∃ roots', (s.next command).HasRoots roots' ∧
      Change s.machine.view roots g (s.next command).machine.view roots' (g.after s command)

section Steps

variable {s : Session} {g : Ledger}

theorem pagesMapped_ok {request : MapRequest} {count : Word} {answer : Answer} {s' : Session}
    (hcount : Word.pageCount request.length = .ok count) :
    pagesMapped request s (.ok answer s') = count.toNat := by
  unfold pagesMapped pagesAsked
  rw [hcount]

theorem pagesMapped_error {request : MapRequest} {failure : Failure SessionError} {s' : Session}
    {k : Nat} (hsize : s'.machine.invalidated.size = s.machine.invalidated.size + k) :
    pagesMapped request s (.error failure s') = k := by
  rw [pagesMapped, hsize, Nat.add_sub_cancel_left]

theorem describes_start {m : Machine} (hbooted : m.Booted) (hspans : m.Spans) :
    empty.Describes (Session.start m) :=
  ⟨fun _ => none, fun _ => rfl, .start (hbooted.wellFormed hspans).sound⟩

theorem Moves.describes {command : Command} (hmoves : Moves g s command)
    (hdescribes : g.Describes s) : (g.after s command).Describes (s.next command) := by
  obtain ⟨roots, hroots, howned⟩ := hdescribes
  obtain ⟨roots', hroots', hchange⟩ := hmoves roots hroots howned
  exact ⟨roots', hroots', hchange.owned howned⟩

/-- A command is accounted for if its outcome is. -/
theorem describes_of_outcome {command : Command}
    {outcome : EStateM.Result (Failure SessionError) Session Answer}
    (hstep : Session.step command s = outcome)
    (houtcome : (g.record s command outcome).Describes (Session.left outcome)) :
    (g.after s command).Describes (s.next command) := by
  rw [after, Session.next, hstep]
  exact houtcome

section Moving

variable {roots : Nat → Option Nat} {command : Command}
  {outcome : EStateM.Result (Failure SessionError) Session Answer}

theorem exists_change (roots' : Nat → Option Nat) (hstep : Session.step command s = outcome)
    (hroots' : (Session.left outcome).HasRoots roots')
    (hchange : Change s.machine.view roots g (Session.left outcome).machine.view roots'
      (g.record s command outcome)) :
    ∃ roots', (s.next command).HasRoots roots' ∧
      Change s.machine.view roots g (s.next command).machine.view roots' (g.after s command) := by
  rw [after, Session.next, hstep]
  exact ⟨roots', hroots', hchange⟩

/-- A command that ends with the machine as it was. -/
theorem exists_change_nothing (hroots : s.HasRoots roots)
    (hstep : Session.step command s = outcome)
    (hslots : (Session.left outcome).slots = s.slots)
    (hview : (Session.left outcome).machine.view = s.machine.view)
    (hrecord : g.record s command outcome = g) :
    ∃ roots', (s.next command).HasRoots roots' ∧
      Change s.machine.view roots g (s.next command).machine.view roots' (g.after s command) := by
  have hroots' : (Session.left outcome).HasRoots roots := by
    intro slot
    rw [hslots]
    exact hroots slot
  apply exists_change roots hstep hroots'
  rw [hview, hrecord]
  exact .nothing

end Moving

theorem moves_alloc (count : Word) : Moves g s (.alloc count) := by
  intro roots hroots howned
  rcases Machine.alloc_run howned.sound count with
    ⟨e, m, hrun, hview, _⟩ | ⟨f, m, hcount, hfree, hrun, hview⟩
  · exact exists_change_nothing hroots (Action.bind_error (Session.onMachine_error hrun)) rfl
      hview rfl
  · refine exists_change roots (Action.bind_ok (Session.onMachine_ok hrun)) hroots ?_
    have hmem : f ∈ s.machine.view.free := hfree (Set.mem_Ico.mpr ⟨le_refl f, by omega⟩)
    have hlt := (howned.sound.plain f hmem).lt howned.sound.memory
    have hframes : runFrames (frameBase f) count = Set.Ico f (f + count.toNat) := by
      rw [runFrames, page_frameBase (lt_trans hlt (by decide))]
    change Change _ roots g m.view roots { g with held := g.held ∪ runFrames (frameBase f) count }
    rw [hview, hframes]
    exact .alloc hfree

theorem moves_free {base : PhysAddr} {count : Word} (hheld : runFrames base count ⊆ g.held) :
    Moves g s (.free base count) := by
  intro roots hroots howned
  rcases Machine.free_cases (ε := SessionError) howned.sound base count with
    ⟨f, hrun⟩ | ⟨m, hrun, hview⟩
  · exact exists_change_nothing hroots (Action.bind_error (Session.onMachine_error hrun)) rfl rfl
      rfl
  · refine exists_change roots (Action.bind_ok (Session.onMachine_ok hrun)) hroots ?_
    change Change _ roots g m.view roots { g with held := g.held \ runFrames base count }
    rw [hview]
    exact .free hheld

theorem describes_reserve (hdescribes : g.Describes s) (base : PhysAddr) (count : Word) :
    (g.after s (.reserve base count)).Describes (s.next (.reserve base count)) := by
  obtain ⟨roots, hroots, howned⟩ := hdescribes
  rcases Machine.reserve_cases (ε := SessionError) howned.sound base count with
    ⟨f, hrun⟩ | ⟨m, hrun, hview⟩
  · apply describes_of_outcome (Action.bind_error (Session.onMachine_error hrun))
    exact ⟨roots, hroots, howned⟩
  · apply describes_of_outcome (Action.bind_ok (Session.onMachine_ok hrun))
    refine ⟨roots, hroots, ?_⟩
    change m.view.Owned roots g.held g.maps
    rw [hview]
    exact howned.reserve base.page count.toNat

section Writing

variable {x : MachineM SessionError Unit} {command : Command}

theorem moves_of_unchanged (hcommand : Session.step command = Session.perform x)
    (hrecord : ∀ outcome, g.record s command outcome = g)
    (hrun : (∃ f, x s.machine = .error (.fault f) s.machine) ∨ x s.machine = .ok ⟨⟩ s.machine) :
    Moves g s command := by
  intro roots hroots _
  rcases hrun with ⟨f, hrun⟩ | hrun
  · exact exists_change_nothing hroots
      ((congrFun hcommand s).trans (Action.bind_error (Session.onMachine_error hrun))) rfl rfl
      (hrecord _)
  · exact exists_change_nothing hroots
      ((congrFun hcommand s).trans (Action.bind_ok (Session.onMachine_ok hrun))) rfl rfl
      (hrecord _)

theorem moves_of_write (hcommand : Session.step command = Session.perform x)
    (hrecord : ∀ outcome, g.record s command outcome = g)
    {a : Nat} {values : List UInt8} (hheld : ∀ k < values.length, (a + k) / 4096 ∈ g.held)
    (hrun : s.machine.view.Sound → (∀ f ∈ g.held, s.machine.layout.Plain f) →
      ∃ m, x s.machine = .ok ⟨⟩ m ∧ m.view = s.machine.view.write a values) :
    Moves g s command := by
  intro roots hroots howned
  obtain ⟨m, hrun, hview⟩ := hrun howned.sound howned.plain
  refine exists_change roots
    ((congrFun hcommand s).trans (Action.bind_ok (Session.onMachine_ok hrun))) hroots ?_
  rw [hrecord]
  change Change _ roots g m.view roots g
  rw [hview]
  exact .write hheld

theorem moves_write {addr : PhysAddr} {data : ByteArray}
    (hheld : ∀ k < data.size, (addr.word.toNat + k) / 4096 ∈ g.held) :
    Moves g s (.write addr data) := by
  change ∀ k < data.data.toList.length, _ at hheld
  cases hdata : data.data.toList with
  | nil =>
      apply moves_of_unchanged rfl (fun _ => rfl)
      rw [hdata]
      exact Machine.copyIn_nil addr s.machine
  | cons value rest =>
      apply moves_of_write rfl (fun _ => rfl) hheld
      intro _ hplain
      refine Machine.copyIn_plain ?_ (fun k hk => hplain _ (hheld k hk))
      rw [hdata]
      exact Nat.succ_pos _

theorem moves_zero {addr : PhysAddr} {count : Word}
    (hheld : ∀ k < count.toNat * 4096, (addr.word.toNat + k) / 4096 ∈ g.held) :
    Moves g s (.zero addr count) := by
  by_cases hcount : count.toNat = 0
  · obtain rfl : count = 0 := UInt64.toNat_inj.mp hcount
    exact moves_of_unchanged rfl (fun _ => rfl) (Machine.zeroPages_zero addr s.machine)
  · have hzeros : ∀ k < (List.replicate (count.toNat * 4096) (0 : UInt8)).length,
        (addr.word.toNat + k) / 4096 ∈ g.held := by
      rwa [List.length_replicate]
    apply moves_of_write rfl (fun _ => rfl) hzeros
    intro hsound hplain
    exact Machine.zeroPages_plain hsound (Nat.pos_of_ne_zero hcount)
      (fun k hk => hplain _ (hheld k hk))

theorem moves_writeWord {addr : PhysAddr} {value : Word}
    (hheld : ∀ k < 8, (addr.word.toNat + k) / 4096 ∈ g.held) :
    Moves g s (.writeWord addr value) := by
  by_cases haligned : addr.word.toNat % 8 = 0
  · have hbytes : ∀ k < (toLittleEndian 8 value.toNat).length,
        (addr.word.toNat + k) / 4096 ∈ g.held := by
      rwa [length_toLittleEndian]
    apply moves_of_write rfl (fun _ => rfl) hbytes
    intro _ hplain
    exact Machine.writeWord_plain (hplain _ (hheld 0 (by decide))) rfl haligned value
  · exact moves_of_unchanged rfl (fun _ => rfl)
      (.inl ⟨_, Machine.writeWord_unaligned haligned value s.machine⟩)

end Writing

/-- Commands that only read. -/
theorem moves_of_reading {α : Type} {command : Command} {x : Session → Except Fault α}
    {answer : α → Answer}
    (hcommand : Session.step command =
      (get >>= fun s => liftM (x s) >>= fun a => pure (answer a)))
    (hrecord : ∀ outcome, g.record s command outcome = g) : Moves g s command := by
  intro roots hroots _
  have hstep : Session.step command s =
      (liftM (x s) >>= fun a => pure (answer a) : SessionM Answer) s := by
    rw [hcommand, Action.bind_ok (Action.get_apply s)]
  cases hread : x s with
  | error f =>
      rw [hread] at hstep
      exact exists_change_nothing hroots (hstep.trans (Action.bind_error (Action.lift_error f s)))
        rfl rfl (hrecord _)
  | ok a =>
      rw [hread] at hstep
      exact exists_change_nothing hroots (hstep.trans (Action.bind_ok (Action.lift_ok a s)))
        rfl rfl (hrecord _)

/-! ### Commands on spaces -/

theorem moves_newSpace : Moves g s .newSpace := by
  intro roots hroots howned
  rcases Machine.newTable_run howned.sound with
    ⟨e, m, hrun, hview, _⟩ | ⟨f, m, hfree, hrun, hview⟩
  · have hspace : Machine.newSpace s.machine = .error (.error (.noFrame e)) m :=
      Action.bind_error hrun
    have hstep : Session.step .newSpace s =
        .error (.error (.map (.noFrame e))) ⟨m, s.slots.push none⟩ :=
      Session.keepSpace_error (Session.onMachine_error hspace)
    apply exists_change _ hstep (hroots.push_none m)
    change Change _ roots g m.view roots g
    rw [hview]
    exact .nothing
  · obtain ⟨m', hemit, hview'⟩ := Machine.emit_run (ε := MapError) (.spaceCreated (frameBase f)) m
    have hspace : Machine.newSpace s.machine = .ok ⟨frameBase f⟩ m' := by
      rw [Machine.newSpace, Action.bind_ok hrun, Action.bind_ok hemit]
      rfl
    have hstep : Session.step .newSpace s = .ok (.space s.slots.size (frameBase f))
        ⟨m', s.slots.push (some ⟨frameBase f⟩)⟩ :=
      Session.keepSpace_ok (Session.onMachine_ok hspace)
    apply exists_change _ hstep (hroots.push_some m' f)
    change Change _ roots g m'.view _ (g.setMap s.slots.size fun _ => none)
    rw [hview', hview]
    exact .newSpace hfree hroots.size

/-- A command on a slot answers an error if the slot is empty, and else works in its space. -/
theorem moves_onSpace {command : Command} {slot : Nat} {work : AddressSpace → SessionM Answer}
    (hcommand : Session.step command = (Session.spaceAt slot >>= work))
    (hempty : g.record s command (.error (.error .noSpace) s) = g)
    (hwork : ∀ roots root, s.HasRoots roots → s.machine.view.Owned roots g.held g.maps →
      roots slot = some root → s.slots[slot]? = some (some ⟨frameBase root⟩) →
      ∃ outcome roots', work ⟨frameBase root⟩ s = outcome ∧
        (Session.left outcome).HasRoots roots' ∧
        Change s.machine.view roots g (Session.left outcome).machine.view roots'
          (g.record s command outcome)) :
    Moves g s command := by
  intro roots hroots howned
  rcases hroots.cases slot with hnone | ⟨root, hroot, hslot⟩
  · exact exists_change_nothing hroots
      ((congrFun hcommand s).trans (Action.bind_error (Session.spaceAt_error hnone))) rfl rfl
      hempty
  · obtain ⟨outcome, roots', hrun, hroots', hchange⟩ := hwork roots root hroots howned hroot hslot
    apply exists_change roots' _ hroots' hchange
    rw [hcommand, Action.bind_ok (Session.spaceAt_ok hslot)]
    exact hrun

theorem moves_walkTo (slot : Nat) (virt : VirtAddr) (level : Nat) (allocate : Bool) :
    Moves g s (.walkTo slot virt level allocate) := by
  refine moves_onSpace rfl rfl ?_
  intro roots root hroots howned hroot _
  have htree := howned.tree slot root hroot
  by_cases hlevel : 1 ≤ level ∧ level ≤ s.machine.layout.top
  · cases allocate with
    | false =>
        rcases Machine.walkTo_lookup howned.sound htree virt hlevel.1 hlevel.2 with
          ⟨table, _, hrun⟩ | ⟨_, e, hrun⟩
        · exact ⟨_, roots, Action.bind_ok (Session.onMachine_ok hrun), hroots, .nothing⟩
        · exact ⟨_, roots, Action.bind_error (Session.onMachine_error hrun), hroots, .nothing⟩
    | true =>
        obtain ⟨m, hextended, hresult⟩ :=
          Machine.walkTo_extend howned.sound htree virt hlevel.1 hlevel.2
        have hkept := hextended.pagesKept htree howned.sound
        have hchange : Change s.machine.view roots g m.view roots g :=
          .kept hroot hkept (howned.maps slot root hroot)
        rcases hresult with ⟨table, _, hrun⟩ | ⟨e, hrun⟩
        · exact ⟨_, roots, Action.bind_ok (Session.onMachine_ok hrun), hroots, hchange⟩
        · exact ⟨_, roots, Action.bind_error (Session.onMachine_error hrun), hroots, hchange⟩
  · have hrun := Machine.walkTo_fault hlevel ⟨frameBase root⟩ virt allocate
    exact ⟨_, roots, Action.bind_error (Session.onMachine_error hrun), hroots, .nothing⟩

theorem moves_mapPage (slot : Nat) (virt : VirtAddr) (phys : PhysAddr) (rights : AccessRights)
    (size : PageSize) : Moves g s (.mapPage slot virt phys rights size) := by
  refine moves_onSpace rfl rfl ?_
  intro roots root hroots howned hroot _
  have hmaps := howned.maps slot root hroot
  rcases Machine.mapPage_run howned.sound (howned.tree slot root hroot) virt phys rights size with
    ⟨_, _, m, _, _, hrun, _, hset⟩ | ⟨e, m, hrun, _, hkept⟩
  · refine ⟨_, roots, Action.bind_ok (Session.onMachine_ok hrun), hroots, ?_⟩
    have hafter := hset.maps hmaps
    rw [Addr.pageKey_pageFloor] at hafter
    exact .work hroot hset.grown hafter
  · exact ⟨_, roots, Action.bind_error (Session.onMachine_error hrun), hroots,
      .kept hroot hkept hmaps⟩

theorem moves_mapRange (slot : Nat) (request : MapRequest) (rights : AccessRights) :
    Moves g s (.mapRange slot request rights) := by
  -- the ledger of an outcome, once it is known how many pages were mapped
  have hrecord : ∀ outcome k, pagesMapped request s outcome = k →
      g.record s (.mapRange slot request rights) outcome =
        g.setMap slot ((g.maps slot).setRange s.machine.levels.top request.virt.pageFloor
          request.phys.pageFloor rights k) := by
    rintro outcome k rfl
    rfl
  refine moves_onSpace rfl ?_ ?_
  · rw [hrecord _ 0 (Nat.sub_self _)]
    exact g.setMap_self slot
  · intro roots root hroots howned hroot _
    obtain ⟨k, m, hrange, _, hresult⟩ := Machine.mapRange_run howned.sound
      (howned.tree slot root hroot) (howned.maps slot root hroot) request rights
    have hmaps := hrange.maps
    rw [Nat.zero_add] at hmaps
    rcases hresult with ⟨count, hcount, rfl, hrun⟩ | ⟨failure, hrun⟩
    · refine ⟨.ok .done ⟨m, s.slots⟩, roots, Action.bind_ok (Session.onMachine_ok hrun), hroots, ?_⟩
      rw [hrecord _ count.toNat (pagesMapped_ok hcount)]
      exact .work hroot hrange.grown hmaps
    · refine ⟨_, roots, Action.bind_error (Session.onMachine_error hrun), hroots, ?_⟩
      rw [hrecord _ k (pagesMapped_error hrange.invalidated)]
      exact .work hroot hrange.grown hmaps

theorem moves_unmapPage (slot : Nat) (virt : VirtAddr) : Moves g s (.unmapPage slot virt) := by
  refine moves_onSpace rfl rfl ?_
  intro roots root hroots howned hroot _
  rcases Machine.unmapPage_run (ε := SessionError) howned.sound (howned.tree slot root hroot) virt
    with ⟨target, m, _, hrun, hset⟩ | ⟨_, hrun⟩
  · refine ⟨_, roots, Action.bind_ok (Session.onMachine_ok hrun), hroots, ?_⟩
    have hafter := hset.maps (howned.maps slot root hroot)
    rw [Addr.pageKey_pageFloor] at hafter
    exact .work hroot hset.grown hafter
  · exact ⟨_, roots, Action.bind_ok (Session.onMachine_ok hrun), hroots, .nothing⟩

theorem moves_translate (slot : Nat) (virt : VirtAddr) : Moves g s (.translate slot virt) := by
  refine moves_onSpace rfl rfl ?_
  intro roots root hroots howned hroot _
  have hrun := Machine.translate_run (ε := SessionError) howned.sound
    (howned.tree slot root hroot) virt
  refine ⟨_, roots, Action.bind_ok (Session.onMachine_ok hrun), ?_⟩
  cases s.machine.view.lookup root virt.route with
  | none => exact ⟨hroots, .nothing⟩
  | some target => exact ⟨hroots, .nothing⟩

theorem moves_release {slot : Nat}
    (hidle : ∀ space, s.slots[slot]? = some (some space) → space.root ≠ s.machine.activeRoot) :
    Moves g s (.release slot) := by
  refine moves_onSpace rfl rfl ?_
  intro roots root hroots howned hroot hslot
  obtain ⟨m, hrun, hview, _⟩ := Machine.releaseSpace_run (ε := SessionError) howned.sound
    (howned.tree slot root hroot) (howned.small slot root hroot) (hidle _ hslot)
  refine ⟨_, _, (Action.bind_ok (Action.modify_apply _ s)).trans
    (Action.bind_ok (Session.onMachine_ok hrun)), hroots.clear m slot, ?_⟩
  change Change _ roots g m.view _ g
  rw [hview]
  exact .release hroot

/-- The space that the processor is using is not given back, but its slot is empty afterwards. -/
theorem step_release_active {slot : Nat} {space : AddressSpace}
    (hslot : s.slots[slot]? = some (some space)) (hactive : space.root = s.machine.activeRoot) :
    ∃ failure, Session.step (.release slot) s =
      .error failure ⟨s.machine, s.slots.setIfInBounds slot none⟩ := by
  have hrun := Machine.releaseSpace_fault (ε := SessionError) (m := s.machine) hactive
  exact ⟨_, (Action.bind_ok (Session.spaceAt_ok hslot)).trans
    ((Action.bind_ok (Action.modify_apply _ s)).trans
      (Action.bind_error (Session.onMachine_error hrun)))⟩

theorem describes_release_active (hdescribes : g.Describes s) {slot : Nat} {space : AddressSpace}
    (hslot : s.slots[slot]? = some (some space)) (hactive : space.root = s.machine.activeRoot) :
    (g.after s (.release slot)).Describes (s.next (.release slot)) := by
  obtain ⟨roots, hroots, howned⟩ := hdescribes
  obtain ⟨failure, hstep⟩ := step_release_active hslot hactive
  apply describes_of_outcome hstep
  exact ⟨_, hroots.clear s.machine slot, howned.forget slot⟩

/-- Every command but three changes one thing.  Setting frames aside gives them to no one, and a
space that is in use is only forgotten. -/
theorem moves_of_permits {command : Command} (hpermits : g.Permits command)
    (hreserve : ∀ base count, command ≠ .reserve base count)
    (hactive : ∀ slot space, command = .release slot → s.slots[slot]? = some (some space) →
      space.root ≠ s.machine.activeRoot) : Moves g s command := by
  cases command with
  | alloc count => exact moves_alloc count
  | free base count => exact moves_free hpermits
  | reserve base count => exact absurd rfl (hreserve base count)
  | isTaken addr => exact moves_of_reading rfl fun _ => rfl
  | trackedFrames => exact fun roots hroots _ => ⟨roots, hroots, .nothing⟩
  | newSpace => exact moves_newSpace
  | adoptSpace root => exact hpermits.elim
  | activeSpace => exact hpermits.elim
  | setActiveRoot root => exact fun roots hroots _ => ⟨roots, hroots, .nothing⟩
  | walkTo slot virt level allocate => exact moves_walkTo slot virt level allocate
  | mapPage slot virt phys rights size => exact moves_mapPage slot virt phys rights size
  | mapRange slot request rights => exact moves_mapRange slot request rights
  | unmapPage slot virt => exact moves_unmapPage slot virt
  | translate slot virt => exact moves_translate slot virt
  | release slot => exact moves_release fun space => hactive slot space rfl
  | load slot image => exact hpermits.elim
  | read addr length => exact moves_of_reading rfl fun _ => rfl
  | write addr data => exact moves_write hpermits
  | zero addr count => exact moves_zero hpermits
  | readWord addr => exact moves_of_reading rfl fun _ => rfl
  | writeWord addr value => exact moves_writeWord hpermits
  | nonzeroWords addr count => exact moves_of_reading rfl fun _ => rfl
  | fingerprint => exact moves_of_reading rfl fun _ => rfl

theorem describes_step (hdescribes : g.Describes s) (command : Command)
    (hpermits : g.Permits command) : (g.after s command).Describes (s.next command) := by
  by_cases hreserve : ∃ base count, command = .reserve base count
  · obtain ⟨base, count, rfl⟩ := hreserve
    exact describes_reserve hdescribes base count
  by_cases hactive : ∃ slot space, command = .release slot ∧ s.slots[slot]? = some (some space) ∧
      space.root = s.machine.activeRoot
  · obtain ⟨slot, space, rfl, hslot, hactive⟩ := hactive
    exact describes_release_active hdescribes hslot hactive
  · push Not at hreserve hactive
    exact (moves_of_permits hpermits hreserve hactive).describes hdescribes

theorem Reached.describes (hreached : Reached s g) : g.Describes s := by
  induction hreached with
  | start hbooted hspans => exact describes_start hbooted hspans
  | step _ command hpermits ih => exact describes_step ih command hpermits

end Steps

/-! ### Commands that go through

A session with enough free frames makes spaces and maps pages, and the ledger records it. -/

section Granted

variable {s s' : Session} {g : Ledger} {command : Command} {answer : Answer} {n : Nat}
  {space : AddressSpace}

theorem Reached.of_ok (hreached : Reached s g) (hstep : Session.step command s = .ok answer s')
    (hpermits : g.Permits command) : Reached s' (g.record s command (.ok answer s')) := by
  have hnext := hreached.step command hpermits
  rwa [after, Session.next_of_ok hstep, hstep] at hnext

theorem Reached.alloc (hreached : Reached s g) (hsupplied : s.machine.view.Supplied (1 + n)) :
    ∃ f m, Session.step (.alloc 1) s = .ok (.word (frameBase f).word) ⟨m, s.slots⟩ ∧
      Reached ⟨m, s.slots⟩ { g with held := g.held ∪ runFrames (frameBase f) 1 } ∧
      m.levels = s.machine.levels ∧ m.view.Supplied n := by
  obtain ⟨roots, _, howned⟩ := hreached.describes
  obtain ⟨f, m, hrun, hview⟩ := Machine.alloc_supplied howned.sound hsupplied
  have hstep : Session.step (.alloc 1) s = .ok (.word (frameBase f).word) ⟨m, s.slots⟩ :=
    Action.bind_ok (Session.onMachine_ok hrun)
  refine ⟨f, m, hstep, hreached.of_ok hstep trivial, ?_, ?_⟩
  · exact congrArg (fun v => v.layout.levels) hview
  · exact (hsupplied.take f).of_free_eq (congrArg View.free hview)

theorem Reached.newSpace (hreached : Reached s g) (hsupplied : s.machine.view.Supplied (1 + n)) :
    ∃ root m, Session.step .newSpace s =
        .ok (.space s.slots.size root) ⟨m, s.slots.push (some ⟨root⟩)⟩ ∧
      Reached ⟨m, s.slots.push (some ⟨root⟩)⟩ (g.setMap s.slots.size fun _ => none) ∧
      m.levels = s.machine.levels ∧ m.view.Supplied n := by
  obtain ⟨roots, _, howned⟩ := hreached.describes
  obtain ⟨f, m, _, hrun, hview⟩ :=
    Machine.newSpace_supplied howned.sound (hsupplied.mono (Nat.add_comm n 1).le)
  have hstep : Session.step .newSpace s = _ := Session.keepSpace_ok (Session.onMachine_ok hrun)
  refine ⟨frameBase f, m, hstep, hreached.of_ok hstep trivial, ?_, ?_⟩
  · exact congrArg (fun v => v.layout.levels) hview
  · apply (hsupplied.take f).of_free_eq
    rw [hview]
    rfl

theorem Reached.mapPage (hreached : Reached s g) (slot : Nat)
    (hslot : s.slots[slot]? = some (some space)) (virt : VirtAddr) (phys : PhysAddr)
    (rights : AccessRights)
    (hsupplied : s.machine.view.Supplied (s.machine.levels.top - 1 + n)) :
    ∃ m, Session.step (.mapPage slot virt phys rights .size4KiB) s = .ok .done ⟨m, s.slots⟩ ∧
      Reached ⟨m, s.slots⟩ (g.setMap slot (Function.update (g.maps slot)
        (virt.pageKey s.machine.levels.top) (some (pageTarget phys rights)))) ∧
      m.levels = s.machine.levels ∧ m.view.Supplied n := by
  obtain ⟨roots, hroots, howned⟩ := hreached.describes
  obtain ⟨root, hroot, rfl⟩ := hroots.exists_root hslot
  obtain ⟨m, hrun, hgrown, hleft⟩ := Machine.mapPage_supplied howned.sound
    (howned.tree slot root hroot) (howned.small slot root hroot) virt phys rights hsupplied
  have hstep : Session.step (.mapPage slot virt phys rights .size4KiB) s =
      .ok .done ⟨m, s.slots⟩ :=
    (Action.bind_ok (Session.spaceAt_ok hslot)).trans
      (Action.bind_ok (Session.onMachine_ok hrun))
  exact ⟨m, hstep, hreached.of_ok hstep trivial, congrArg Layout.levels hgrown.layout, hleft⟩

/-- A mapped page is unmapped, and the answer is the frame that it was mapped to. -/
theorem Reached.unmapPage (hreached : Reached s g) (slot : Nat)
    (hslot : s.slots[slot]? = some (some space)) (virt : VirtAddr) {target : PhysAddr × EntryFlags}
    (hmapped : g.maps slot (virt.pageKey s.machine.levels.top) = some target) :
    ∃ m, Session.step (.unmapPage slot virt) s = .ok (.word target.1.word) ⟨m, s.slots⟩ ∧
      Reached ⟨m, s.slots⟩ (g.setMap slot (Function.update (g.maps slot)
        (virt.pageKey s.machine.levels.top) none)) ∧
      m.levels = s.machine.levels := by
  obtain ⟨roots, hroots, howned⟩ := hreached.describes
  obtain ⟨root, hroot, rfl⟩ := hroots.exists_root hslot
  have hlookup : s.machine.view.lookup root virt.pageFloor.route = some target := by
    rw [howned.maps slot root hroot virt.pageFloor, Addr.pageKey_pageFloor]
    exact hmapped
  rcases Machine.unmapPage_run (ε := SessionError) howned.sound (howned.tree slot root hroot) virt
    with ⟨found, m, hfound, hrun, hset⟩ | ⟨hnone, _⟩
  · obtain rfl : target = found := Option.some.inj (hlookup.symm.trans hfound)
    have hstep : Session.step (.unmapPage slot virt) s =
        .ok (.word target.1.word) ⟨m, s.slots⟩ :=
      (Action.bind_ok (Session.spaceAt_ok hslot)).trans
        (Action.bind_ok (Session.onMachine_ok hrun))
    exact ⟨m, hstep, hreached.of_ok hstep trivial, congrArg Layout.levels hset.grown.layout⟩
  · cases hlookup.symm.trans hnone

theorem Reached.writeWord (hreached : Reached s g) {addr : PhysAddr} (hheld : addr.page ∈ g.held)
    (haligned : addr.word.toNat % 8 = 0) (value : Word) :
    ∃ m, Session.step (.writeWord addr value) s = .ok .done ⟨m, s.slots⟩ ∧
      m.view = s.machine.view.writeWord addr.word.toNat value := by
  obtain ⟨roots, _, howned⟩ := hreached.describes
  obtain ⟨m, hrun, hview⟩ := Machine.writeWord_plain (howned.plain _ hheld) rfl haligned value
  exact ⟨m, Action.bind_ok (Session.onMachine_ok hrun), hview⟩

end Granted

end Ledger

/-- However commands made, changed and gave back spaces before, a lookup in a live space goes
through, changes nothing, and answers what the map of the space says. -/
theorem translate_eq_ledger {ε : Type} {s : Session} {g : Ledger} (hreached : Ledger.Reached s g)
    {slot : Nat} {space : AddressSpace} (hslot : s.slots[slot]? = some (some space))
    (virt : VirtAddr) :
    Machine.translate space virt s.machine =
      (.ok ((g.maps slot (virt.pageKey s.machine.levels.top)).map fun target =>
        (⟨target.1.word + virt.pageOffset⟩, target.2)) s.machine :
          EStateM.Result (Failure ε) _ _) := by
  obtain ⟨roots, hroots, howned⟩ := hreached.describes
  obtain ⟨root, hroot, rfl⟩ := hroots.exists_root hslot
  rw [Machine.translate_run howned.sound (howned.tree slot root hroot) virt,
    howned.maps slot root hroot virt]
  rfl

/-- A machine with contents in its free frames makes a space in slot 0. -/
theorem exists_newSpace_sixteenFrameMachine :
    ∃ (log : Array LogEvent) (root : PhysAddr) (m : Machine),
      let booted := sixteenFrameMachine ⟨⟨0⟩, ⟨Array.replicate 0x10000 0xFF⟩⟩ log
      booted.Booted ∧ booted.Spans ∧
        Session.step .newSpace (Session.start booted) = .ok (.space 0 root) ⟨m, #[some ⟨root⟩]⟩ ∧
        Ledger.Reached ⟨m, #[some ⟨root⟩]⟩ (Ledger.empty.setMap 0 fun _ => none) ∧
        m.levels = .four ∧ m.view.Supplied 14 := by
  have hsize : (⟨⟨0⟩, ⟨Array.replicate 0x10000 0xFF⟩⟩ : Memory).size = 0x10000 :=
    Array.size_replicate
  have hbase : (⟨⟨0⟩, ⟨Array.replicate 0x10000 0xFF⟩⟩ : Memory).base = ⟨0⟩ := rfl
  generalize (⟨⟨0⟩, ⟨Array.replicate 0x10000 0xFF⟩⟩ : Memory) = memory at hsize hbase
  obtain ⟨log, hbooted⟩ := booted_sixteenFrameMachine memory
  have hspans := spans_sixteenFrameMachine hbase hsize log
  obtain ⟨root, m, hstep, hreached, hlevels, hleft⟩ :=
    (Ledger.Reached.start hbooted hspans).newSpace (n := 14)
      (supplied_sixteenFrameMachine memory log)
  exact ⟨log, root, m, hbooted, hspans, hstep, hreached, hlevels, hleft⟩

/-- Of two spaces, the first maps two pages and unmaps one of them.  Whatever was in memory, only the
other page is found, and in the first space alone. -/
theorem translate_eq_ledger_on_twoSpaces :
    ∃ log first second s,
      [.newSpace, .newSpace, .mapPage 0 ⟨0x400000⟩ ⟨0x5000⟩ .read .size4KiB,
        .mapPage 0 ⟨0x401000⟩ ⟨0x6000⟩ .write .size4KiB, .unmapPage 0 ⟨0x400000⟩].mapM Session.step
          (Session.start (sixteenFrameMachine ⟨⟨0⟩, ⟨Array.replicate 0x10000 0xFF⟩⟩ log)) =
        .ok [.space 0 first, .space 1 second, .done, .done, .word 0x5000] s ∧
      Machine.translate ⟨first⟩ ⟨0x400ABC⟩ s.machine =
        (.ok none s.machine : EStateM.Result (Failure MapError) _ _) ∧
      Machine.translate ⟨first⟩ ⟨0x401ABC⟩ s.machine =
        (.ok (some (⟨0x6ABC⟩, ⟨0x8000000000000003⟩)) s.machine :
          EStateM.Result (Failure MapError) _ _) ∧
      ∀ virt, Machine.translate ⟨second⟩ virt s.machine =
        (.ok none s.machine : EStateM.Result (Failure MapError) _ _) := by
  obtain ⟨log, first, m₁, _, _, hrun₁, hreached₁, hlevels₁, hleft₁⟩ :=
    exists_newSpace_sixteenFrameMachine
  obtain ⟨second, m₂, hrun₂, hreached₂, hlevels₂, hleft₂⟩ := hreached₁.newSpace (n := 13) hleft₁
  -- a page takes three frames at most, one for each level below the root
  have hfour₂ : m₂.levels = .four := hlevels₂.trans hlevels₁
  obtain ⟨m₃, hrun₃, hreached₃, hlevels₃, hleft₃⟩ := hreached₂.mapPage (n := 10) 0 rfl
    ⟨0x400000⟩ ⟨0x5000⟩ .read (by rw [hfour₂]; exact hleft₂)
  have hfour₃ : m₃.levels = .four := hlevels₃.trans hfour₂
  obtain ⟨m₄, hrun₄, hreached₄, hlevels₄, _⟩ := hreached₃.mapPage (n := 7) 0 rfl
    ⟨0x401000⟩ ⟨0x6000⟩ .write (by rw [hfour₃]; exact hleft₃)
  have hfour₄ : m₄.levels = .four := hlevels₄.trans hfour₃
  simp only [hfour₂, hfour₃] at hreached₄
  obtain ⟨m₅, hrun₅, hreached₅, hlevels₅⟩ := hreached₄.unmapPage 0 rfl ⟨0x400000⟩
    (show _ = some (pageTarget ⟨0x5000⟩ .read) by rw [hfour₄]; rfl)
  have hfour₅ : m₅.levels = .four := hlevels₅.trans hfour₄
  simp only [hfour₄] at hreached₅
  have hfirst : #[some ⟨first⟩, some ⟨second⟩][0]? = some (some (⟨first⟩ : AddressSpace)) := rfl
  have hsecond : #[some ⟨first⟩, some ⟨second⟩][1]? = some (some (⟨second⟩ : AddressSpace)) := rfl
  refine ⟨log, first, second, ⟨m₅, #[some ⟨first⟩, some ⟨second⟩]⟩, ?_, ?_, ?_, ?_⟩
  · exact Action.mapM_cons_ok hrun₁ (Action.mapM_cons_ok hrun₂ (Action.mapM_cons_ok hrun₃
      (Action.mapM_cons_ok hrun₄ (Action.mapM_cons_ok hrun₅ rfl))))
  · rw [translate_eq_ledger hreached₅ hfirst, hfour₅]
    rfl
  · rw [translate_eq_ledger hreached₅ hfirst, hfour₅]
    rfl
  · intro virt
    rw [translate_eq_ledger hreached₅ hsecond]
    rfl

end BootMemory
