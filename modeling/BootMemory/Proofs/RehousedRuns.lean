import BootMemory.Proofs.LoadEnds
import BootMemory.Proofs.Partition
import BootMemory.Proofs.RehousedBoot
import BootMemory.Proofs.RehousedSpaces

/-!
# Sessions and where the bitmap is kept

As long as clients write only frames that are theirs, all work in a session stays in frames that
were free at the start: tables, the frames of images and the frames of clients are taken from these
and never from anywhere else.  So no step meets the frames of the bitmap, and a session on a machine
that keeps its own bitmap goes like one on a machine whose bitmap lies beside its memory.
-/

namespace BootMemory

/-- The frames that a command gives back by name. -/
def Command.givenBack : Command → Set Nat
  | .free base count => runFrames base count
  | _ => ∅

theorem Ledger.held_sdiff_subset_after (g : Ledger) (s : Session) (command : Command) :
    g.held \ command.givenBack ⊆ (g.after s command).held := by
  rintro f ⟨hf, hkept⟩
  unfold after record
  dsimp only
  split
  · exact .inl hf
  · exact ⟨hf, hkept⟩
  all_goals exact hf

namespace Session

/-- The frames that were free at the start and are neither free now nor tables of a live space: they
were handed to clients, filled by a load, or set aside. -/
def clientFrames (m : Machine) (s : Session) : Set Nat :=
  {f | f ∈ m.allocator.freeFrames ∧ f ∉ s.machine.allocator.freeFrames ∧
    ∀ (slot : Nat) (space : AddressSpace), s.slots[slot]? = some (some space) →
      f ∉ s.machine.view.tables space.root.page}

/-- Clients give back and write only frames that are theirs, and they do not look at memory as a
whole.  Spaces are made only by asking for a new one. -/
def Allows (m : Machine) (s : Session) : Command → Prop
  | .free base count => runFrames base count ⊆ s.clientFrames m
  | .write addr data => ∀ k < data.size, (addr.word.toNat + k) / 4096 ∈ s.clientFrames m
  | .zero addr count => ∀ k < count.toNat * 4096, (addr.word.toNat + k) / 4096 ∈ s.clientFrames m
  | .writeWord addr _ => ∀ k < 8, (addr.word.toNat + k) / 4096 ∈ s.clientFrames m
  | .adoptSpace _ | .activeSpace | .read _ _ | .readWord _ | .nonzeroWords _ _ | .fingerprint =>
      False
  | _ => True

theorem allows_writeWord {m : Machine} {s : Session} {addr : PhysAddr}
    (haligned : addr.word.toNat % 8 = 0) (hclient : addr.page ∈ s.clientFrames m) (value : Word) :
    s.Allows m (.writeWord addr value) := by
  intro k hk
  have hpage : (addr.word.toNat + k) / 4096 = addr.page := by
    unfold Addr.page
    omega
  rwa [hpage]

theorem next_load {s : Session} {slot : Nat} {space : AddressSpace} {image : ByteArray}
    (hslot : s.slots[slot]? = some (some space)) :
    s.next (.load slot image) =
      { s with machine := Action.final (Machine.load Elf.parse space image s.machine) } := by
  have hstep : Session.step (.load slot image) s =
      (onMachine .load (Machine.load Elf.parse space image) >>= fun a => pure (.entry a)) s :=
    Action.bind_ok (spaceAt_ok hslot)
  rw [next, hstep]
  cases hrun : Machine.load Elf.parse space image s.machine with
  | ok entry m =>
      rw [Action.bind_ok (onMachine_ok hrun)]
      rfl
  | error failure m =>
      rw [Action.bind_error (onMachine_error hrun)]
      rfl

/-- The live spaces, and all frames that are free or tables of them, are among the frames that were
free at the start. -/
structure Lodged (m : Machine) (roots : Nat → Option Nat) (s : Session) : Prop where
  slots : s.HasRoots roots
  owned : ∃ maps, s.machine.view.Owned roots ∅ maps
  layout : s.machine.layout = m.layout
  free : s.machine.view.free ⊆ m.view.free
  tables : s.machine.view.spaceTables roots ⊆ m.view.free

end Session

theorem View.Owned.withHeld {v : View} {roots : Nat → Option Nat} {held held' : Set Nat}
    {maps : Nat → PageMap} (howned : v.Owned roots held maps)
    (hplain : ∀ f ∈ held', v.layout.Plain f) (htaken : ∀ f ∈ held', f ∉ v.free)
    (hclient : ∀ f ∈ held', ∀ slot root, roots slot = some root → f ∉ v.tables root) :
    v.Owned roots held' maps :=
  { howned with plain := hplain, taken := htaken, client := hclient }

theorem View.Owned.ofNobody {v : View} {roots : Nat → Option Nat} {held : Set Nat}
    {maps : Nat → PageMap} (howned : v.Owned roots held maps) : v.Owned roots ∅ maps :=
  howned.withHeld (by simp) (by simp) (by simp)

namespace Session.Lodged

variable {m : Machine} {s : Session} {roots : Nat → Option Nat} {command : Command}

theorem start (hsound : m.view.Sound) : Lodged m (fun _ => none) (Session.start m) where
  slots := fun _ => rfl
  owned := ⟨fun _ _ => none, .start hsound⟩
  layout := rfl
  free := subset_rfl
  tables := by simp [View.spaceTables]

theorem mem_clientFrames (hlodged : Lodged m roots s) {f : Nat} :
    f ∈ s.clientFrames m ↔
      f ∈ m.view.free ∧ f ∉ s.machine.view.free ∧ f ∉ s.machine.view.spaceTables roots := by
  obtain ⟨maps, howned⟩ := hlodged.owned
  constructor
  · rintro ⟨hfree, htaken, hbeside⟩
    refine ⟨hfree, htaken, ?_⟩
    rintro ⟨slot, root, hroot, hf⟩
    apply hbeside slot _ (hlodged.slots.live hroot)
    rwa [howned.root_page hroot]
  · rintro ⟨hfree, htaken, hbeside⟩
    refine ⟨hfree, htaken, fun slot space hslot hf => hbeside ?_⟩
    obtain ⟨root, hroot, rfl⟩ := hlodged.slots.exists_root hslot
    rw [howned.root_page hroot] at hf
    exact ⟨slot, root, hroot, hf⟩

theorem plain_clientFrames (hlodged : Lodged m roots s) (hsound : m.view.Sound) {f : Nat}
    (hf : f ∈ s.clientFrames m) : s.machine.layout.Plain f := by
  rw [hlodged.layout]
  exact hsound.plain f hf.1

/-- Clients own their frames. -/
theorem owned_clientFrames (hlodged : Lodged m roots s) (hsound : m.view.Sound) :
    ∃ maps, s.machine.view.Owned roots (s.clientFrames m) maps := by
  obtain ⟨maps, howned⟩ := hlodged.owned
  refine ⟨maps, howned.withHeld ?_ ?_ ?_⟩
  · exact fun f hf => hlodged.plain_clientFrames hsound hf
  · exact fun f hf => (hlodged.mem_clientFrames.mp hf).2.1
  · exact fun f hf slot root hroot hin =>
      (hlodged.mem_clientFrames.mp hf).2.2 ⟨slot, root, hroot, hin⟩

theorem pool_clientFrames (hlodged : Lodged m roots s) :
    s.machine.view.pool roots (s.clientFrames m) = m.view.free := by
  apply Set.Subset.antisymm
  · rintro f ((hfree | hclient) | htable)
    · exact hlodged.free hfree
    · exact hclient.1
    · exact hlodged.tables htable
  · intro f hf
    by_cases hfree : f ∈ s.machine.view.free
    · exact .inl (.inl hfree)
    · by_cases htable : f ∈ s.machine.view.spaceTables roots
      · exact .inr htable
      · exact .inl (.inr (hlodged.mem_clientFrames.mpr ⟨hf, hfree, htable⟩))

theorem pool_tracked (hlodged : Lodged m roots s) :
    s.machine.view.pool roots (s.clientFrames m) ⊆ s.machine.view.layout.tracked := by
  rw [hlodged.pool_clientFrames, show s.machine.view.layout = m.layout from hlodged.layout]
  exact fun f hf => hf.1

section Next

variable {s' : Session} {roots' : Nat → Option Nat} {maps : Nat → PageMap} {g : Ledger}

theorem of_change (hlodged : Lodged m roots s)
    (howned : s.machine.view.Owned roots (s.clientFrames m) maps) (hroots : s'.HasRoots roots')
    (hchange : Ledger.Change s.machine.view roots ⟨s.clientFrames m, maps⟩ s'.machine.view roots'
      g) : Lodged m roots' s' ∧ g.held ⊆ s'.clientFrames m := by
  have hpool : s'.machine.view.pool roots' g.held = m.view.free :=
    (hchange.pool_eq howned hlodged.pool_tracked).trans hlodged.pool_clientFrames
  have howned' := hchange.owned howned
  have hlodged' : Lodged m roots' s' := by
    refine ⟨hroots, ⟨g.maps, howned'.ofNobody⟩, hchange.layout.trans hlodged.layout, ?_, ?_⟩
    · rw [← hpool]
      exact fun f hf => .inl (.inl hf)
    · rw [← hpool]
      exact fun f hf => .inr hf
  refine ⟨hlodged', fun f hf => hlodged'.mem_clientFrames.mpr ⟨?_, howned'.taken f hf, ?_⟩⟩
  · rw [← hpool]
    exact .inl (.inr hf)
  · rintro ⟨slot, root, hroot, hin⟩
    exact howned'.client f hf slot root hroot hin

/-- Where no more frames are free or tables than before, clients keep their frames. -/
theorem of_subset (hlodged : Lodged m roots s) (hroots : s'.HasRoots roots')
    (howned : s'.machine.view.Owned roots' ∅ maps)
    (hlayout : s'.machine.layout = s.machine.layout)
    (hfree : s'.machine.view.free ⊆ s.machine.view.free)
    (htables : s'.machine.view.spaceTables roots' ⊆
      s.machine.view.free ∪ s.machine.view.spaceTables roots) :
    Lodged m roots' s' ∧ s.clientFrames m ⊆ s'.clientFrames m := by
  have hlodged' : Lodged m roots' s' :=
    ⟨hroots, ⟨maps, howned⟩, hlayout.trans hlodged.layout, hfree.trans hlodged.free,
      htables.trans (Set.union_subset hlodged.free hlodged.tables)⟩
  refine ⟨hlodged', fun f hf => ?_⟩
  obtain ⟨hstart, htaken, hbeside⟩ := hlodged.mem_clientFrames.mp hf
  exact hlodged'.mem_clientFrames.mpr
    ⟨hstart, fun hin => htaken (hfree hin), fun hin => (htables hin).elim htaken hbeside⟩

end Next

/-! ## Steps -/

theorem reserve (hlodged : Lodged m roots s) (base : PhysAddr) (count : Word) :
    Lodged m roots (s.next (.reserve base count)) ∧
      s.clientFrames m ⊆ (s.next (.reserve base count)).clientFrames m := by
  obtain ⟨maps, howned⟩ := hlodged.owned
  rcases Machine.reserve_cases (ε := SessionError) howned.sound base count with
    ⟨f, hrun⟩ | ⟨m', hrun, hview⟩
  · have hstep : s.next (.reserve base count) = s :=
      congrArg left (Action.bind_error (onMachine_error hrun) : step (.reserve base count) s = _)
    rw [hstep]
    exact ⟨hlodged, subset_rfl⟩
  · have hstep : s.next (.reserve base count) = { s with machine := m' } :=
      congrArg left (Action.bind_ok (onMachine_ok hrun) : step (.reserve base count) s = _)
    have htables : m'.view.spaceTables roots = s.machine.view.spaceTables roots :=
      View.spaceTables_congr fun _ root _ =>
        hview ▸ (View.SameTables.take s.machine.view base.page count.toNat).tables_eq
    have hroots : HasRoots { s with machine := m' } roots := hlodged.slots
    have howned' : m'.view.Owned roots ∅ maps := hview ▸ howned.reserve base.page count.toNat
    rw [hstep]
    apply hlodged.of_subset hroots howned'
    · exact congrArg View.layout hview
    · exact (congrArg View.free hview).subset.trans Set.sdiff_subset
    · exact htables.subset.trans Set.subset_union_right

theorem release_active (hlodged : Lodged m roots s) {slot : Nat} {space : AddressSpace}
    (hslot : s.slots[slot]? = some (some space)) (hactive : space.root = s.machine.activeRoot) :
    Lodged m (Function.update roots slot none) (s.next (.release slot)) ∧
      s.clientFrames m ⊆ (s.next (.release slot)).clientFrames m := by
  obtain ⟨maps, howned⟩ := hlodged.owned
  obtain ⟨failure, hstep⟩ := Ledger.step_release_active hslot hactive
  rw [next, hstep]
  apply hlodged.of_subset (hlodged.slots.clear s.machine slot) (howned.forget slot)
  · rfl
  · exact subset_rfl
  · rintro t ⟨other, root, hroot, ht⟩
    exact .inr ⟨other, root, (View.Owned.of_forgotten hroot).2, ht⟩

/-- A load works in one space, however far it comes. -/
theorem load (hlodged : Lodged m roots s) (slot : Nat) (image : ByteArray) :
    Lodged m roots (s.next (.load slot image)) ∧
      s.clientFrames m ⊆ (s.next (.load slot image)).clientFrames m := by
  rcases hlodged.slots.cases slot with hnone | ⟨root, hroot, hlive⟩
  · have hstep : step (.load slot image) s = .error (.error .noSpace) s :=
      Action.bind_error (spaceAt_error hnone)
    rw [next, hstep]
    exact ⟨hlodged, subset_rfl⟩
  · obtain ⟨maps, howned⟩ := hlodged.owned
    have htree := howned.tree slot root hroot
    obtain ⟨parts, _, htaken⟩ := Machine.load_ends_taken howned.sound htree Elf.parse image
    have hconfined := htaken.confined
    have hsmall := Machine.load_small howned.sound htree (howned.small slot root hroot) Elf.parse
      image
    rw [next_load hlive]
    apply hlodged.of_subset
    · exact hlodged.slots
    · exact howned.confined hroot hconfined hsmall (View.maps_pageMap _ root)
    · exact hconfined.layout
    · exact hconfined.free
    · rintro t ⟨other, root', hroot', ht⟩
      by_cases hsame : other = slot
      · obtain rfl : root' = root := by
          rw [hsame, hroot] at hroot'
          exact (Option.some.inj hroot').symm
        exact (hconfined.fresh ht).symm.imp_right fun hold => ⟨slot, root', hroot, hold⟩
      · have htables := (hconfined.sameTables (howned.tree other root' hroot')
          (howned.apart slot other root root' hroot hroot' (Ne.symm hsame))).tables_eq
        exact .inr ⟨other, root', hroot', htables ▸ ht⟩

/-- All other commands change one thing, and the ledger says what becomes of the frames of
clients. -/
theorem changed (hlodged : Lodged m roots s) (hsound : m.view.Sound) (hallows : s.Allows m command)
    (hreserve : ∀ base count, command ≠ .reserve base count)
    (hload : ∀ slot image, command ≠ .load slot image)
    (hactive : ∀ slot space, command = .release slot → s.slots[slot]? = some (some space) →
      space.root ≠ s.machine.activeRoot) :
    ∃ roots' maps, Lodged m roots' (s.next command) ∧
      (Ledger.after ⟨s.clientFrames m, maps⟩ s command).held ⊆
        (s.next command).clientFrames m := by
  obtain ⟨maps, howned⟩ := hlodged.owned_clientFrames hsound
  have hpermits : Ledger.Permits ⟨s.clientFrames m, maps⟩ command := by
    cases command with
    | load slot image => exact absurd rfl (hload slot image)
    | _ => first | exact hallows | exact hallows.elim
  obtain ⟨roots', hroots', hchange⟩ :=
    Ledger.moves_of_permits hpermits hreserve hactive roots hlodged.slots howned
  exact ⟨roots', maps, hlodged.of_change howned hroots' hchange⟩

/-- A step leaves clients all frames that it does not give back. -/
theorem step (hlodged : Lodged m roots s) (hsound : m.view.Sound) (hallows : s.Allows m command) :
    ∃ roots', Lodged m roots' (s.next command) ∧
      s.clientFrames m \ command.givenBack ⊆ (s.next command).clientFrames m := by
  by_cases hreserve : ∃ base count, command = .reserve base count
  · obtain ⟨base, count, rfl⟩ := hreserve
    obtain ⟨hnext, hclients⟩ := hlodged.reserve base count
    exact ⟨roots, hnext, Set.sdiff_subset.trans hclients⟩
  by_cases hload : ∃ slot image, command = .load slot image
  · obtain ⟨slot, image, rfl⟩ := hload
    obtain ⟨hnext, hclients⟩ := hlodged.load slot image
    exact ⟨roots, hnext, Set.sdiff_subset.trans hclients⟩
  by_cases hactive : ∃ slot space, command = .release slot ∧ s.slots[slot]? = some (some space) ∧
      space.root = s.machine.activeRoot
  · obtain ⟨slot, space, rfl, hslot, hactive⟩ := hactive
    obtain ⟨hnext, hclients⟩ := hlodged.release_active hslot hactive
    exact ⟨_, hnext, Set.sdiff_subset.trans hclients⟩
  push Not at hreserve hload hactive
  obtain ⟨roots', maps, hnext, hheld⟩ := hlodged.changed hsound hallows hreserve hload hactive
  exact ⟨roots', hnext, (Ledger.held_sdiff_subset_after _ s command).trans hheld⟩

theorem of_ok {s' : Session} {answer : Answer} (hlodged : Lodged m roots s) (hsound : m.view.Sound)
    (hstep : Session.step command s = .ok answer s') (hallows : s.Allows m command) :
    ∃ roots', Lodged m roots' s' ∧ s.clientFrames m \ command.givenBack ⊆ s'.clientFrames m := by
  have hnext := hlodged.step hsound hallows
  rwa [next_of_ok hstep] at hnext

/-- Frames that are handed out are theirs from then on. -/
theorem alloc (hlodged : Lodged m roots s) (hsound : m.view.Sound) {count base : Word}
    {s' : Session} (hrun : Session.step (.alloc count) s = .ok (.word base) s') :
    runFrames ⟨base⟩ count ⊆ s'.clientFrames m := by
  have hallows : s.Allows m (.alloc count) := trivial
  obtain ⟨_, maps, _, hheld⟩ := hlodged.changed hsound hallows (by simp) (by simp) (by simp)
  rw [Ledger.after, next, hrun] at hheld
  exact Set.subset_union_right.trans hheld

end Session.Lodged

/-! ## Two sessions -/

namespace Session

open BootMemory.Action

/-- The same spaces on two machines that differ in where the bitmap is kept. -/
structure Rehoused (s t : Session) : Prop where
  slots : t.slots = s.slots
  machine : s.machine.Rehoused t.machine

section Blind

variable {ε α : Type} {s : Session} {roots : Nat → Option Nat}

theorem blind_onMachine {restate : ε → SessionError} {x : MachineM ε α}
    (hx : Blind Machine.Rehoused x s.machine) : Blind Rehoused (onMachine restate x) s := by
  rintro t ⟨hslots, hmachine⟩
  have halike := hx t.machine hmachine
  rw [onMachine, onMachine]
  generalize x s.machine = result at halike
  generalize x t.machine = other at halike
  cases halike with
  | ok hnext => exact .ok ⟨hslots, hnext⟩
  | error hnext => exact .error ⟨hslots, hnext⟩

theorem blind_perform {x : MachineM SessionError Unit} (hx : Blind Machine.Rehoused x s.machine) :
    Blind Rehoused (perform x) s :=
  (blind_onMachine hx).bind fun _ s' _ => .pure _ s'

theorem blind_keepSpace {x : SessionM AddressSpace} (hx : Blind Rehoused x s) :
    Blind Rehoused (keepSpace x) s := by
  intro t hrehoused
  have halike := hx t hrehoused
  generalize hrun : x s = result at halike
  generalize hother : x t = other at halike
  cases halike with
  | ok hnext =>
      rw [keepSpace_ok hrun, keepSpace_ok hother, hnext.slots]
      exact .ok ⟨rfl, hnext.machine⟩
  | @error failure s' t' hnext =>
      cases failure with
      | error e =>
          rw [keepSpace_error hrun, keepSpace_error hother, hnext.slots]
          exact .error ⟨rfl, hnext.machine⟩
      | fault f =>
          rw [keepSpace_fault hrun, keepSpace_fault hother]
          exact .error hnext

theorem blind_clearSlot (slot : Nat) (s : Session) : Blind Rehoused (clearSlot slot) s := by
  rintro t ⟨hslots, hmachine⟩
  exact .ok ⟨congrArg (fun slots => slots.setIfInBounds slot none) hslots, hmachine⟩

/-- A command on a slot works in the space that both sessions have there. -/
theorem blind_onSpace {slot : Nat} {work : AddressSpace → SessionM Answer}
    (hroots : s.HasRoots roots)
    (hwork : ∀ root, roots slot = some root → Blind Rehoused (work ⟨frameBase root⟩) s) :
    Blind Rehoused (spaceAt slot >>= work) s := by
  have hspace : Blind Rehoused (spaceAt slot) s := by
    refine .of_get (fun t hrehoused => by rw [hrehoused.slots]) ?_
    split
    · exact .pure _ s
    · exact .fail _ s
  rcases hroots.cases slot with hnone | ⟨root, hroot, hlive⟩
  · refine hspace.bind fun space s' hrun => ?_
    cases hrun.symm.trans (spaceAt_error hnone)
  · exact hspace.bind_run (spaceAt_ok hlive) (hwork root hroot)

theorem blind_inSpace {restate : ε → SessionError} {slot : Nat} {x : AddressSpace → MachineM ε α}
    {f : α → SessionM Answer} (hroots : s.HasRoots roots)
    (hx : ∀ root, roots slot = some root → Blind Machine.Rehoused (x ⟨frameBase root⟩) s.machine)
    (hf : ∀ a s', Blind Rehoused (f a) s') :
    Blind Rehoused (spaceAt slot >>= fun space => onMachine restate (x space) >>= f) s :=
  blind_onSpace hroots fun root hroot =>
    (blind_onMachine (hx root hroot)).bind fun a s' _ => hf a s'

section Steps

variable {m : Machine} {command : Command}

theorem noBits_clientFrames (hlodged : Lodged m roots s) (hsound : m.view.Sound) {a : Nat}
    (ha : a / 4096 ∈ s.clientFrames m) : s.machine.layout.holdsBits a = false :=
  (hlodged.plain_clientFrames hsound ha).noBits a rfl

theorem blind_writeWord (hlodged : Lodged m roots s) (hsound : m.view.Sound) {addr : PhysAddr}
    {value : Word} (hheld : ∀ k < 8, (addr.word.toNat + k) / 4096 ∈ s.clientFrames m) :
    Blind Rehoused (perform (Machine.writeWord addr value)) s := by
  apply blind_perform
  apply Machine.blind_writeWord
  · have hbelow := (hlodged.plain_clientFrames hsound (hheld 7 (by decide))).below
    omega
  · exact fun k hk => noBits_clientFrames hlodged hsound (hheld k hk)

theorem blind_release (hlodged : Lodged m roots s) (slot : Nat) :
    Blind Rehoused (step (.release slot)) s := by
  obtain ⟨maps, howned⟩ := hlodged.owned
  refine blind_onSpace hlodged.slots fun root hroot => ?_
  refine (blind_clearSlot slot s).bind_run (Action.modify_apply _ s) (blind_perform ?_)
  exact Machine.blind_releaseSpace howned.sound (howned.tree slot root hroot)
    (howned.small slot root hroot)

theorem blind_step (hlodged : Lodged m roots s) (hsound : m.view.Sound)
    (hallows : s.Allows m command) : Blind Rehoused (step command) s := by
  obtain ⟨maps, howned⟩ := hlodged.owned
  have hsound' := howned.sound
  have htree := howned.tree
  have hroots := hlodged.slots
  have hbeside := fun {a : Nat} => noBits_clientFrames (a := a) hlodged hsound
  cases command with
  | alloc count =>
      exact (blind_onMachine (Machine.blind_alloc count _)).bind fun _ s' _ => .pure _ s'
  | free addr count => exact blind_perform (Machine.blind_free addr count _)
  | reserve addr count => exact blind_perform (Machine.blind_reserve addr count _)
  | isTaken addr =>
      refine .of_get (fun t hrehoused => ?_) (.of_lift fun _ _ => .pure _ s)
      rw [hrehoused.machine.isTaken_eq]
  | trackedFrames =>
      refine .of_get (fun t hrehoused => ?_) (.pure _ s)
      rw [hrehoused.machine.frameCount_eq]
  | newSpace => exact blind_keepSpace (blind_onMachine (Machine.blind_newSpace hsound'))
  | setActiveRoot root => exact blind_perform (Machine.blind_setActiveRoot root _)
  | walkTo slot virt level allocate =>
      exact blind_inSpace hroots (fun root hroot => Machine.blind_walkTo hsound'
        (htree slot root hroot) virt level allocate) fun _ s' => .pure _ s'
  | mapPage slot virt phys rights size =>
      exact blind_inSpace hroots (fun root hroot => Machine.blind_mapPage hsound'
        (htree slot root hroot) virt phys rights size) fun _ s' => .pure _ s'
  | mapRange slot request rights =>
      exact blind_inSpace hroots (fun root hroot => Machine.blind_mapRange hsound'
        (htree slot root hroot) request rights) fun _ s' => .pure _ s'
  | unmapPage slot virt =>
      refine blind_inSpace hroots (fun root hroot => Machine.blind_unmapPage hsound'
        (htree slot root hroot) virt) fun found s' => ?_
      cases found <;> exact .pure _ s'
  | translate slot virt =>
      refine blind_inSpace hroots (fun root hroot => Machine.blind_translate hsound'
        (htree slot root hroot) virt) fun found s' => ?_
      cases found <;> exact .pure _ s'
  | release slot => exact blind_release hlodged slot
  | load slot image =>
      exact blind_inSpace hroots (fun root hroot => Machine.blind_load hsound'
        (htree slot root hroot) Elf.parse image) fun _ s' => .pure _ s'
  | write addr data =>
      exact blind_perform (Machine.blind_copyIn fun k hk => hbeside (hallows k hk))
  | zero addr count =>
      exact blind_perform (Machine.blind_zeroPages fun k hk => hbeside (hallows k hk))
  | writeWord addr value => exact blind_writeWord hlodged hsound hallows
  | _ => exact hallows.elim

end Steps

end Blind

/-- Two sessions to which the same commands were given, each of them allowed. -/
inductive SideBySide (m n : Machine) : Session → Session → Prop
  | start : SideBySide m n (Session.start m) (Session.start n)
  | step {s t : Session} (hruns : SideBySide m n s t) (command : Command)
      (hallows : s.Allows m command) : SideBySide m n (s.next command) (t.next command)

theorem Rehoused.next {s t : Session} {command : Command}
    (halike : Alike (fun _ => Rehoused) Rehoused (step command s) (step command t)) :
    (s.next command).Rehoused (t.next command) := by
  rw [Session.next, Session.next]
  generalize step command s = result at halike
  generalize step command t = other at halike
  cases halike <;> assumption

theorem SideBySide.invariant {m n : Machine} {s t : Session} (hruns : SideBySide m n s t)
    (hsound : m.view.Sound) (hrehoused : m.Rehoused n) :
    (∃ roots, Lodged m roots s) ∧ s.Rehoused t := by
  induction hruns with
  | start => exact ⟨⟨_, .start hsound⟩, rfl, hrehoused⟩
  | step _ command hallows ih =>
      obtain ⟨⟨roots, hlodged⟩, hsame⟩ := ih
      obtain ⟨roots', hnext, _⟩ := hlodged.step hsound hallows
      exact ⟨⟨roots', hnext⟩, Rehoused.next (blind_step hlodged hsound hallows _ hsame)⟩

/-- A run of commands on a session, each of them allowed and answered. -/
inductive Answered (m : Machine) : List Command → List Answer → Session → Session → Prop
  | nil (s : Session) : Answered m [] [] s s
  | cons {s s' s'' : Session} {command : Command} {commands : List Command} {answer : Answer}
      {answers : List Answer} (hallows : s.Allows m command)
      (hstep : Session.step command s = .ok answer s')
      (hrest : Answered m commands answers s' s'') :
      Answered m (command :: commands) (answer :: answers) s s''

section Answered

variable {m n : Machine} {s s' t : Session} {commands : List Command} {answers : List Answer}

theorem Answered.mapM_eq (hrun : Answered m commands answers s s') :
    commands.mapM Session.step s = .ok answers s' := by
  induction hrun with
  | nil s => rfl
  | cons _ hstep _ ih => exact mapM_cons_ok hstep ih

/-- Where each allowed command ends alike on both sides, so does a run of them. -/
theorem SideBySide.answered {related : Answer → Session → Session → Prop}
    {failed : Session → Session → Prop}
    (halike : ∀ s t, SideBySide m n s t → ∀ command, s.Allows m command →
      Alike related failed (Session.step command s) (Session.step command t))
    (hruns : SideBySide m n s t) (hrun : Answered m commands answers s s') :
    ∃ t', commands.mapM Session.step t = .ok answers t' ∧ SideBySide m n s' t' := by
  induction hrun generalizing t with
  | nil s => exact ⟨t, rfl, hruns⟩
  | @cons s s' s'' command commands answer answers hallows hstep _ ih =>
      have hanswer := halike s t hruns command hallows
      rw [hstep] at hanswer
      obtain ⟨t₁, hother, _⟩ := hanswer.exists_ok
      have hnext := hruns.step command hallows
      rw [next_of_ok hstep, next_of_ok hother] at hnext
      obtain ⟨t', hrest, hend⟩ := ih hnext
      exact ⟨t', mapM_cons_ok hother hrest, hend⟩

end Answered

/-- What is seen of two sessions is the same.  One keeps the bitmap in memory, from `location` on,
and the other keeps the same `size` bytes in storage of its own; beside the `pages` pages that hold
the bitmap, memory is the same. -/
structure SeenAlike (location : PhysAddr) (size pages : Word) (s t : Session) : Prop where
  slots : t.slots = s.slots
  freeCount : t.machine.freeCount = s.machine.freeCount
  invalidated : t.machine.invalidated = s.machine.invalidated
  bits : ∃ storage, t.machine.home = .separate storage ∧ ∀ i < size.toNat,
    Bytes.byteAt storage i = s.machine.memory.byteAt (location.word.toNat + i)
  memory : ∀ a, a / 4096 ∉ Set.Ico location.page (location.page + pages.toNat) →
    t.machine.memory.byteAt a = s.machine.memory.byteAt a

theorem Rehoused.seenAlike {memory : Memory} {levels : PagingDepth} {map : MemoryMap} {m : Machine}
    (hosting : m.Hosting memory levels map) {s t : Session} (hrehoused : s.Rehoused t)
    (hlayout : s.machine.layout = m.layout) :
    SeenAlike hosting.location hosting.size hosting.pages s t where
  slots := hrehoused.slots
  freeCount := hrehoused.machine.freeCount_eq
  invalidated := hrehoused.machine.invalidated_eq
  bits := by
    obtain ⟨origin, storage, hm, hn⟩ := hrehoused.machine.exists_homes
    have hsize : (s.machine.frameCount + 7) / 8 = hosting.size.toNat := by
      rw [← hosting.size_eq, show s.machine.frameCount = m.frameCount from
        congrArg Layout.frameCount hlayout]
    have hstart : s.machine.memory.base.word.toNat + origin = hosting.location.word.toNat := by
      rw [← hosting.base_add_origin, ← hlayout, Machine.layout, Machine.bitmap, hm]
    refine ⟨storage, hn, fun i hi => ?_⟩
    have hbyte := hrehoused.machine.bits.byte i (hsize ▸ hi)
    simp only [Machine.bitmap, hm, hn, Nat.zero_add] at hbyte
    rw [hbyte, ← hstart, Memory.byteAt,
      if_pos ((Nat.le_add_right _ origin).trans (Nat.le_add_right _ i)), Nat.add_assoc]
    exact congrArg (Bytes.byteAt _) (Nat.add_sub_cancel_left ..).symm
  memory := by
    intro a ha
    rw [← hosting.bitmapFrames_eq, ← hlayout] at ha
    exact hrehoused.machine.bytes a ha

end Session

/-- A machine that keeps its own bitmap, in memory that covers the usable regions, does what a
machine does that was built over storage of its own and then set the frames of the bitmap aside.
However often clients allocate and give back, set aside, make spaces, work in them, load images and
write in frames that are theirs: every command ends with the same answer or the same failure, as
many frames are free, the same cached lookups were dropped, the bytes of the bitmap are those of the
storage, and all other memory is the same. -/
theorem selfHosted_behaves_as_overStorage {memory : Memory} {levels : PagingDepth} {map : MemoryMap}
    {m : Machine} {log log' : Array LogEvent}
    (hrun : Machine.selfHosted memory levels map log = .ok m log') (hcovers : memory.Covers map)
    (hbelow : memory.base.word.toNat + memory.size ≤ 2 ^ 52) :
    ∃ survey size location pages, MemorySurvey.ofMap map = .ok survey ∧
      survey.bitmapBytes = .ok size ∧ survey.bitmapPlace map = .ok location ∧
      Word.pageCount size = .ok pages ∧
      ∀ (storage : ByteArray) (log₀ : Array LogEvent), size.toNat ≤ storage.size →
        ∃ n₀ log₁ n, Machine.overStorage memory levels map storage log₀ = .ok n₀ log₁ ∧
          Session.step (.reserve location pages) (Session.start n₀) = .ok .done (Session.start n) ∧
          ∀ s t, Session.SideBySide m n s t →
            Session.SeenAlike location size pages s t ∧
            ∀ command, s.Allows m command →
              Action.Alike (fun _ => Session.SeenAlike location size pages)
                (Session.SeenAlike location size pages) (Session.step command s)
                (Session.step command t) := by
  obtain ⟨hosting⟩ := Machine.selfHosted_parts hrun
  have hsound := ((Machine.Booted.selfHosted hrun).wellFormed (hosting.spans hcovers hbelow)).sound
  refine ⟨hosting.survey, hosting.size, hosting.location, hosting.pages, hosting.surveyed,
    hosting.sized, hosting.placed, hosting.counted, ?_⟩
  intro storage log₀ hroom
  obtain ⟨n₀, log₁, n, hbuild, hreserve, hrehoused⟩ :=
    hosting.exists_rehoused (ε := SessionError) hroom log₀
  refine ⟨n₀, log₁, n, hbuild, Action.bind_ok (Session.onMachine_ok hreserve), ?_⟩
  intro s t hruns
  obtain ⟨⟨roots, hlodged⟩, hsame⟩ := hruns.invariant hsound hrehoused
  refine ⟨hsame.seenAlike hosting hlodged.layout, ?_⟩
  intro command hallows
  obtain ⟨roots', hnext, _⟩ := hlodged.step hsound hallows
  have hlayout := hnext.layout
  rw [Session.next] at hlayout
  refine (Session.blind_step hlodged hsound hallows t hsame).mono ?_ ?_
  · intro answer s' t' hstep hsame'
    rw [hstep] at hlayout
    exact hsame'.seenAlike hosting hlayout
  · intro failure s' t' hstep hsame'
    rw [hstep] at hlayout
    exact hsame'.seenAlike hosting hlayout

/-- A client makes a space, gets a frame, maps it and writes a word into it. -/
theorem exists_answered_of_free {m : Machine} (hbooted : m.Booted) (hspans : m.Spans)
    (hfour : m.levels = .four) (hfree : Set.Ico 1 16 ⊆ m.allocator.freeFrames) :
    ∃ root base s,
      Session.Answered m [.newSpace, .alloc 1, .mapPage 0 ⟨0x400000⟩ ⟨base⟩ .write .size4KiB,
        .writeWord ⟨base⟩ 0x1234] [.space 0 root, .word base, .done, .done] (Session.start m) s ∧
      runFrames ⟨base⟩ 1 ⊆ s.clientFrames m ∧ s.machine.memory.byteAt base.toNat = 0x34 := by
  have hsound := (hbooted.wellFormed hspans).sound
  obtain ⟨root, m₁, hrun₁, hreached₁, hlevels₁, hleft₁⟩ :=
    (Ledger.Reached.start hbooted hspans).newSpace (n := 14) (View.Supplied.of_Ico 1 16 hfree)
  obtain ⟨f, m₂, hrun₂, hreached₂, hlevels₂, hleft₂⟩ := hreached₁.alloc (n := 13) hleft₁
  have hfour₂ : m₂.levels = .four := hlevels₂.trans (hlevels₁.trans hfour)
  obtain ⟨m₃, hrun₃, hreached₃, _, _⟩ := hreached₂.mapPage (n := 10) 0 rfl ⟨0x400000⟩
    (frameBase f) .write (by rw [hfour₂]; exact hleft₂)
  have haligned := aligned_frameBase f
  have hframe : (frameBase f).page ∈ runFrames (frameBase f) 1 := page_mem_runFrames (by decide)
  obtain ⟨m₄, hrun₄, hview⟩ := hreached₃.writeWord (.inr hframe) haligned 0x1234
  -- the frame belongs to the client from the second command on
  obtain ⟨_, hlodged₁, _⟩ := (Session.Lodged.start hsound).of_ok hsound hrun₁ trivial
  have hclients₂ := hlodged₁.alloc hsound hrun₂
  obtain ⟨_, hlodged₂, _⟩ := hlodged₁.of_ok hsound hrun₂ trivial
  obtain ⟨_, hlodged₃, hkept₃⟩ := hlodged₂.of_ok hsound hrun₃ trivial
  have hclients₃ := hclients₂.trans (Set.sdiff_empty.symm.subset.trans hkept₃)
  have hallows₃ := Session.allows_writeWord haligned (hclients₃ hframe) 0x1234
  obtain ⟨_, hlodged₄, hkept₄⟩ := hlodged₃.of_ok hsound hrun₄ hallows₃
  have hclients₄ := hclients₃.trans (Set.sdiff_empty.symm.subset.trans hkept₄)
  have hbits : m₄.layout.holdsBits (frameBase f).word.toNat = false :=
    Session.noBits_clientFrames hlodged₄ hsound (hclients₄ hframe)
  refine ⟨root, (frameBase f).word, _, ?_, hclients₄, ?_⟩
  · exact .cons trivial hrun₁ (.cons trivial hrun₂ (.cons trivial hrun₃
      (.cons hallows₃ hrun₄ (.nil _))))
  · rw [← Machine.byte_view_of_noBits hbits, hview]
    exact View.byte_write_of_inside (k := 0) (by decide)

/-- On two machines with 16 frames a client gets the same answers, and finds its word in both. -/
theorem selfHosted_behaves_as_overStorage_sixteenFrames :
    ∃ m log n₀ log₁ n root base s t,
      let memory : Memory := ⟨⟨0⟩, ⟨Array.replicate 0x10000 0xFF⟩⟩
      let commands := [.newSpace, .alloc 1, .mapPage 0 ⟨0x400000⟩ ⟨base⟩ .write .size4KiB,
        .writeWord ⟨base⟩ 0x1234]
      let answers := [.space 0 root, .word base, .done, .done]
      Machine.selfHosted memory .four sixteenFrames #[] = .ok m log ∧
      Machine.overStorage memory .four sixteenFrames ⟨#[0, 0]⟩ #[] = .ok n₀ log₁ ∧
      Session.step (.reserve ⟨0⟩ 1) (Session.start n₀) = .ok .done (Session.start n) ∧
      commands.mapM Session.step (Session.start m) = .ok answers s ∧
      commands.mapM Session.step (Session.start n) = .ok answers t ∧
      runFrames ⟨base⟩ 1 ⊆ s.clientFrames m ∧ Session.SeenAlike ⟨0⟩ 2 1 s t ∧
      s.machine.memory.byteAt base.toNat = 0x34 ∧ t.machine.memory.byteAt base.toNat = 0x34 := by
  have hsize : (⟨⟨0⟩, ⟨Array.replicate 0x10000 0xFF⟩⟩ : Memory).size = 0x10000 :=
    Array.size_replicate
  have hbase : (⟨⟨0⟩, ⟨Array.replicate 0x10000 0xFF⟩⟩ : Memory).base = ⟨0⟩ := rfl
  generalize (⟨⟨0⟩, ⟨Array.replicate 0x10000 0xFF⟩⟩ : Memory) = memory at hsize hbase
  obtain ⟨m, log, hrun, hfour, hfree⟩ := exists_selfHosted_sixteenFrames hbase hsize
  have hcovers := covers_sixteenFrames hbase hsize
  have hbelow : memory.base.word.toNat + memory.size ≤ 2 ^ 52 := by
    rw [hbase, hsize]
    decide
  have hbooted := Machine.Booted.selfHosted hrun
  have hspans : m.Spans := by
    obtain ⟨hosting⟩ := Machine.selfHosted_parts hrun
    exact hosting.spans hcovers hbelow
  obtain ⟨survey, size, location, pages, hsurvey, hsized, hplace, hpages, hall⟩ :=
    selfHosted_behaves_as_overStorage hrun hcovers hbelow
  obtain rfl : ⟨0x10000, ⟨0⟩, ⟨0x10000⟩⟩ = survey := Except.ok.inj hsurvey
  obtain rfl : 2 = size := Except.ok.inj hsized
  obtain rfl : ⟨0⟩ = location := Except.ok.inj hplace
  obtain rfl : 1 = pages := Except.ok.inj hpages
  obtain ⟨n₀, log₁, n, hbuild, hreserve, hsame⟩ := hall ⟨#[0, 0]⟩ #[] (by decide)
  obtain ⟨root, base, s, hanswered, hclients, hbyte⟩ :=
    exists_answered_of_free hbooted hspans hfour hfree
  obtain ⟨t, hother, hruns⟩ :=
    Session.SideBySide.start.answered (fun s t hruns => (hsame s t hruns).2) hanswered
  have hseen := (hsame s t hruns).1
  have hframe := hclients (page_mem_runFrames (by decide))
  -- the frame of the client is not the one that holds the bitmap
  have hbeside : base.toNat / 4096 ∉ Set.Ico 0 1 := by
    intro hbitmap
    have hzero : (⟨base⟩ : PhysAddr).page = 0 := Nat.lt_one_iff.mp hbitmap.2
    rw [hzero] at hframe
    exact hbooted.zero_not_mem hframe.1
  exact ⟨m, log, n₀, log₁, n, root, base, s, t, hrun, hbuild, hreserve, hanswered.mapM_eq, hother,
    hclients, hseen, hbyte, (hseen.memory base.toNat hbeside).trans hbyte⟩

end BootMemory
