import BootMemory.Proofs.ActiveRoot
import BootMemory.Proofs.SpaceMaps

/-!
# Whose frames are taken

As long as frames are only allocated and given back, and spaces only made, worked in and given
back, every frame whose bit is set has one owner: it was not to be handed out from the start, or a
client holds it, or it is a table of one live space, on one way down from its root.  The frames
that the machine started with as free ones are never lost and never gained, they only change hands.
-/

namespace BootMemory

/-- The frames kept track of whose bits are set. -/
def FrameAllocator.takenFrames (a : FrameAllocator) : Set Nat :=
  {f | f ∈ a.tracked ∧ a.taken (f - a.first) = true}

theorem FrameAllocator.takenFrames_eq (a : FrameAllocator) :
    a.takenFrames = a.tracked \ a.freeFrames := by
  ext f
  constructor
  · rintro ⟨htracked, htaken⟩
    refine ⟨htracked, ?_⟩
    rintro ⟨_, hclear⟩
    rw [htaken] at hclear
    contradiction
  · rintro ⟨htracked, hnot⟩
    refine ⟨htracked, ?_⟩
    by_contra hclear
    exact hnot ⟨htracked, Bool.eq_false_iff.mpr hclear⟩

namespace View

variable {v w : View} {roots : Nat → Option Nat} {held : Set Nat}

/-- The tables of the live spaces. -/
def spaceTables (v : View) (roots : Nat → Option Nat) : Set Nat :=
  {t | ∃ slot root, roots slot = some root ∧ t ∈ v.tables root}

/-- The frames that are free, or that clients or live spaces own. -/
def pool (v : View) (roots : Nat → Option Nat) (held : Set Nat) : Set Nat :=
  v.free ∪ held ∪ v.spaceTables roots

theorem spaceTables_congr
    (htables : ∀ slot root, roots slot = some root → w.tables root = v.tables root) :
    w.spaceTables roots = v.spaceTables roots := by
  ext t
  constructor
  · rintro ⟨slot, root, hroot, ht⟩
    exact ⟨slot, root, hroot, htables slot root hroot ▸ ht⟩
  · rintro ⟨slot, root, hroot, ht⟩
    exact ⟨slot, root, hroot, (htables slot root hroot).symm ▸ ht⟩

theorem spaceTables_eq_union {slot root : Nat} (hslot : roots slot = some root) :
    v.spaceTables roots = v.spaceTables (Function.update roots slot none) ∪ v.tables root := by
  ext t
  constructor
  · rintro ⟨other, root', hroot', ht⟩
    by_cases heq : other = slot
    · subst heq
      obtain rfl := Option.some.inj (hslot.symm.trans hroot')
      exact .inr ht
    · exact .inl ⟨other, root', by rwa [Function.update_of_ne heq], ht⟩
  · rintro (⟨other, root', hroot', ht⟩ | ht)
    · exact ⟨other, root', (Owned.of_forgotten hroot').2, ht⟩
    · exact ⟨slot, root, hslot, ht⟩

theorem spaceTables_newSpace {slot root : Nat} (hslot : roots slot = none) :
    v.spaceTables (Function.update roots slot (some root)) =
      v.spaceTables roots ∪ v.tables root := by
  have hback : Function.update (Function.update roots slot (some root)) slot none = roots := by
    rw [Function.update_idem, ← hslot, Function.update_eq_self]
  rw [spaceTables_eq_union (Function.update_self slot (some root) roots), hback]

theorem spaceTables_give (v : View) (frames : Set Nat) (roots : Nat → Option Nat) :
    (v.give frames).spaceTables roots = v.spaceTables roots :=
  spaceTables_congr fun _ _ _ => (SameTables.give v frames).tables_eq

theorem free_give {frames : Set Nat} (htracked : frames ⊆ v.layout.tracked) :
    (v.give frames).free = v.free ∪ frames := by
  change v.free ∪ frames ∩ v.layout.tracked = _
  rw [Set.inter_eq_left.mpr htracked]

/-! ## Frames that change hands -/

theorem pool_take {f count : Nat} (hfree : Set.Ico f (f + count) ⊆ v.free) :
    (v.take f count).pool roots (held ∪ Set.Ico f (f + count)) = v.pool roots held := by
  have htables : (v.take f count).spaceTables roots = v.spaceTables roots :=
    spaceTables_congr fun _ root _ => (SameTables.take v f count).tables_eq
  have hfrom : v.free \ Set.Ico f (f + count) ∪ Set.Ico f (f + count) = v.free :=
    Set.sdiff_union_of_subset hfree
  rw [pool, pool, htables, ← hfrom]
  change v.free \ Set.Ico f (f + count) ∪ (held ∪ Set.Ico f (f + count)) ∪ _ = _
  ac_rfl

theorem pool_give {frames : Set Nat} (hheld : frames ⊆ held)
    (htracked : frames ⊆ v.layout.tracked) :
    (v.give frames).pool roots (held \ frames) = v.pool roots held := by
  calc (v.give frames).pool roots (held \ frames)
      = v.free ∪ (frames ∪ held \ frames) ∪ v.spaceTables roots := by
        rw [pool, spaceTables_give, free_give htracked]
        ac_rfl
    _ = v.pool roots held := by
        rw [Set.union_sdiff_cancel hheld, pool]

theorem pool_newRoot {f slot : Nat} (hfree : f ∈ v.free) (hslot : roots slot = none)
    (htables : (v.newRoot f).spaceTables roots = v.spaceTables roots) :
    (v.newRoot f).pool (Function.update roots slot (some f)) held = v.pool roots held := by
  have hone : Set.Ico f (f + 1) = {f} := by
    ext g
    rw [Set.mem_Ico, Set.mem_singleton_iff]
    omega
  have hfrom : v.free \ {f} ∪ {f} = v.free :=
    Set.sdiff_union_of_subset (Set.singleton_subset_iff.mpr hfree)
  rw [pool, pool, spaceTables_newSpace hslot, tables_newRoot, htables, ← hfrom]
  change v.free \ Set.Ico f (f + 1) ∪ held ∪ (_ ∪ {f}) = _
  rw [hone]
  ac_rfl

theorem pool_grown {slot root : Nat} (hslot : roots slot = some root) (hgrown : Grown root v w)
    (htables : w.spaceTables (Function.update roots slot none) =
      v.spaceTables (Function.update roots slot none)) :
    w.pool roots held = v.pool roots held := by
  have hboth : w.free ∪ w.tables root = v.free ∪ v.tables root := by
    apply Set.Subset.antisymm
    · exact Set.union_subset (hgrown.free.trans Set.subset_union_left)
        (hgrown.fresh.trans (Set.union_comm _ _).subset)
    · exact Set.union_subset hgrown.taken (hgrown.tables.trans Set.subset_union_right)
  calc w.pool roots held
      = w.free ∪ w.tables root ∪ (held ∪ w.spaceTables (Function.update roots slot none)) := by
        rw [pool, spaceTables_eq_union hslot]
        ac_rfl
    _ = v.pool roots held := by
        rw [hboth, htables, pool, spaceTables_eq_union hslot]
        ac_rfl

theorem pool_release {slot root : Nat} (hslot : roots slot = some root)
    (htracked : v.tables root ⊆ v.layout.tracked) :
    (v.give (v.tables root)).pool (Function.update roots slot none) held = v.pool roots held := by
  rw [pool, pool, spaceTables_give, free_give htracked, spaceTables_eq_union hslot]
  ac_rfl

end View

theorem Session.activeRoot_next {s : Session} {command : Command}
    (hother : ∀ root, command ≠ .setActiveRoot root) :
    (s.next command).machine.activeRoot = s.machine.activeRoot := by
  have hkeeps := Session.keepsRoot_step hother s
  rw [Session.next]
  cases hstep : Session.step command s <;> rw [hstep] at hkeeps <;> exact hkeeps

namespace Ledger

variable {v w : View} {roots roots' : Nat → Option Nat} {g g' : Ledger}

theorem Change.layout (hchange : Change v roots g w roots' g') : w.layout = v.layout := by
  cases hchange with
  | work _ hgrown _ => exact hgrown.layout
  | _ => rfl

/-- Frames change hands, but none is lost and none comes from outside. -/
theorem Change.pool_eq (hchange : Change v roots g w roots' g')
    (howned : v.Owned roots g.held g.maps)
    (htracked : v.pool roots g.held ⊆ v.layout.tracked) :
    w.pool roots' g'.held = v.pool roots g.held := by
  cases hchange with
  | nothing => rfl
  | alloc hfree => exact View.pool_take hfree
  | free hheld =>
      exact View.pool_give hheld fun f hf => htracked (.inl (.inr (hheld hf)))
  | write hheld =>
      have htables : View.spaceTables _ roots = v.spaceTables roots :=
        View.spaceTables_congr fun _ root hroot => (howned.sameTables_write hheld hroot).tables_eq
      rw [View.pool, htables]
      rfl
  | newSpace hfree hslot =>
      exact View.pool_newRoot hfree hslot <| View.spaceTables_congr fun _ root hroot =>
        (howned.sameTables_newRoot hfree hroot).tables_eq
  | @work slot _ _ _ hslot hgrown _ =>
      exact View.pool_grown hslot hgrown <| View.spaceTables_congr fun other root' hroot' =>
        (hgrown.sameTables ((howned.forget slot).tree other root' hroot')
          (howned.forgotten_apart hslot hroot')).tables_eq
  | release hslot =>
      exact View.pool_release hslot fun t ht => htracked (.inr ⟨_, _, hslot, ht⟩)

/-- Clients set no frames aside, and the processor stays with the tables that it uses. -/
def PermitsOwned (g : Ledger) : Command → Prop
  | .reserve _ _ | .setActiveRoot _ => False
  | command => g.Permits command

/-- The sessions that commands lead to from a machine `m`, if every frame is to have an owner. -/
inductive OwnershipRun (m : Machine) : Session → Ledger → Prop
  | start : OwnershipRun m (Session.start m) empty
  | step {s : Session} {g : Ledger} (hrun : OwnershipRun m s g) (command : Command)
      (hpermits : g.PermitsOwned command) : OwnershipRun m (s.next command) (g.after s command)

/-- What a run leaves as it was: the frames that change hands are those that were free. -/
structure Settled (m : Machine) (roots : Nat → Option Nat) (s : Session) (g : Ledger) : Prop where
  slots : s.HasRoots roots
  owned : s.machine.view.Owned roots g.held g.maps
  layout : s.machine.layout = m.layout
  active : s.machine.activeRoot = ⟨0⟩
  pool : s.machine.view.pool roots g.held = m.view.free

section Run

variable {m : Machine} {s : Session} {g : Ledger}

theorem settled_start (hbooted : m.Booted) (hspans : m.Spans) :
    Settled m (fun _ => none) (Session.start m) empty where
  slots := fun _ => rfl
  owned := .start (hbooted.wellFormed hspans).sound
  layout := rfl
  active := hbooted.activeRoot
  pool := by
    have hnone : m.view.spaceTables (fun _ => none) = ∅ := by
      simp [View.spaceTables]
    rw [View.pool, Session.start, hnone, empty, Set.union_empty, Set.union_empty]

section Settled

variable {roots : Nat → Option Nat}

theorem Settled.pool_subset (hsettled : Settled m roots s g) :
    s.machine.view.pool roots g.held ⊆ s.machine.layout.tracked := by
  rw [hsettled.pool, hsettled.layout]
  exact fun f hf => hf.1

theorem Settled.tables_subset (hsettled : Settled m roots s g) {slot root : Nat}
    (hroot : roots slot = some root) : s.machine.view.tables root ⊆ m.view.free := by
  rw [← hsettled.pool]
  exact fun t ht => .inr ⟨slot, root, hroot, ht⟩

/-- A live space is not the one in use: its root was a free frame, so it is not frame 0. -/
theorem Settled.idle (hsettled : Settled m roots s g) (hbooted : m.Booted) {slot root : Nat}
    (hroot : roots slot = some root) : frameBase root ≠ s.machine.activeRoot := by
  have hmem := s.machine.view.root_mem_tables root
  have hpage := hsettled.owned.root_page hroot
  intro hactive
  rw [hactive, hsettled.active] at hpage
  apply hbooted.zero_not_mem
  have hzero : root = 0 := hpage.symm
  exact hzero ▸ hsettled.tables_subset hroot hmem

theorem Settled.step (hsettled : Settled m roots s g) (hbooted : m.Booted) {command : Command}
    (hpermits : g.PermitsOwned command) :
    ∃ roots', Settled m roots' (s.next command) (g.after s command) := by
  have hreserve : ∀ base count, command ≠ .reserve base count := by
    rintro base count rfl
    exact hpermits
  have hactive : ∀ root, command ≠ .setActiveRoot root := by
    rintro root rfl
    exact hpermits
  have hpermits : g.Permits command := by
    cases command <;> first | exact hpermits | exact hpermits.elim
  have hidle : ∀ slot space, command = .release slot → s.slots[slot]? = some (some space) →
      space.root ≠ s.machine.activeRoot := by
    intro slot space _ hslot
    obtain ⟨root, hroot, rfl⟩ := hsettled.slots.exists_root hslot
    exact hsettled.idle hbooted hroot
  obtain ⟨roots', hroots', hchange⟩ :=
    moves_of_permits hpermits hreserve hidle roots hsettled.slots hsettled.owned
  refine ⟨roots', hroots', hchange.owned hsettled.owned, ?_, ?_, ?_⟩
  · exact hchange.layout.trans hsettled.layout
  · rw [Session.activeRoot_next hactive, hsettled.active]
  · rw [hchange.pool_eq hsettled.owned hsettled.pool_subset, hsettled.pool]

end Settled

theorem OwnershipRun.settled (hbooted : m.Booted) (hspans : m.Spans) (hrun : OwnershipRun m s g) :
    ∃ roots, Settled m roots s g := by
  induction hrun with
  | start => exact ⟨_, settled_start hbooted hspans⟩
  | step _ command hpermits ih =>
      obtain ⟨roots, hsettled⟩ := ih
      exact hsettled.step hbooted hpermits

end Run

end Ledger

/-! ## Owners -/

/-- Who can own a frame whose bit is set. -/
inductive FrameOwner where
  /-- The frame was not to be handed out from the start. -/
  | boot
  | clients
  | space (slot : Nat)

/-- The frames that are reached from the root of a space through entries in use above the lowest
level. -/
def View.reached (v : View) (root : Nat) : Set Nat :=
  {f | ∃ path, path.length < v.layout.top ∧ v.follow root path = some f}

/-- The frames of an owner, in a session on a machine that was `m` at the start. -/
def Session.framesOf (m : Machine) (s : Session) (g : Ledger) : FrameOwner → Set Nat
  | .boot => m.allocator.takenFrames
  | .clients => g.held
  | .space slot =>
      {f | ∃ space, s.slots[slot]? = some (some space) ∧ f ∈ s.machine.view.reached space.root.page}

namespace View

variable {v : View} {root : Nat}

/-- Without large pages, a release comes to what is reached, and these are the tables. -/
theorem reached_eq_tables (hsmall : v.AllSmall root) : v.reached root = v.tables root := by
  ext f
  rw [← mem_releaseOrder_iff_tables hsmall, mem_releaseOrder_top]
  rfl

end View

namespace Ledger.Settled

variable {m : Machine} {s : Session} {g : Ledger} {roots : Nat → Option Nat}

theorem framesOf_space (hsettled : Settled m roots s g) {slot root : Nat}
    (hroot : roots slot = some root) :
    s.framesOf m g (.space slot) = s.machine.view.tables root := by
  have hlive := hsettled.slots.live hroot
  rw [← View.reached_eq_tables (hsettled.owned.small slot root hroot)]
  ext f
  constructor
  · rintro ⟨space, hslot, hf⟩
    obtain rfl : space = ⟨frameBase root⟩ :=
      Option.some.inj (Option.some.inj (hslot.symm.trans hlive))
    rwa [hsettled.owned.root_page hroot] at hf
  · intro hf
    refine ⟨⟨frameBase root⟩, hlive, ?_⟩
    rwa [hsettled.owned.root_page hroot]

theorem framesOf_empty (hsettled : Settled m roots s g) {slot : Nat} (hroot : roots slot = none) :
    s.framesOf m g (.space slot) = ∅ := by
  have hslot := hsettled.slots slot
  rw [hroot] at hslot
  ext f
  constructor
  · rintro ⟨space, hlive, _⟩
    rw [hlive] at hslot
    cases hslot
  · exact False.elim

theorem framesOf_space_cases (hsettled : Settled m roots s g) (slot : Nat) :
    s.framesOf m g (.space slot) = ∅ ∨
      ∃ root, roots slot = some root ∧
        s.framesOf m g (.space slot) = s.machine.view.tables root := by
  cases hroot : roots slot with
  | none => exact .inl (hsettled.framesOf_empty hroot)
  | some root => exact .inr ⟨root, rfl, hsettled.framesOf_space hroot⟩

theorem iUnion_framesOf (hsettled : Settled m roots s g) :
    ⋃ owner, s.framesOf m g owner =
      m.allocator.takenFrames ∪ (g.held ∪ s.machine.view.spaceTables roots) := by
  ext f
  rw [Set.mem_iUnion]
  constructor
  · rintro ⟨_ | _ | slot, hf⟩
    · exact .inl hf
    · exact .inr (.inl hf)
    · rcases hsettled.framesOf_space_cases slot with hnone | ⟨root, hroot, htables⟩
      · rw [hnone] at hf
        exact hf.elim
      · exact .inr (.inr ⟨slot, root, hroot, htables ▸ hf⟩)
  · rintro (hf | hf | ⟨slot, root, hroot, hf⟩)
    · exact ⟨.boot, hf⟩
    · exact ⟨.clients, hf⟩
    · exact ⟨.space slot, (hsettled.framesOf_space hroot).symm ▸ hf⟩

/-- The frames that clients and live spaces own are the free frames of the start that are no
longer free. -/
theorem owned_eq (hsettled : Settled m roots s g) :
    g.held ∪ s.machine.view.spaceTables roots = m.view.free \ s.machine.view.free := by
  have hapart : Disjoint s.machine.view.free (g.held ∪ s.machine.view.spaceTables roots) := by
    rw [Set.disjoint_right]
    rintro f (hheld | ⟨slot, root, hroot, hf⟩)
    · exact hsettled.owned.taken f hheld
    · exact (hsettled.owned.tree slot root hroot).taken f hf
  rw [← hsettled.pool, View.pool, Set.union_assoc, Set.union_sdiff_left,
    hapart.symm.sdiff_eq_left]

theorem takenFrames_eq (hsettled : Settled m roots s g) :
    s.machine.allocator.takenFrames = ⋃ owner, s.framesOf m g owner := by
  have htracked : s.machine.allocator.tracked = m.allocator.tracked :=
    congrArg Layout.tracked hsettled.layout
  have hfree : s.machine.view.free ⊆ m.view.free := by
    rw [← hsettled.pool]
    exact fun f hf => .inl (.inl hf)
  have hfrom : m.view.free ⊆ m.allocator.tracked :=
    fun f hf => hf.1
  rw [hsettled.iUnion_framesOf, hsettled.owned_eq, FrameAllocator.takenFrames_eq,
    FrameAllocator.takenFrames_eq, htracked]
  exact (Set.sdiff_union_sdiff_cancel hfrom hfree).symm

theorem pairwise_disjoint (hsettled : Settled m roots s g) :
    Pairwise (Function.onFun Disjoint (s.framesOf m g)) := by
  -- what is owned was free at the start, so it is not taken from the start
  have hboot : ∀ owned ⊆ m.view.free, Disjoint m.allocator.takenFrames owned := by
    intro owned howned
    rw [FrameAllocator.takenFrames_eq]
    exact Set.disjoint_sdiff_left.mono_right howned
  have hclients : Disjoint m.allocator.takenFrames g.held := by
    apply hboot
    rw [← hsettled.pool]
    exact fun f hf => .inl (.inr hf)
  have hspace : ∀ slot, Disjoint m.allocator.takenFrames (s.framesOf m g (.space slot)) ∧
      Disjoint g.held (s.framesOf m g (.space slot)) := by
    intro slot
    rcases hsettled.framesOf_space_cases slot with hnone | ⟨root, hroot, htables⟩
    · rw [hnone]
      exact ⟨Set.disjoint_empty _, Set.disjoint_empty _⟩
    · rw [htables]
      exact ⟨hboot _ (hsettled.tables_subset hroot), Set.disjoint_left.mpr fun f hf =>
        hsettled.owned.client f hf slot root hroot⟩
  have hspaces : ∀ slot other, slot ≠ other →
      Disjoint (s.framesOf m g (.space slot)) (s.framesOf m g (.space other)) := by
    intro slot other hne
    rcases hsettled.framesOf_space_cases slot with hnone | ⟨root, hroot, htables⟩
    · rw [hnone]
      exact Set.empty_disjoint _
    · rcases hsettled.framesOf_space_cases other with hnone | ⟨root', hroot', htables'⟩
      · rw [hnone]
        exact Set.disjoint_empty _
      · rw [htables, htables']
        exact hsettled.owned.apart slot other root root' hroot hroot' hne
  rintro (_ | _ | slot) (_ | _ | other) hne
  · contradiction
  · exact hclients
  · exact (hspace other).1
  · exact hclients.symm
  · contradiction
  · exact (hspace other).2
  · exact (hspace slot).1.symm
  · exact (hspace slot).2.symm
  · exact hspaces slot other fun heq => hne (congrArg FrameOwner.space heq)

/-- A live space is given back table by table, each of them once. -/
theorem step_release (hsettled : Settled m roots s g) (hbooted : m.Booted) {slot root : Nat}
    (hroot : roots slot = some root) :
    ∃ (m' : Machine) (order : List Nat),
      Session.step (.release slot) s = .ok .done ⟨m', s.slots.setIfInBounds slot none⟩ ∧
      m'.log = s.machine.log ++ order.map LogEvent.freedFrame ∧ order.Nodup ∧
      (∀ f, f ∈ order ↔ f ∈ s.framesOf m g (.space slot)) ∧
      m'.view = s.machine.view.give (s.framesOf m g (.space slot)) := by
  have htree := hsettled.owned.tree slot root hroot
  have hsmall := hsettled.owned.small slot root hroot
  have hlive := hsettled.slots.live hroot
  obtain ⟨m', hrun, hview, hlog⟩ := Machine.releaseSpace_run (ε := SessionError)
    hsettled.owned.sound htree hsmall (hsettled.idle hbooted hroot)
  refine ⟨m', _, ?_, hlog, ?_, ?_, ?_⟩
  · exact (Action.bind_ok (Session.spaceAt_ok hlive)).trans
      ((Action.bind_ok (Action.modify_apply _ s)).trans
        (Action.bind_ok (Session.onMachine_ok hrun)))
  · exact View.nodup_releaseOrder_top.mpr (View.Tree.followedOnce hsmall htree)
  · intro f
    rw [hsettled.framesOf_space hroot]
    exact View.mem_releaseOrder_iff_tables hsmall
  · rw [hsettled.framesOf_space hroot]
    exact hview

end Ledger.Settled

theorem FrameAllocator.takenFrames_of_give {m m' : Machine} {frames : Set Nat}
    (hview : m'.view = m.view.give frames) :
    m'.allocator.takenFrames = m.allocator.takenFrames \ frames := by
  have htracked : m'.allocator.tracked = m.allocator.tracked :=
    congrArg (fun v : View => v.layout.tracked) hview
  have hfree : m'.allocator.freeFrames =
      m.allocator.freeFrames ∪ frames ∩ m.allocator.tracked :=
    congrArg View.free hview
  have hinside : (m.allocator.tracked \ m.allocator.freeFrames) \ m.allocator.tracked = ∅ :=
    Set.sdiff_eq_empty.mpr Set.sdiff_subset
  rw [takenFrames_eq, takenFrames_eq, htracked, hfree, ← Set.sdiff_sdiff, Set.sdiff_inter, hinside,
    Set.union_empty]

theorem Ledger.Settled.taken_eq {m : Machine} {roots : Nat → Option Nat} {s : Session} {g : Ledger}
    (hsettled : Settled m roots s g) (hempty : ∀ slot, roots slot = none) (hheld : g.held = ∅)
    {bit : Nat} (hbit : bit < m.frameCount) :
    s.machine.allocator.taken bit = m.allocator.taken bit := by
  have hspaces : s.machine.view.spaceTables roots = ∅ := by
    simp [View.spaceTables, hempty]
  have hfree : s.machine.allocator.freeFrames = m.allocator.freeFrames := by
    have hpool := hsettled.pool
    rwa [View.pool, hheld, hspaces, Set.union_empty, Set.union_empty] at hpool
  have hcount : s.machine.frameCount = m.frameCount :=
    congrArg Layout.frameCount hsettled.layout
  have hfirst : s.machine.allocator.first = m.allocator.first :=
    congrArg Layout.firstFrame hsettled.layout
  have hsame : s.machine.allocator.taken bit = false ↔ m.allocator.taken bit = false := by
    rw [← FrameAllocator.add_mem_freeFrames (show bit < s.machine.frameCount by rwa [hcount]),
      ← FrameAllocator.add_mem_freeFrames (show bit < m.frameCount from hbit), hfree, hfirst]
  rw [← Bool.not_inj_iff, Bool.eq_iff_iff]
  simpa using hsame

/-- After every command, failed ones included, each frame whose bit is set has one owner, and a
table is reached in one way.  So giving a live space back frees its tables, each of them once, and
leaves all other frames and the contents of memory alone.  Once all spaces and all frames are given
back, every bit is as it was at the start. -/
theorem taken_frames_have_one_owner {m : Machine} (hbooted : m.Booted) (hspans : m.Spans)
    {s : Session} {g : Ledger} (hrun : Ledger.OwnershipRun m s g) :
    s.machine.allocator.takenFrames = ⋃ owner, s.framesOf m g owner ∧
      Pairwise (Function.onFun Disjoint (s.framesOf m g)) ∧
      (∀ (slot : Nat) (space : AddressSpace), s.slots[slot]? = some (some space) →
        s.machine.view.FollowedOnce s.machine.levels.top space.root.page ∧
        ∃ (m' : Machine) (order : List Nat),
          Session.step (.release slot) s = .ok .done ⟨m', s.slots.setIfInBounds slot none⟩ ∧
          m'.log = s.machine.log ++ order.map LogEvent.freedFrame ∧ order.Nodup ∧
          (∀ f, f ∈ order ↔ f ∈ s.framesOf m g (.space slot)) ∧
          m'.allocator.takenFrames =
            s.machine.allocator.takenFrames \ s.framesOf m g (.space slot) ∧
          m'.view.byte = s.machine.view.byte) ∧
      ((∀ slot : Nat, (s.slots[slot]?).join = none) → g.held = ∅ →
        s.machine.frameCount = m.frameCount ∧
          ∀ bit < m.frameCount, s.machine.allocator.taken bit = m.allocator.taken bit) := by
  obtain ⟨roots, hsettled⟩ := hrun.settled hbooted hspans
  refine ⟨hsettled.takenFrames_eq, hsettled.pairwise_disjoint, ?_, ?_⟩
  · intro slot space hslot
    obtain ⟨root, hroot, rfl⟩ := hsettled.slots.exists_root hslot
    constructor
    · rw [hsettled.owned.root_page hroot]
      exact View.Tree.followedOnce (hsettled.owned.small slot root hroot)
        (hsettled.owned.tree slot root hroot)
    · obtain ⟨m', order, hstep, hlog, hnodup, horder, hview⟩ :=
        hsettled.step_release hbooted hroot
      refine ⟨m', order, hstep, hlog, hnodup, horder, ?_, ?_⟩
      · exact FrameAllocator.takenFrames_of_give hview
      · rw [hview]
        rfl
  · intro hslots hheld
    have hempty : ∀ slot, roots slot = none := by
      intro slot
      have hslot := hsettled.slots slot
      rw [hslots slot] at hslot
      exact Option.map_eq_none_iff.mp hslot.symm
    exact ⟨congrArg Layout.frameCount hsettled.layout,
      fun bit hbit => hsettled.taken_eq hempty hheld hbit⟩

/-- A space that is made and given back again takes a frame in between. -/
theorem taken_frames_have_one_owner_newSpace :
    ∃ log root, let m := sixteenFrameMachine ⟨⟨0⟩, ⟨Array.replicate 0x10000 0xFF⟩⟩ log
      let s := (Session.start m).next .newSpace
      s.slots[0]? = some (some ⟨root⟩) ∧ root.page ∈ s.machine.allocator.takenFrames ∧
        root.page ∉ m.allocator.takenFrames ∧
        ∀ bit < 16, (s.next (.release 0)).machine.allocator.taken bit = m.allocator.taken bit := by
  obtain ⟨log, root, m₁, hbooted, hspans, hstep, _⟩ := exists_newSpace_sixteenFrameMachine
  refine ⟨log, root, ?_⟩
  have hcount : (sixteenFrameMachine ⟨⟨0⟩, ⟨Array.replicate 0x10000 0xFF⟩⟩ log).frameCount = 16 :=
    rfl
  generalize sixteenFrameMachine _ log = m at hbooted hspans hstep hcount
  have hnext : (Session.start m).next .newSpace = ⟨m₁, #[some ⟨root⟩]⟩ := by
    rw [Session.next, hstep]
    rfl
  have hmade : Ledger.OwnershipRun m _ _ := .step .start .newSpace trivial
  dsimp only
  rw [hnext] at hmade ⊢
  obtain ⟨htaken, hapart, hrelease, _⟩ := taken_frames_have_one_owner hbooted hspans hmade
  obtain ⟨_, m₂, order, hgone, _⟩ := hrelease 0 ⟨root⟩ rfl
  have hmem : root.page ∈
      Session.framesOf m ⟨m₁, #[some ⟨root⟩]⟩
        (Ledger.empty.after (Session.start m) .newSpace) (.space 0) := by
    refine ⟨⟨root⟩, rfl, [], ?_, rfl⟩
    rcases m₁.view.layout.top_eq with htop | htop <;> rw [htop] <;> decide
  have hgiven := Ledger.OwnershipRun.step hmade (.release 0) trivial
  have hback : Session.next ⟨m₁, #[some ⟨root⟩]⟩ (.release 0) = ⟨m₂, #[none]⟩ := by
    rw [Session.next, hgone]
    rfl
  rw [hback] at hgiven ⊢
  obtain ⟨_, _, _, hbits⟩ := taken_frames_have_one_owner hbooted hspans hgiven
  refine ⟨rfl, ?_, ?_, ?_⟩
  · rw [htaken]
    exact Set.mem_iUnion.mpr ⟨.space 0, hmem⟩
  · intro hboot
    have hother : FrameOwner.boot ≠ .space 0 := by
      rintro ⟨⟩
    exact Set.disjoint_left.mp (hapart hother) hboot hmem
  · have hslots : ∀ slot : Nat, ((#[none] : Array (Option AddressSpace))[slot]?).join = none := by
      intro slot
      cases slot <;> rfl
    have hheld : ((Ledger.empty.after (Session.start m) .newSpace).after
        ⟨m₁, #[some ⟨root⟩]⟩ (.release 0)).held = ∅ := by
      rw [Ledger.after, hgone, Ledger.after, hstep]
      rfl
    rw [← hcount]
    exact (hbits hslots hheld).2

end BootMemory
