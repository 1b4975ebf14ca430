import BootMemory.Proofs.MapEnds
import BootMemory.Proofs.StaleFrames

/-!
# Mappings that fail

A mapping that fails moves no page of any space.  If the page size is not supported or a large page
is in the way, the machine is as it was before.  If no frame is left, the frames that were taken
have become empty tables at the end of the path of the page.  They are not lost: once there is a
frame for each table that is still missing, the same mapping succeeds, and it takes no others.
-/

namespace BootMemory

/-- The tables that a failed mapping leaves in a space.  They are empty, but for the entry of each
that leads to the next, and one entry of an older table leads to the first of them. -/
structure View.TablesLeft (root : Nat) (route : Route) (nodes : List Nat) (v w : View) : Prop
    extends PathGrown root route nodes v w where
  empty : ∀ t ∈ nodes, ∀ i,
    w.entry t i = ⟨0⟩ ∨ ∃ node ∈ nodes, w.entry t i = TableEntry.make (frameBase node) .node
  old : ∀ t ∈ v.tables root, ∀ i, w.entry t i = v.entry t i ∨
    (v.entry t i).isPresent = false ∧
      ∃ node ∈ nodes, w.entry t i = TableEntry.make (frameBase node) .node
  outside : ∀ a, a / 4096 ∉ w.tables root → w.byte a = v.byte a

theorem View.Linked.tablesLeft {root : Nat} {route : Route} {nodes : List Nat} {v w : View}
    (hlinked : Linked root route v nodes w) (htree : v.Tree root) (hsound : v.Sound) :
    TablesLeft root route nodes v w where
  toPathGrown := hlinked.pathGrown htree hsound
  empty := fun _ ht => hlinked.entry_of_new htree hsound ht
  old := fun _ ht => hlinked.entry_of_old htree hsound ht
  outside := (hlinked.extended.grown htree hsound).bytes

namespace Machine

/-- A machine on which the tables of a space are what they were on another. -/
structure Untouched (root : Nat) (m n : Machine) : Prop where
  sound : n.view.Sound
  same : View.SameTables m.view n.view root
  taken : ∀ t ∈ m.view.tables root, t ∉ n.view.free

/-- Mapping a page succeeds exactly if `missing` frames are free.  It takes these for tables on the
path of the page, and then the page leads to its frame. -/
def MapsFor (missing root : Nat) (virt : VirtAddr) (phys : PhysAddr) (rights : AccessRights)
    (n : Machine) : Prop :=
  ((∃ n', mapPage ⟨frameBase root⟩ virt phys rights .size4KiB n = .ok ⟨⟩ n') ↔
      missing ≤ n.freeCount) ∧
    ∀ n', mapPage ⟨frameBase root⟩ virt phys rights .size4KiB n = .ok ⟨⟩ n' →
      (∃ rest, rest.length = missing ∧
        View.PathGrown root virt.pageFloor.route rest n.view n'.view) ∧
      ∀ ε : Type, translate ⟨frameBase root⟩ virt n' =
        (.ok (some (⟨(phys.word &&& frameMask) + virt.pageOffset⟩, .ofRights rights)) n' :
          EStateM.Result (Failure ε) _ _)

section Retry

variable {m n : Machine} {root d t : Nat} {virt : VirtAddr}

/-- Where the path of a page ends in a gap, mapping the page is a matter of frames alone. -/
theorem mapsFor_after_gap (htree : m.view.Tree root)
    (hgap : View.Gap m.view root virt.pageFloor.route d t) (huntouched : Untouched root m n)
    (phys : PhysAddr) (rights : AccessRights) :
    MapsFor (m.view.missing root virt.pageFloor.route) root virt phys rights n := by
  have htree' : n.view.Tree root := huntouched.same.tree htree huntouched.taken
  have hmissing : n.view.missing root virt.pageFloor.route =
      m.view.missing root virt.pageFloor.route := by
    rw [View.missing, View.missing, huntouched.same.pathTables_eq, huntouched.same.layout]
  have hclear : ∀ d t, ¬View.Blocked n.view root virt.pageFloor.route d t :=
    fun _ _ => (huntouched.same.gap hgap).not_blocked
  rw [← hmissing]
  rcases mapPage_cost huntouched.sound htree' hclear phys rights with
    ⟨rest, n', hlength, hrun, hcount, hpath, _, hset⟩ | ⟨e, n', hfew, hrun⟩
  · constructor
    · exact iff_of_true ⟨n', hrun⟩ (by omega)
    · intro other hother
      cases hrun.symm.trans hother
      exact ⟨⟨rest, hlength.symm, hpath⟩,
        fun ε => translate_of_pageSet huntouched.sound hset rfl⟩
  · constructor
    · constructor
      · rintro ⟨other, hother⟩
        cases hrun.symm.trans hother
      · intro henough
        omega
    · intro other hother
      cases hrun.symm.trans hother

end Retry

/-- A mapping that fails moves no page.  Only the want of a frame leaves anything behind: tables on
the path of the page, which the same mapping makes use of when it is tried again. -/
theorem failed_map_moves_no_page {m m' : Machine} {roots : Set Nat} {root : Nat}
    (hhoused : m.view.Housed roots) (hroot : root ∈ roots) {virt : VirtAddr} {phys : PhysAddr}
    {rights : AccessRights} {size : PageSize} {failure : Failure MapError}
    (hrun : mapPage ⟨frameBase root⟩ virt phys rights size m = .error failure m') :
    (failure = .error (.unsupportedSize size) ∧ m' = m) ∨
      (∃ level, failure = .error (.largePage level) ∧ m' = m) ∨
      ∃ e nodes, failure = .error (.noFrame e) ∧ m'.view.Housed roots ∧
        m'.invalidated = m.invalidated ∧
        (∀ other ∈ roots, ∀ addr, TranslatesAlike ⟨frameBase other⟩ addr m m') ∧
        View.TablesLeft root virt.pageFloor.route nodes m.view m'.view ∧ m'.view.free = ∅ ∧
        ∀ n, Untouched root m' n →
          MapsFor (m'.view.missing root virt.pageFloor.route) root virt phys rights n := by
  have hsound := hhoused.sound
  have htree := hhoused.tree root hroot
  rcases mapPage_ends hsound htree virt phys rights size with
    ⟨_, _, _, hdone, _⟩ | ⟨nodes, e, m₁, rfl, hfail, hlinked, hnone, d, t, hgap⟩ |
      ⟨d, t, _, hfail⟩ | ⟨_, hfail⟩
  · cases hrun.symm.trans hdone
  · cases hrun.symm.trans hfail
    have hkept := hlinked.extended.pagesKept htree hsound
    refine .inr (.inr ⟨e, nodes, rfl, hhoused.grown hroot hkept.grown, hkept.invalidated, ?_,
      hlinked.tablesLeft htree hsound, hnone,
      fun n huntouched => mapsFor_after_gap hkept.grown.tree hgap huntouched phys rights⟩)
    intro other hother addr
    exact translatesAlike_of_grown hhoused hroot hkept.grown hother
      fun _ => hkept.lookup addr.route
  · cases hrun.symm.trans hfail
    exact .inr (.inl ⟨_, rfl, rfl⟩)
  · cases hrun.symm.trans hfail
    exact .inl ⟨rfl, rfl⟩

/-! ## A mapping that runs out of frames -/

/-- The small machine with one free frame left, the four from `f` on being held by a client. -/
structure OneFrameLeft (f : Nat) (m : Machine) : Prop where
  low : 2 ≤ f
  high : f + 4 ≤ 7
  view : m.view = (tightMachine 0).view.take f 4

theorem exists_oneFrameLeft : ∃ f m, OneFrameLeft f m := by
  have hfree : (tightMachine 0).view.free = Set.Ico 2 7 := free_tightMachine 0
  rcases alloc_run (wellFormed_tightMachine 0).sound 4 with
    ⟨_, _, _, _, hnone⟩ | ⟨f, m, _, hin, _, hview⟩
  · refine absurd ?_ (hnone (by decide) 2)
    rw [hfree]
    exact Set.Ico_subset_Ico_right (by decide)
  · rw [hfree] at hin
    have hlow := (hin (Set.mem_Ico.mpr ⟨le_refl f, Nat.lt_add_of_pos_right (by decide)⟩)).1
    have hhigh := (hin (Set.mem_Ico.mpr ⟨Nat.le_add_right f 3, Nat.lt_succ_self (f + 3)⟩)).2
    exact ⟨f, m, hlow, hhigh, hview⟩

namespace OneFrameLeft

variable {f : Nat} {m : Machine} (hone : OneFrameLeft f m)

include hone

theorem layout : m.layout = (tightMachine 0).layout :=
  congrArg View.layout hone.view

theorem free : m.view.free = Set.Ico 2 7 \ Set.Ico f (f + 4) := by
  rw [hone.view]
  exact congrArg (· \ Set.Ico f (f + 4)) (free_tightMachine 0)

theorem freeCount : m.freeCount = 1 := by
  have hlow := hone.low
  have hhigh := hone.high
  have hin : Set.Ico f (f + 4) ⊆ Set.Ico 2 7 := Set.Ico_subset_Ico hlow hhigh
  have hadd := Set.ncard_sdiff_add_ncard_of_subset hin (Set.finite_Ico 2 7)
  rw [← hone.free, Set.ncard_Ico_nat, Set.ncard_Ico_nat] at hadd
  rw [freeCount_eq_ncard]
  omega

theorem housed : m.view.Housed {1} :=
  .singleton (hone.view ▸ (wellFormed_tightMachine 0).sound.take f 4)
    (hone.view ▸ (tree_tightMachine 0).take f 4)

theorem tables : m.view.tables 1 = {1} := by
  rw [hone.view, (View.SameTables.take _ f 4).tables_eq, tables_tightMachine]

theorem gap (virt : VirtAddr) : View.Gap m.view 1 virt.route 0 1 where
  above := by
    rw [view_layout, hone.layout]
    decide
  reached := rfl
  absent := by
    have hentry : ∀ i, m.view.entry 1 i = ⟨0⟩ := by
      intro i
      rw [hone.view, ← newRoot_tightMachine 0]
      exact View.entry_clear _ 1 i
    rw [hentry]
    rfl

/-- Tables that were made of the last frame stay where they are when the client gives frames
back. -/
theorem untouched_of_give {m' n : Machine} {route : Route} {nodes : List Nat}
    (hhoused : m'.view.Housed {1}) (htables : View.TablesLeft 1 route nodes m.view m'.view)
    (hnone : m'.view.free = ∅) (hview : n.view = m'.view.give (Set.Ico f (f + 2))) :
    Untouched 1 m' n where
  sound := by
    have hlow := hone.low
    have hhigh := hone.high
    rw [hview]
    refine hhoused.sound.give fun g hg _ => ?_
    rw [Set.mem_Ico] at hg
    rw [htables.layout, view_layout, hone.layout]
    apply (wellFormed_tightMachine 0).sound.plain
    rw [view_free, free_tightMachine, Set.mem_Ico]
    omega
  same := hview ▸ .give _ _
  taken := by
    have hlow := hone.low
    intro t ht hfree
    rw [hview, View.give, hnone, Set.empty_union] at hfree
    have hback := Set.mem_Ico.mp hfree.1
    rw [htables.tables, hone.tables] at ht
    rcases ht with hroot | hnode
    · rw [Set.mem_singleton_iff] at hroot
      omega
    · have hfresh := htables.fresh t hnode
      rw [hone.free] at hfresh
      exact hfresh.2 (Set.mem_Ico.mpr (by omega))

end OneFrameLeft

/-- One frame is left where three tables are missing.  It becomes a table, and the mapping goes
through when two frames were given back. -/
theorem failed_map_moves_no_page_oneFrameLeft :
    ∃ m m' n n' e nodes, m.view.Housed {1} ∧
      mapPage ⟨frameBase 1⟩ ⟨0x400000⟩ ⟨0x200000⟩ .read .size4KiB m =
        .error (.error (.noFrame e)) m' ∧
      nodes.length = 1 ∧
      View.TablesLeft 1 (⟨0x400000⟩ : VirtAddr).pageFloor.route nodes m.view m'.view ∧
      Untouched 1 m' n ∧
      mapPage ⟨frameBase 1⟩ ⟨0x400000⟩ ⟨0x200000⟩ .read .size4KiB n = .ok ⟨⟩ n' := by
  obtain ⟨f, m, hone⟩ := exists_oneFrameLeft
  have hlow := hone.low
  have hhigh := hone.high
  have hhoused := hone.housed
  have hgap := hone.gap (⟨0x400000⟩ : VirtAddr).pageFloor
  have htop : m.layout.top = 4 := congrArg Layout.top hone.layout
  have hmissing : m.view.missing 1 (⟨0x400000⟩ : VirtAddr).pageFloor.route = 3 := by
    rw [View.missing, hgap.length_pathTables, view_layout, htop]
  rcases mapPage_cost hhoused.sound (hhoused.tree 1 rfl) (fun _ _ => hgap.not_blocked)
    ⟨0x200000⟩ .read with ⟨nodes, m', hlength, _, hleft, _⟩ | ⟨e, m', _, hrun⟩
  · have hcount := hone.freeCount
    omega
  rcases failed_map_moves_no_page hhoused rfl hrun with
    ⟨hfail, _⟩ | ⟨level, hfail, _⟩ | ⟨_, nodes, _, hhoused', _, _, htables, hnone, hretry⟩
  · cases hfail
  · cases hfail
  have hlength : nodes.length = 1 := by
    have hadd := htables.ncard_free m.finite_free
    rwa [hnone, Set.ncard_empty, Nat.zero_add, ← freeCount_eq_ncard, hone.freeCount] at hadd
  have hmissing' : m'.view.missing 1 (⟨0x400000⟩ : VirtAddr).pageFloor.route = 2 := by
    rw [View.missing, htables.length_path, htables.layout, hgap.length_pathTables, hlength,
      view_layout, htop]
  have hpage : (frameBase f).page = f := page_frameBase (by omega)
  have hword : (frameBase f).page + (2 : Word).toNat < 2 ^ 64 := by
    rw [hpage]
    change f + 2 < 2 ^ 64
    omega
  obtain ⟨n, _, hview, _⟩ := free_run (ε := MapError) hhoused'.sound
    (startsPage_frameBase (show f < 2 ^ 52 by omega)) hword
  rw [hpage] at hview
  have huntouched := hone.untouched_of_give hhoused' htables hnone hview
  have henough : 2 ≤ n.freeCount := by
    have hback : Set.Ico f (f + 2) ⊆ n.view.free := by
      intro g hg
      rw [Set.mem_Ico] at hg
      rw [hview, View.give, htables.layout, view_layout, hone.layout]
      exact .inr ⟨hg, show 1 ≤ g ∧ g < 1 + 6 by omega⟩
    have hle := Set.ncard_le_ncard hback n.finite_free
    rwa [Set.ncard_Ico_nat, Nat.add_sub_cancel_left, ← freeCount_eq_ncard] at hle
  obtain ⟨n', hagain⟩ := (hretry n huntouched).1.mpr (hmissing' ▸ henough)
  exact ⟨m, m', n, n', e, nodes, hhoused, hrun, hlength, htables, huntouched, hagain⟩

end Machine

end BootMemory
