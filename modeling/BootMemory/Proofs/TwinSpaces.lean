import BootMemory.Proofs.Mapping
import BootMemory.Proofs.Twins

/-!
# Mapping on two machines

The tables of a space are never stale: a frame that becomes one is cleared before it is entered.
So two machines that differ in stale frames alone are walked and mapped alike, and they still look
every page up alike when the mapping fails on the way.
-/

namespace BootMemory

namespace Machine

/-- Two runs that work in one space.  Stale are those of `frames` that are no tables of it, and
the frames that are still free are among them. -/
structure SpaceTwins (frames : Set Nat) (root : Nat) (m₀ n₀ m n : Machine) : Prop where
  sound : m.view.Sound
  tree : m.view.Tree root
  free : m.view.free ⊆ frames
  twins : Twins m₀ n₀ (frames \ m.view.tables root) m n

namespace SpaceTwins

variable {frames : Set Nat} {root table depth : Nat} {m₀ n₀ m n m' n' : Machine} {virt : VirtAddr}

theorem beside (_ : SpaceTwins frames root m₀ n₀ m n) :
    ∀ t ∈ m.view.tables root, t ∉ frames \ m.view.tables root :=
  fun _ ht hstale => hstale.2 ht

theorem sameTables (htwins : SpaceTwins frames root m₀ n₀ m n) :
    View.SameTables m.view n.view root :=
  htwins.twins.sameTables htwins.beside

theorem sound_right (htwins : SpaceTwins frames root m₀ n₀ m n) : n.view.Sound :=
  htwins.twins.sound htwins.sound

theorem tree_right (htwins : SpaceTwins frames root m₀ n₀ m n) : n.view.Tree root :=
  htwins.sameTables.tree htwins.tree fun t ht hfree =>
    htwins.tree.taken t ht (htwins.twins.free_eq ▸ hfree)

theorem of_grown (htwins : SpaceTwins frames root m₀ n₀ m n)
    (hgrown : View.Grown root m.view m'.view)
    (hnext : Twins m₀ n₀ (frames \ m'.view.tables root) m' n') :
    SpaceTwins frames root m₀ n₀ m' n' :=
  ⟨hgrown.sound htwins.sound, hgrown.tree, hgrown.free.trans htwins.free, hnext⟩

theorem of_view_eq (htwins : SpaceTwins frames root m₀ n₀ m n) (hview : m'.view = m.view)
    (hnext : Twins m₀ n₀ (frames \ m.view.tables root) m' n') :
    SpaceTwins frames root m₀ n₀ m' n' :=
  ⟨hview ▸ htwins.sound, hview ▸ htwins.tree, hview ▸ htwins.free, hview ▸ hnext⟩

theorem alloc (htwins : SpaceTwins frames root m₀ n₀ m n) (count : Word) :
    Action.Alike
      (fun base m' n' => ∃ f, base = frameBase f ∧ Set.Ico f (f + count.toNat) ⊆ m.view.free ∧
        m'.view = m.view.take f count.toNat ∧ SpaceTwins frames root m₀ n₀ m' n')
      (fun m' n' => m'.view = m.view ∧ SpaceTwins frames root m₀ n₀ m' n')
      (Machine.alloc count m) (Machine.alloc count n) := by
  refine (htwins.twins.alloc count).mono ?_ ?_
  · intro base m₁ n₁ hrun htwins₁
    obtain ⟨f, rfl, hfree, hview⟩ := alloc_eq_ok htwins.sound hrun
    refine ⟨f, rfl, hfree, hview, hview ▸ htwins.sound.take f _, hview ▸ htwins.tree.take f _,
      ?_, ?_⟩
    · rw [hview]
      exact Set.sdiff_subset.trans htwins.free
    · rwa [hview, (View.SameTables.take m.view f count.toNat).tables_eq]
  · intro e m₁ n₁ hrun htwins₁
    rcases alloc_run htwins.sound count with ⟨_, _, hfail, hview, _⟩ | ⟨_, _, _, _, hdone, _⟩
    · cases hrun.symm.trans hfail
      exact ⟨hview, htwins.of_view_eq hview htwins₁⟩
    · cases hrun.symm.trans hdone

/-! ## Walking in both -/

theorem child (htwins : SpaceTwins frames root m₀ n₀ m n)
    (hreach : m.view.tableAt root virt.route depth = some table)
    (habove : depth + 1 < m.layout.top) :
    Action.Alike (fun _ => SpaceTwins frames root m₀ n₀) (SpaceTwins frames root m₀ n₀)
      (Machine.child virt true (frameBase table) (m.layout.top - depth) m)
      (Machine.child virt true (frameBase table) (m.layout.top - depth) n) := by
  have hmem := View.mem_tables (Nat.lt_of_succ_lt habove) hreach
  have htable : m.layout.Plain table := htwins.tree.plain table hmem
  have hbeside := htwins.beside table hmem
  cases hpresent : (m.view.entry table (virt.route (m.layout.top - depth))).isPresent with
  | true =>
      rw [child_apply htwins.sound htable virt _ true,
        child_apply htwins.sound_right (htwins.twins.plain_right htable) virt _ true,
        htwins.twins.entry_eq hbeside]
      simp only [hpresent, if_true]
      cases (m.view.entry table (virt.route (m.layout.top - depth))).isLargePage with
      | true => exact .error htwins
      | false => exact .ok htwins
  | false =>
      refine (htwins.twins.child_of_absent htwins.sound htable hbeside virt _ hpresent).mono ?_ ?_
      · intro next m₁ n₁ hrun htwins₁
        rcases Machine.child_of_absent htwins.sound htable virt _ hpresent with
          ⟨node, _, hnode, hlinked, hview⟩ | ⟨_, _, hfail, _⟩
        · cases hrun.symm.trans hlinked
          have hgap : View.Gap m.view root virt.route depth table := ⟨habove, hreach, hpresent⟩
          have hlt := (htwins.sound.plain node hnode).lt htwins.sound.memory
          refine htwins.of_grown (hview ▸ hgap.grown_link htwins.tree htwins.sound hnode) ?_
          have htables : m₁.view.tables root = insert node (m.view.tables root) := by
            rw [hview]
            exact hgap.tables_link htwins.tree hnode hlt
          rwa [page_frameBase (lt_trans hlt (by decide)), Set.sdiff_sdiff, Set.union_singleton,
            ← htables] at htwins₁
        · cases hrun.symm.trans hfail
      · intro e m₁ n₁ hrun htwins₁
        rcases Machine.child_of_absent htwins.sound htable virt _ hpresent with
          ⟨_, _, _, hlinked, _⟩ | ⟨_, _, hfail, hview, _⟩
        · cases hrun.symm.trans hlinked
        · cases hrun.symm.trans hfail
          exact htwins.of_view_eq hview htwins₁

theorem walk (htwins : SpaceTwins frames root m₀ n₀ m n) {target steps : Nat} (htarget : 1 ≤ target)
    (hreach : m.view.tableAt root virt.route depth = some table)
    (hdepth : depth + steps + target = m.layout.top) :
    Action.Alike (fun _ => SpaceTwins frames root m₀ n₀) (SpaceTwins frames root m₀ n₀)
      (Machine.walk virt true target steps (frameBase table) m)
      (Machine.walk virt true target steps (frameBase table) n) := by
  induction steps generalizing m n depth table with
  | zero => exact .ok htwins
  | succ steps ih =>
      have habove : depth + 1 < m.layout.top := by
        omega
      rw [Machine.walk, show target + steps + 1 = m.layout.top - depth by omega]
      refine (htwins.child hreach habove).bind ?_
      intro next m₁ n₁ hrun htwins₁
      obtain ⟨t, rfl, hgrown, hnext⟩ :=
        child_reaches htwins.sound htwins.tree hreach habove hrun
      have hlayout : m₁.layout = m.layout := hgrown.layout
      exact ih htwins₁ hnext (by rw [hlayout]; omega)

theorem walkTo (htwins : SpaceTwins frames root m₀ n₀ m n) (virt : VirtAddr) {target : Nat}
    (htarget : 1 ≤ target) (htop : target ≤ m.layout.top) :
    Action.Alike (fun _ => SpaceTwins frames root m₀ n₀) (SpaceTwins frames root m₀ n₀)
      (Machine.walkTo ⟨frameBase root⟩ virt target true m)
      (Machine.walkTo ⟨frameBase root⟩ virt target true n) := by
  have hroot : m.view.tableAt root virt.route 0 = some root := rfl
  have hlayout := htwins.twins.layout_eq
  rw [walkTo_eq htarget htop, walkTo_eq htarget (hlayout ▸ htop), hlayout]
  exact htwins.walk htarget hroot (by omega)

/-! ## Mapping in both -/

theorem emit {ε : Type} {error : Machine → Machine → Prop}
    (htwins : SpaceTwins frames root m₀ n₀ m n) (event : LogEvent) :
    Action.Alike (fun _ => SpaceTwins frames root m₀ n₀) error
      (Machine.emit event m : EStateM.Result (Failure ε) _ _) (Machine.emit event n) :=
  .ok (htwins.of_view_eq (view_pushLog m event) (htwins.twins.pushLog event))

theorem invalidate {ε : Type} {error : Machine → Machine → Prop}
    (htwins : SpaceTwins frames root m₀ n₀ m n) (virt : VirtAddr) :
    Action.Alike (fun _ => SpaceTwins frames root m₀ n₀) error
      (Machine.invalidate virt m : EStateM.Result (Failure ε) _ _)
      (Machine.invalidate virt n) := by
  refine (htwins.twins.invalidate virt).mono ?_ fun _ _ _ _ => id
  rintro _ m₁ n₁ ⟨⟩ htwins₁
  have hsame : View.SameTables m.view (m.view.invalidate virt) root := .of_bytes rfl fun _ _ => rfl
  refine htwins.of_grown ((View.Grown.refl htwins.tree).invalidate virt) ?_
  change Twins m₀ n₀ (frames \ (m.view.invalidate virt).tables root) _ n₁
  rwa [hsame.tables_eq]

theorem writeLeaf {ε : Type} {error : Machine → Machine → Prop}
    (htwins : SpaceTwins frames root m₀ n₀ m n)
    (hleaf : m.view.tableAt root virt.route (m.layout.top - 1) = some table) (e : TableEntry) :
    Action.Alike (fun _ => SpaceTwins frames root m₀ n₀) error
      (Machine.writeWord (entryBase table (virt.route 1)) e.bits m :
        EStateM.Result (Failure ε) _ _)
      (Machine.writeWord (entryBase table (virt.route 1)) e.bits n) := by
  have hmem := View.mem_tables (Nat.sub_one_lt_of_lt m.levels_pos) hleaf
  have htable : m.layout.Plain table := htwins.tree.plain table hmem
  have hlt := htable.lt htwins.sound.memory
  have haligned : (entryBase table (virt.route 1)).word.toNat % 8 = 0 := by
    rw [toNat_entryBase hlt]
    omega
  refine (htwins.twins.writeWord htable (page_entryBase hlt _) haligned
    (htwins.beside table hmem) e.bits).mono ?_ fun _ _ _ _ => id
  intro _ m₁ n₁ hrun htwins₁
  obtain ⟨_, hwrite, hview⟩ := writeEntry_run (ε := ε) htwins.sound htable (virt.route 1) e
  cases hrun.symm.trans hwrite
  refine htwins.of_grown (hview ▸ View.grown_setLeaf htwins.tree hleaf (virt.route 1)) ?_
  rwa [hview, View.tables_setLeaf htwins.tree hleaf]

theorem mapPage (htwins : SpaceTwins frames root m₀ n₀ m n) (virt : VirtAddr) (phys : PhysAddr)
    (rights : AccessRights) (size : PageSize) :
    Action.Alike (fun _ => SpaceTwins frames root m₀ n₀) (SpaceTwins frames root m₀ n₀)
      (Machine.mapPage ⟨frameBase root⟩ virt phys rights size m)
      (Machine.mapPage ⟨frameBase root⟩ virt phys rights size n) := by
  rw [Machine.mapPage]
  by_cases hsize : size ≠ .size4KiB
  · rw [if_pos hsize]
    exact .error htwins
  rw [if_neg hsize]
  refine (htwins.walkTo virt.pageFloor (le_refl 1) m.levels_pos).bind ?_
  intro next m₁ n₁ hrun htwins₁
  obtain ⟨_, hextended, hresult⟩ :=
    walkTo_extend htwins.sound htwins.tree virt.pageFloor (le_refl 1) m.levels_pos
  rcases hresult with ⟨table, hleaf, hwalk⟩ | ⟨_, hfail⟩
  · cases hrun.symm.trans hwalk
    have hlayout : m₁.layout = m.layout := (hextended.grown htwins.tree htwins.sound).layout
    rw [← hlayout] at hleaf
    have htable : m₁.layout.Plain table := htwins₁.tree.plain table
      (View.mem_tables (Nat.sub_one_lt_of_lt m₁.levels_pos) hleaf)
    have hslot : slot (frameBase table) (virt.pageFloor.tableIndex 1) =
        .ok (entryBase table (virt.pageFloor.route 1)) :=
      slot_frameBase (htable.lt htwins₁.sound.memory) (virt.pageFloor.route 1)
    rw [hslot, Action.bind_ok (Action.lift_ok _ m₁), Action.bind_ok (Action.lift_ok _ n₁)]
    refine (htwins₁.writeLeaf hleaf _).bind ?_
    intro _ m₂ n₂ _ htwins₂
    refine (htwins₂.invalidate virt.pageFloor).bind ?_
    exact fun _ m₃ n₃ _ htwins₃ => htwins₃.emit _
  · cases hrun.symm.trans hfail

theorem mapPages (htwins : SpaceTwins frames root m₀ n₀ m n) (virt : VirtAddr) (phys : PhysAddr)
    (rights : AccessRights) {count first : Nat} (hbound : first + count < 2 ^ 64) :
    Action.Alike (fun _ => SpaceTwins frames root m₀ n₀) (SpaceTwins frames root m₀ n₀)
      (Machine.mapPages ⟨frameBase root⟩ virt phys rights count first m)
      (Machine.mapPages ⟨frameBase root⟩ virt phys rights count first n) := by
  induction count generalizing m n first with
  | zero => exact .ok htwins
  | succ count ih =>
      rcases mapPages_succ (show first < 2 ^ 64 by omega) ⟨frameBase root⟩ with
        ⟨f, hfault⟩ | hstep
      · rw [hfault]
        exact .error htwins
      · rw [hstep]
        refine (htwins.mapPage _ _ rights .size4KiB).bind ?_
        exact fun _ m₁ n₁ _ htwins₁ => ih htwins₁ (by omega)

theorem mapRange (htwins : SpaceTwins frames root m₀ n₀ m n) (request : MapRequest)
    (rights : AccessRights) :
    Action.Alike (fun _ => SpaceTwins frames root m₀ n₀) (SpaceTwins frames root m₀ n₀)
      (Machine.mapRange ⟨frameBase root⟩ request rights m)
      (Machine.mapRange ⟨frameBase root⟩ request rights n) := by
  rw [Machine.mapRange]
  cases hcount : Word.pageCount request.length with
  | error f => exact .error htwins
  | ok count =>
      have hlt := count.toNat_lt
      rw [Action.bind_ok (Action.lift_ok _ m), Action.bind_ok (Action.lift_ok _ n)]
      refine (htwins.emit _).bind ?_
      exact fun _ m₁ n₁ _ htwins₁ => htwins₁.mapPages _ _ rights (by omega)

end SpaceTwins

end Machine

end BootMemory
