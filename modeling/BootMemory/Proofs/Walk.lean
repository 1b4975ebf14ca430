import BootMemory.Paging.Table
import BootMemory.Proofs.Linking
import BootMemory.Proofs.Primitives

/-!
# Walks down the tables

A walk that may not add tables reads the tables and changes nothing.  One that may add them links
a table wherever one is missing, so it comes to a table unless there is no frame left or a large
page is in the way.  Neither faults in a space whose tables lie in memory.
-/

namespace BootMemory

def entryBase (table : Nat) (index : Fin 512) : PhysAddr :=
  ⟨UInt64.ofNat (table * 4096 + index * 8)⟩

theorem toNat_entryBase {table : Nat} (htable : table < 2 ^ 40) (index : Fin 512) :
    (entryBase table index).word.toNat = table * 4096 + index * 8 := by
  have hindex := index.isLt
  rw [entryBase, UInt64.toNat_ofNat_of_lt']
  simp only [UInt64.size]
  omega

theorem page_entryBase {table : Nat} (htable : table < 2 ^ 40) (index : Fin 512) :
    (entryBase table index).page = table := by
  have hindex := index.isLt
  rw [Addr.page, toNat_entryBase htable]
  omega

namespace Machine

theorem slot_of_startsPage {table : PhysAddr} (htable : table.startsPage = true) {index : Nat}
    (hindex : index < entryCount) :
    slot table index = .ok ⟨UInt64.ofNat (table.word.toNat + index * 8)⟩ := by
  have hlt := table.word.toNat_lt
  have haligned := table.startsPage_iff.mp htable
  have hcount : index < 512 := hindex
  have hoffset : (UInt64.ofNat (index * entrySize)).toNat = index * 8 := by
    rw [UInt64.toNat_ofNat_of_lt']
    · rfl
    · simp only [UInt64.size, entrySize]
      omega
  have hsum : table.word.toNat + (UInt64.ofNat (index * entrySize)).toNat < 2 ^ 64 := by
    omega
  rw [slot, Addr.add, Word.add_eq_ok hsum, ← hoffset, ← Word.toNat_add hsum, UInt64.ofNat_toNat]
  rfl

theorem slot_frameBase {table : Nat} (htable : table < 2 ^ 40) (index : Fin 512) :
    slot (frameBase table) index = .ok (entryBase table index) := by
  have hframe : table < 2 ^ 52 := lt_trans htable (by decide)
  rw [slot_of_startsPage (startsPage_frameBase hframe) index.isLt, toNat_frameBase hframe]
  rfl

section Entries

variable {ε : Type} {m : Machine} {table : Nat}

theorem readEntry_run (hsound : m.view.Sound) (htable : m.layout.Plain table) (index : Fin 512) :
    readWord (entryBase table index) m =
      (.ok (m.view.entry table index).bits m : EStateM.Result (Failure ε) _ _) := by
  have hlt := htable.lt hsound.memory
  have hindex := index.isLt
  have haddr := toNat_entryBase hlt index
  rw [readWord_plain htable (page_entryBase hlt index) (by omega), haddr]
  rfl

theorem writeEntry_run (hsound : m.view.Sound) (htable : m.layout.Plain table) (index : Fin 512)
    (e : TableEntry) :
    ∃ m', writeWord (entryBase table index) e.bits m =
        (.ok ⟨⟩ m' : EStateM.Result (Failure ε) _ _) ∧
      m'.view = m.view.setEntry table index e := by
  have hlt := htable.lt hsound.memory
  have hindex := index.isLt
  have haddr := toNat_entryBase hlt index
  obtain ⟨m', hrun, hview⟩ := writeWord_plain (ε := ε) htable (page_entryBase hlt index)
    (by omega) e.bits
  rw [haddr] at hview
  exact ⟨m', hrun, hview⟩

end Entries

theorem newTable_of_alloc {m m₁ : Machine} {f : Nat} (hsound : m.view.Sound)
    (hfree : f ∈ m.view.free) (halloc : alloc 1 m = .ok (frameBase f) m₁)
    (hview₁ : m₁.view = m.view.take f 1) :
    ∃ m', newTable m = .ok (frameBase f) m' ∧ m'.view = (m.view.take f 1).clear f 1 := by
  have hone : (1 : Word).toNat = 1 := rfl
  have hsound₁ : m₁.view.Sound := hview₁ ▸ hsound.take f 1
  have hplain : ∀ g, f ≤ g → g < f + (1 : Word).toNat → m₁.layout.Plain g := by
    intro g hlow hhigh
    rw [hone] at hhigh
    rw [show g = f by omega, show m₁.layout = m.layout from congrArg View.layout hview₁]
    exact hsound.plain f hfree
  obtain ⟨m₂, hzero, hview₂⟩ := zeroFrames_plain (ε := MapError) hsound₁ (by decide) hplain
  refine ⟨m₂, ?_, ?_⟩
  · rw [newTable, Action.bind_ok (Action.mapError_ok halloc), Action.bind_ok hzero]
    rfl
  · rw [hview₂, hview₁, hone]

/-- A frame for a table is taken and cleared, or there is none and nothing is changed. -/
theorem newTable_run {m : Machine} (hsound : m.view.Sound) :
    (∃ e m', newTable m = .error (.error (.noFrame e)) m' ∧ m'.view = m.view ∧
        m.view.free = ∅) ∨
      ∃ f m', f ∈ m.view.free ∧ newTable m = .ok (frameBase f) m' ∧
        m'.view = (m.view.take f 1).clear f 1 := by
  rcases alloc_run hsound 1 with
    ⟨e, m', halloc, hview, hnone⟩ | ⟨f, m₁, _, hfree, halloc, hview₁⟩
  · left
    refine ⟨e, m', Action.bind_error (Action.mapError_error halloc), hview, ?_⟩
    rw [Set.eq_empty_iff_forall_notMem]
    intro f hf
    apply hnone (by decide) f
    intro g hg
    rwa [show g = f from Nat.le_antisymm (Nat.le_of_lt_succ hg.2) hg.1]
  · right
    have hmem : f ∈ m.view.free := hfree (Set.mem_Ico.mpr ⟨le_refl f, Nat.lt_succ_self f⟩)
    obtain ⟨m', hnew, hview⟩ := newTable_of_alloc hsound hmem halloc hview₁
    exact ⟨f, m', hmem, hnew, hview⟩

section Steps

variable {m : Machine} {root table depth : Nat} {virt : VirtAddr}

section Child

variable (hsound : m.view.Sound) (htable : m.layout.Plain table) (virt : VirtAddr) (level : Nat)

include hsound htable

theorem child_apply (allocate : Bool) :
    child virt allocate (frameBase table) level m =
      (let entry := m.view.entry table (virt.route level)
      if entry.isPresent then
        if entry.isLargePage then Action.fail (.largePage level) else return entry.address
      else if allocate then do
        let node ← newTable
        writeWord (entryBase table (virt.route level)) (TableEntry.make node .node).bits
        emit (.tableAdded (level - 1) virt node)
        return node
      else Action.fail .missingTable : MachineM MapError PhysAddr) m := by
  have hslot : slot (frameBase table) (virt.tableIndex level) =
      .ok (entryBase table (virt.route level)) :=
    slot_frameBase (htable.lt hsound.memory) (virt.route level)
  have hread := readEntry_run (ε := MapError) hsound htable (virt.route level)
  rw [child, hslot, Action.bind_ok (Action.lift_ok _ m), Action.bind_ok hread]

theorem child_of_present (allocate : Bool)
    (hpresent : (m.view.entry table (virt.route level)).isPresent = true) :
    (∃ next, m.view.child table (virt.route level) = some next ∧
        child virt allocate (frameBase table) level m = .ok (frameBase next) m) ∨
      (m.view.entry table (virt.route level)).isLargePage = true ∧
        m.view.child table (virt.route level) = none ∧
        child virt allocate (frameBase table) level m = .error (.error (.largePage level)) m := by
  rw [child_apply hsound htable virt level allocate, View.child]
  simp only [hpresent, if_true, Bool.true_and]
  cases hlarge : (m.view.entry table (virt.route level)).isLargePage with
  | true =>
      right
      exact ⟨rfl, rfl, rfl⟩
  | false =>
      left
      refine ⟨_, rfl, ?_⟩
      rw [← TableEntry.address_eq_frameBase]
      rfl

/-- Where no table is entered, one is linked, or there is no frame for it. -/
theorem child_of_absent
    (habsent : (m.view.entry table (virt.route level)).isPresent = false) :
    (∃ node m', node ∈ m.view.free ∧
        child virt true (frameBase table) level m = .ok (frameBase node) m' ∧
        m'.view = m.view.link table (virt.route level) node) ∨
      ∃ e m', child virt true (frameBase table) level m = .error (.error (.noFrame e)) m' ∧
        m'.view = m.view ∧ m.view.free = ∅ := by
  rw [child_apply hsound htable virt level true]
  simp only [habsent, Bool.false_eq_true, if_false, if_true]
  rcases newTable_run hsound with
    ⟨e, m', hnew, hview, hnone⟩ | ⟨node, m₁, hnode, hnew, hview₁⟩
  · right
    exact ⟨e, m', Action.bind_error hnew, hview, hnone⟩
  · left
    have hsound₁ : m₁.view.Sound := by
      rw [hview₁]
      exact (hsound.take node 1).write _ _
    have htable₁ : m₁.layout.Plain table := by
      rwa [show m₁.layout = m.layout from congrArg View.layout hview₁]
    obtain ⟨m₂, hwrite, hview₂⟩ := writeEntry_run (ε := MapError) hsound₁ htable₁
      (virt.route level) (TableEntry.make (frameBase node) .node)
    obtain ⟨m₃, hemit, hview₃⟩ := emit_run (ε := MapError)
      (.tableAdded (level - 1) virt (frameBase node)) m₂
    refine ⟨node, m₃, hnode, ?_, ?_⟩
    · rw [Action.bind_ok hnew, Action.bind_ok hwrite, Action.bind_ok hemit]
      rfl
    · rw [hview₃, hview₂, hview₁, View.link]

theorem child_lookup :
    (∃ next, m.view.child table (virt.route level) = some next ∧
        child virt false (frameBase table) level m = .ok (frameBase next) m) ∨
      (m.view.child table (virt.route level) = none ∧
        ∃ e, child virt false (frameBase table) level m = .error (.error e) m) := by
  cases hpresent : (m.view.entry table (virt.route level)).isPresent with
  | false =>
      right
      rw [child_apply hsound htable virt level false, View.child]
      simp only [hpresent, Bool.false_and, Bool.false_eq_true, if_false]
      exact ⟨trivial, _, rfl⟩
  | true =>
      rcases child_of_present hsound htable virt level false hpresent with hnext | ⟨_, hnone⟩
      · exact .inl hnext
      · exact .inr ⟨hnone.1, _, hnone.2⟩

end Child

/-- A step that may add a table follows the entry, links a table in a gap or finds no frame for it,
or meets a large page. -/
theorem child_ends (hsound : m.view.Sound) (htree : m.view.Tree root)
    (hreach : m.view.tableAt root virt.route depth = some table)
    (habove : depth + 1 < m.layout.top) :
    (∃ next, m.view.child table (virt.route (m.layout.top - depth)) = some next ∧
        child virt true (frameBase table) (m.layout.top - depth) m = .ok (frameBase next) m) ∨
      (∃ node m', node ∈ m.view.free ∧ View.Gap m.view root virt.route depth table ∧
        child virt true (frameBase table) (m.layout.top - depth) m = .ok (frameBase node) m' ∧
        m'.view = m.view.link table (virt.route (m.layout.top - depth)) node) ∨
      (∃ e m', View.Gap m.view root virt.route depth table ∧
        child virt true (frameBase table) (m.layout.top - depth) m =
          .error (.error (.noFrame e)) m' ∧
        m'.view = m.view ∧ m.view.free = ∅) ∨
      View.Blocked m.view root virt.route depth table ∧
        child virt true (frameBase table) (m.layout.top - depth) m =
          .error (.error (.largePage (m.layout.top - depth))) m := by
  have htable : m.layout.Plain table :=
    htree.plain table (View.mem_tables (Nat.lt_of_succ_lt habove) hreach)
  cases hpresent : (m.view.entry table (virt.route (m.layout.top - depth))).isPresent with
  | true =>
      rcases child_of_present hsound htable virt _ true hpresent with hnext | ⟨hlarge, _, hrun⟩
      · exact .inl hnext
      · exact .inr (.inr (.inr ⟨⟨habove, hreach, hpresent, hlarge⟩, hrun⟩))
  | false =>
      have hgap : View.Gap m.view root virt.route depth table := ⟨habove, hreach, hpresent⟩
      rcases child_of_absent hsound htable virt _ hpresent with
        ⟨node, m', hnode, hrun, hview⟩ | ⟨e, m', hrun, hview, hnone⟩
      · exact .inr (.inl ⟨node, m', hnode, hgap, hrun, hview⟩)
      · exact .inr (.inr (.inl ⟨e, m', hgap, hrun, hview, hnone⟩))

/-- A step that may add a table follows the entry, links a table in a gap, or fails.  In a space
without large pages it fails for want of a frame alone. -/
theorem child_extend (hsound : m.view.Sound) (htree : m.view.Tree root)
    (hreach : m.view.tableAt root virt.route depth = some table)
    (habove : depth + 1 < m.layout.top) :
    (∃ next, m.view.child table (virt.route (m.layout.top - depth)) = some next ∧
        child virt true (frameBase table) (m.layout.top - depth) m = .ok (frameBase next) m) ∨
      (∃ node m', node ∈ m.view.free ∧ View.Gap m.view root virt.route depth table ∧
        child virt true (frameBase table) (m.layout.top - depth) m = .ok (frameBase node) m' ∧
        m'.view = m.view.link table (virt.route (m.layout.top - depth)) node) ∨
      ∃ e m', child virt true (frameBase table) (m.layout.top - depth) m = .error (.error e) m' ∧
        m'.view = m.view ∧
        (m.view.AllSmall root → m.view.free = ∅) := by
  rcases child_ends hsound htree hreach habove with
    hnext | hlink | ⟨e, m', _, hrun, hview, hnone⟩ | ⟨hblocked, hrun⟩
  · exact .inl hnext
  · exact .inr (.inl hlink)
  · exact .inr (.inr ⟨_, m', hrun, hview, fun _ => hnone⟩)
  · exact .inr (.inr ⟨_, m, hrun, rfl, fun hsmall => absurd hblocked hsmall.not_blocked⟩)

/-- A step that may add a table, if it does not fail, comes to the next table on the route. -/
theorem child_reaches {m' : Machine} {next : PhysAddr} (hsound : m.view.Sound)
    (htree : m.view.Tree root) (hreach : m.view.tableAt root virt.route depth = some table)
    (habove : depth + 1 < m.layout.top)
    (hrun : child virt true (frameBase table) (m.layout.top - depth) m = .ok next m') :
    ∃ t, next = frameBase t ∧ View.Grown root m.view m'.view ∧
      m'.view.tableAt root virt.route (depth + 1) = some t := by
  rcases child_extend hsound htree hreach habove with
    ⟨t, hchild, hsame⟩ | ⟨node, m₁, hnode, hgap, hlinked, hview⟩ | ⟨e, m₁, hfail, _⟩
  · cases hrun.symm.trans hsame
    refine ⟨t, rfl, .refl htree, ?_⟩
    rw [View.tableAt, hreach]
    exact hchild
  · cases hrun.symm.trans hlinked
    have hlt := (hsound.plain node hnode).lt hsound.memory
    refine ⟨node, rfl, hview ▸ hgap.grown_link htree hsound hnode, ?_⟩
    rw [hview]
    exact hgap.tableAt_link_node htree hnode hlt (fun _ _ => rfl)
  · cases hrun.symm.trans hfail

/-- A walk that may not add tables reads off what the route reaches. -/
theorem walk_lookup (hsound : m.view.Sound) (htree : m.view.Tree root) {target steps : Nat}
    (htarget : 1 ≤ target) (hreach : m.view.tableAt root virt.route depth = some table)
    (hdepth : depth + steps + target = m.layout.top) :
    (∃ next, m.view.tableAt root virt.route (m.layout.top - target) = some next ∧
        walk virt false target steps (frameBase table) m = .ok (frameBase next) m) ∨
      (m.view.tableAt root virt.route (m.layout.top - target) = none ∧
        ∃ e, walk virt false target steps (frameBase table) m = .error (.error e) m) := by
  induction steps generalizing depth table with
  | zero =>
      left
      rw [show m.layout.top - target = depth by omega]
      exact ⟨table, hreach, rfl⟩
  | succ steps ih =>
      have hlevel : target + steps + 1 = m.layout.top - depth := by
        omega
      have htable : m.layout.Plain table :=
        htree.plain table (View.mem_tables (by change depth < m.layout.top; omega) hreach)
      have hnext : m.view.tableAt root virt.route (depth + 1) =
          m.view.child table (virt.route (target + steps + 1)) := by
        rw [View.tableAt, hreach, Option.bind_some, hlevel, view_layout]
      rcases child_lookup hsound htable virt (target + steps + 1) with
        ⟨next, hchild, hrun⟩ | ⟨hchild, e, hrun⟩
      · rw [walk, Action.bind_ok hrun]
        exact ih (hnext.trans hchild) (by omega)
      · right
        refine ⟨?_, e, Action.bind_error hrun⟩
        have hbeyond : ∀ k, m.view.tableAt root virt.route (depth + 1 + k) = none := by
          intro k
          induction k with
          | zero => exact hnext.trans hchild
          | succ k hk =>
              rw [← Nat.add_assoc, View.tableAt, hk]
              rfl
        have hbottom := hbeyond steps
        rwa [show depth + 1 + steps = m.layout.top - target by omega] at hbottom

/-- A walk that may add tables links those missing on the route and comes to the last of them.  It
fails in a gap when no frame is left, or at a large page, and then it has linked nothing. -/
theorem walk_ends (hsound : m.view.Sound) (htree : m.view.Tree root) {target steps : Nat}
    (htarget : 1 ≤ target) (hreach : m.view.tableAt root virt.route depth = some table)
    (hdepth : depth + steps + target = m.layout.top) :
    (∃ nodes next m', View.Linked root virt.route m.view nodes m'.view ∧
        m'.view.tableAt root virt.route (m.layout.top - target) = some next ∧
        walk virt true target steps (frameBase table) m = .ok (frameBase next) m') ∨
      (∃ nodes e m', View.Linked root virt.route m.view nodes m'.view ∧ m'.view.free = ∅ ∧
        (∃ d t, View.Gap m'.view root virt.route d t) ∧
        walk virt true target steps (frameBase table) m = .error (.error (.noFrame e)) m') ∨
      ∃ d t, depth ≤ d ∧ View.Blocked m.view root virt.route d t ∧
        walk virt true target steps (frameBase table) m =
          .error (.error (.largePage (m.layout.top - d))) m := by
  -- each table that is linked makes another machine, from which the walk goes on
  induction steps generalizing m depth table with
  | zero =>
      refine .inl ⟨[], table, m, .refl _, ?_, rfl⟩
      rwa [show m.layout.top - target = depth by omega]
  | succ steps ih =>
      have hlevel : target + steps + 1 = m.layout.top - depth := by
        omega
      have habove : depth + 1 < m.layout.top := by
        omega
      rw [walk, hlevel]
      rcases child_ends hsound htree hreach habove with
        ⟨next, hchild, hrun⟩ | ⟨node, m₁, hnode, hgap, hrun, hview⟩ |
          ⟨e, m₁, hgap, hrun, hview, hnone⟩ | ⟨hblocked, hrun⟩
      · have hnext : m.view.tableAt root virt.route (depth + 1) = some next := by
          rw [View.tableAt, hreach]
          exact hchild
        rw [Action.bind_ok hrun]
        rcases ih hsound htree hnext (by omega) with hdone | hnoFrame | ⟨d, t, hd, hblocked⟩
        · exact .inl hdone
        · exact .inr (.inl hnoFrame)
        · exact .inr (.inr ⟨d, t, Nat.le_of_succ_le hd, hblocked⟩)
      · have hgrown : View.Grown root m.view
            (m.view.link table (virt.route (m.layout.top - depth)) node) :=
          hgap.grown_link htree hsound hnode
        have hlt := (hsound.plain node hnode).lt hsound.memory
        have hlayout : m₁.layout = m.layout := congrArg View.layout hview
        have hnext : m₁.view.tableAt root virt.route (depth + 1) = some node := by
          rw [hview]
          exact hgap.tableAt_link_node htree hnode hlt (fun _ _ => rfl)
        rw [← hview] at hgrown
        rw [Action.bind_ok hrun]
        rcases ih (hgrown.sound hsound) hgrown.tree hnext (by rw [hlayout]; omega) with
          ⟨nodes, next, m', hlinked, hnext', hdone⟩ | ⟨nodes, e, m', hlinked, hrest⟩ |
            ⟨d, t, hd, hblocked, _⟩
        · rw [hview] at hlinked
          rw [hlayout] at hnext'
          exact .inl ⟨node :: nodes, next, m', .link hgap hnode hlinked, hnext', hdone⟩
        · rw [hview] at hlinked
          exact .inr (.inl ⟨node :: nodes, e, m', .link hgap hnode hlinked, hrest⟩)
        · -- the table that was just linked is empty, so it holds no large page
          rw [hview] at hblocked
          exact absurd hblocked (hgap.not_blocked_link htree hnode hlt hd)
      · rw [Action.bind_error hrun]
        exact .inr (.inl ⟨[], e, m₁, hview ▸ .refl _, hview ▸ hnone, ⟨depth, table, hview ▸ hgap⟩,
          rfl⟩)
      · rw [Action.bind_error hrun]
        exact .inr (.inr ⟨depth, table, le_refl depth, hblocked, rfl⟩)

/-- A walk that may add tables adds some of those missing on the route and comes to the last of
them, unless it fails on the way. -/
theorem walk_extend (hsound : m.view.Sound) (htree : m.view.Tree root) {target steps : Nat}
    (htarget : 1 ≤ target) (hreach : m.view.tableAt root virt.route depth = some table)
    (hdepth : depth + steps + target = m.layout.top) :
    ∃ m', View.Extended root virt.route m.view m'.view ∧
      ((∃ next, m'.view.tableAt root virt.route (m.layout.top - target) = some next ∧
          walk virt true target steps (frameBase table) m = .ok (frameBase next) m') ∨
        ∃ e, walk virt true target steps (frameBase table) m = .error (.error e) m') := by
  rcases walk_ends hsound htree htarget hreach hdepth with
    ⟨nodes, next, m', hlinked, hnext, hrun⟩ | ⟨nodes, e, m', hlinked, _, _, hrun⟩ |
      ⟨d, t, _, _, hrun⟩
  · exact ⟨m', hlinked.extended, .inl ⟨next, hnext, hrun⟩⟩
  · exact ⟨m', hlinked.extended, .inr ⟨_, hrun⟩⟩
  · exact ⟨m, .refl _, .inr ⟨_, hrun⟩⟩

end Steps

section WalkTo

variable {m : Machine} {root : Nat}

theorem walkTo_eq {target : Nat} (htarget : 1 ≤ target) (htop : target ≤ m.layout.top)
    (space : AddressSpace) (virt : VirtAddr) (allocate : Bool) :
    walkTo space virt target allocate m =
      walk virt allocate target (m.layout.top - target) space.root m := by
  rw [walkTo, Action.bind_ok (Action.get_apply m)]
  exact congrFun (if_pos ⟨htarget, htop⟩) m

theorem walkTo_lookup (hsound : m.view.Sound) (htree : m.view.Tree root) (virt : VirtAddr)
    {target : Nat} (htarget : 1 ≤ target) (htop : target ≤ m.layout.top) :
    (∃ next, m.view.tableAt root virt.route (m.layout.top - target) = some next ∧
        walkTo ⟨frameBase root⟩ virt target false m = .ok (frameBase next) m) ∨
      (m.view.tableAt root virt.route (m.layout.top - target) = none ∧
        ∃ e, walkTo ⟨frameBase root⟩ virt target false m = .error (.error e) m) := by
  have hroot : m.view.tableAt root virt.route 0 = some root := rfl
  rw [walkTo_eq htarget htop]
  exact walk_lookup hsound htree htarget hroot (by omega)

theorem walkTo_ends (hsound : m.view.Sound) (htree : m.view.Tree root) (virt : VirtAddr)
    {target : Nat} (htarget : 1 ≤ target) (htop : target ≤ m.layout.top) :
    (∃ nodes next m', View.Linked root virt.route m.view nodes m'.view ∧
        m'.view.tableAt root virt.route (m.layout.top - target) = some next ∧
        walkTo ⟨frameBase root⟩ virt target true m = .ok (frameBase next) m') ∨
      (∃ nodes e m', View.Linked root virt.route m.view nodes m'.view ∧ m'.view.free = ∅ ∧
        (∃ d t, View.Gap m'.view root virt.route d t) ∧
        walkTo ⟨frameBase root⟩ virt target true m = .error (.error (.noFrame e)) m') ∨
      ∃ d t, View.Blocked m.view root virt.route d t ∧
        walkTo ⟨frameBase root⟩ virt target true m =
          .error (.error (.largePage (m.layout.top - d))) m := by
  have hroot : m.view.tableAt root virt.route 0 = some root := rfl
  have hsteps : 0 + (m.layout.top - target) + target = m.layout.top := by
    omega
  rw [walkTo_eq htarget htop]
  rcases walk_ends hsound htree htarget hroot hsteps with
    hdone | hnoFrame | ⟨d, t, _, hblocked⟩
  · exact .inl hdone
  · exact .inr (.inl hnoFrame)
  · exact .inr (.inr ⟨d, t, hblocked⟩)

theorem walkTo_extend (hsound : m.view.Sound) (htree : m.view.Tree root) (virt : VirtAddr)
    {target : Nat} (htarget : 1 ≤ target) (htop : target ≤ m.layout.top) :
    ∃ m', View.Extended root virt.route m.view m'.view ∧
      ((∃ next, m'.view.tableAt root virt.route (m.layout.top - target) = some next ∧
          walkTo ⟨frameBase root⟩ virt target true m = .ok (frameBase next) m') ∨
        ∃ e, walkTo ⟨frameBase root⟩ virt target true m = .error (.error e) m') := by
  have hroot : m.view.tableAt root virt.route 0 = some root := rfl
  rw [walkTo_eq htarget htop]
  exact walk_extend hsound htree htarget hroot (by omega)

theorem walkTo_fault {target : Nat} (hlevel : ¬(1 ≤ target ∧ target ≤ m.layout.top))
    (space : AddressSpace) (virt : VirtAddr) (allocate : Bool) :
    walkTo space virt target allocate m =
      .error (.fault (.noSuchLevel target m.layout.top)) m := by
  rw [walkTo, Action.bind_ok (Action.get_apply m)]
  exact congrFun (if_neg hlevel) m

end WalkTo

end Machine

end BootMemory
