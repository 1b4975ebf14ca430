import BootMemory.Proofs.TableCost

/-!
# Walks that share tables

A walk that may not add tables changes nothing.  One that may add them moves no page, and it leaves
the tables on its way in place: every later walk that starts with the same indices follows them to
the same table and has nothing to add.  A walk that starts with other indices is never led there,
because each table of a space is reached in one way, and a table that is new to the space is not
one of those that it had.
-/

namespace BootMemory

namespace Machine

section Along

variable {m : Machine} {root table depth : Nat} {virt : VirtAddr}

/-- An entry that leads to a table is followed, whether or not tables may be added. -/
theorem child_follows (hsound : m.view.Sound) (htable : m.layout.Plain table) {level next : Nat}
    (hchild : m.view.child table (virt.route level) = some next) (allocate : Bool) :
    child virt allocate (frameBase table) level m = .ok (frameBase next) m := by
  have hpresent : (m.view.entry table (virt.route level)).isPresent = true := by
    by_contra habsent
    rw [View.child, Bool.eq_false_of_not_eq_true habsent] at hchild
    contradiction
  rcases child_of_present hsound htable virt level allocate hpresent with
    ⟨t, hsame, hrun⟩ | ⟨_, hnone, _⟩
  · cases hchild.symm.trans hsame
    exact hrun
  · cases hchild.symm.trans hnone

/-- Where the tables on a route are there, a walk goes along them and adds nothing. -/
theorem walk_follows (hsound : m.view.Sound) (htree : m.view.Tree root) {target steps last : Nat}
    (htarget : 1 ≤ target) (hreach : m.view.tableAt root virt.route depth = some table)
    (hdepth : depth + steps + target = m.layout.top)
    (hlast : m.view.tableAt root virt.route (m.layout.top - target) = some last)
    (allocate : Bool) :
    walk virt allocate target steps (frameBase table) m = .ok (frameBase last) m := by
  induction steps generalizing depth table with
  | zero =>
      rw [show m.layout.top - target = depth by omega] at hlast
      cases hreach.symm.trans hlast
      rfl
  | succ steps ih =>
      have hlevel : target + steps + 1 = m.layout.top - depth := by
        omega
      have htable : m.layout.Plain table :=
        htree.plain table (View.mem_tables (show depth < m.layout.top by omega) hreach)
      obtain ⟨next, hnext⟩ := View.exists_tableAt_of_le
        (show depth + 1 ≤ m.layout.top - target by omega) ⟨last, hlast⟩
      obtain ⟨parent, hparent, hchild⟩ := View.tableAt_succ_eq_some hnext
      cases hreach.symm.trans hparent
      rw [view_layout] at hchild
      rw [walk, hlevel, Action.bind_ok (child_follows hsound htable hchild allocate)]
      exact ih hnext (by omega)

theorem walkTo_follows (hsound : m.view.Sound) (htree : m.view.Tree root) {target last : Nat}
    (htarget : 1 ≤ target) (htop : target ≤ m.layout.top)
    (hlast : m.view.tableAt root virt.route (m.layout.top - target) = some last)
    (allocate : Bool) :
    walkTo ⟨frameBase root⟩ virt target allocate m = .ok (frameBase last) m := by
  have hroot : m.view.tableAt root virt.route 0 = some root := rfl
  rw [walkTo_eq htarget htop]
  exact walk_follows hsound htree htarget hroot (by omega) hlast allocate

/-- A walk that comes to a table has linked those that were missing, and its route leads to the
table then. -/
theorem walkTo_reaches (hsound : m.view.Sound) (htree : m.view.Tree root) {target : Nat}
    {allocate : Bool} {found : PhysAddr} {m' : Machine}
    (hrun : walkTo ⟨frameBase root⟩ virt target allocate m = .ok found m') :
    1 ≤ target ∧ target ≤ m.layout.top ∧
      ∃ nodes last, found = frameBase last ∧
        View.Linked root virt.route m.view nodes m'.view ∧
        m'.view.tableAt root virt.route (m.layout.top - target) = some last := by
  by_cases hlevel : 1 ≤ target ∧ target ≤ m.layout.top
  · refine ⟨hlevel.1, hlevel.2, ?_⟩
    cases allocate with
    | false =>
        rcases walkTo_lookup hsound htree virt hlevel.1 hlevel.2 with
          ⟨last, hlast, hsame⟩ | ⟨_, e, hfail⟩
        · cases hrun.symm.trans hsame
          exact ⟨[], last, rfl, .refl _, hlast⟩
        · cases hrun.symm.trans hfail
    | true =>
        rcases walkTo_ends hsound htree virt hlevel.1 hlevel.2 with
          ⟨nodes, last, m₁, hlinked, hlast, hsame⟩ | ⟨_, e, m₁, _, _, _, hfail⟩ |
            ⟨d, t, _, hfail⟩
        · cases hrun.symm.trans hsame
          exact ⟨nodes, last, rfl, hlinked, hlast⟩
        · cases hrun.symm.trans hfail
        · cases hrun.symm.trans hfail
  · rw [walkTo_fault hlevel] at hrun
    cases hrun

/-- A walk that ends at a table of a space has come the one way that leads to it. -/
theorem agree_of_walkTo (hsound : m.view.Sound) (htree : m.view.Tree root) {level t : Nat}
    (hlow : 1 ≤ level) (hhigh : level ≤ m.layout.top)
    (hreach : m.view.tableAt root virt.route (m.layout.top - level) = some t) {addr : VirtAddr}
    {target : Nat} {allocate : Bool} {m' : Machine}
    (hrun : walkTo ⟨frameBase root⟩ addr target allocate m = .ok (frameBase t) m') :
    target = level ∧
      Route.Agree m.layout.top (m.layout.top - level) addr.route virt.route := by
  obtain ⟨hone, htop, nodes, last, hsame, hlinked, hlast⟩ := walkTo_reaches hsound htree hrun
  have hpath := hlinked.pathGrown htree hsound
  have hgrown := hlinked.extended.grown htree hsound
  have hlayout : m'.view.layout = m.layout := hgrown.layout
  have hdepth : m.layout.top - level < m.layout.top := by
    omega
  have hkept : m'.view.tableAt root virt.route (m.layout.top - level) = some t :=
    hpath.kept virt.route _ t hdepth hreach
  have hlt : ∀ {d f q}, d < m.layout.top → m'.view.tableAt root q d = some f → f < 2 ^ 52 := by
    intro d f q hd hf
    have hplain := hgrown.tree.plain f (View.mem_tables (hlayout ▸ hd) hf)
    exact (hplain.lt (hgrown.sound hsound).memory).trans (by decide)
  have hdepth' : m.layout.top - target < m.layout.top := by
    omega
  obtain rfl : t = last := frameBase_injOn (hlt hdepth hkept) (hlt hdepth' hlast) hsame
  obtain ⟨hlevel, hagree⟩ := hgrown.tree.once addr.route virt.route _ _ t (hlayout ▸ hdepth')
    (hlayout ▸ hdepth) hlast hkept
  rw [hlayout] at hagree
  exact ⟨by omega, hlevel ▸ hagree⟩

end Along

/-- A walk that may not add tables changes nothing, and one that may moves no page.  The table that
a walk has come to is shared by the addresses with the same bits above its level, and by no
others: from there on walks to them come to it without a change, and no walk to another address
ends there. -/
theorem tables_follow_upper_bits {m : Machine} {roots : Set Nat} {root : Nat}
    (hhoused : m.view.Housed roots) (hroot : root ∈ roots) (virt : VirtAddr) {level : Nat}
    (hlow : 1 ≤ level) (hhigh : level ≤ m.layout.top) :
    ((∃ table, walkTo ⟨frameBase root⟩ virt level false m = .ok table m) ∨
        ∃ e, walkTo ⟨frameBase root⟩ virt level false m = .error (.error e) m) ∧
      ∀ table m', walkTo ⟨frameBase root⟩ virt level true m = .ok table m' →
        (∀ other ∈ roots, ∀ addr, TranslatesAlike ⟨frameBase other⟩ addr m m') ∧
        (∀ addr : VirtAddr,
          addr.tableKey m.layout.top level = virt.tableKey m.layout.top level →
            ∀ allocate, walkTo ⟨frameBase root⟩ addr level allocate m' = .ok table m') ∧
        ∀ addr : VirtAddr,
          addr.tableKey m.layout.top level ≠ virt.tableKey m.layout.top level →
            ∀ target allocate m'',
              walkTo ⟨frameBase root⟩ addr target allocate m' ≠ .ok table m'' := by
  have hsound := hhoused.sound
  have htree := hhoused.tree root hroot
  have htop : m.layout.top ≤ 5 := by
    rcases m.layout.top_eq with htop | htop <;> omega
  constructor
  · rcases walkTo_lookup hsound htree virt hlow hhigh with ⟨next, _, hrun⟩ | ⟨_, hfail⟩
    · exact .inl ⟨_, hrun⟩
    · exact .inr hfail
  · intro table m' hrun
    obtain ⟨_, _, nodes, t, rfl, hlinked, hreach⟩ := walkTo_reaches hsound htree hrun
    have hkept := hlinked.extended.pagesKept htree hsound
    have hgrown := hkept.grown
    have hlayout : m'.layout = m.layout := hgrown.layout
    rw [← hlayout] at htop hhigh hreach ⊢
    refine ⟨?_, ?_, ?_⟩
    · intro other hother addr
      exact translatesAlike_of_grown hhoused hroot hgrown hother fun _ => hkept.lookup addr.route
    · intro addr hkey allocate
      rw [← Addr.agree_route_iff_tableKey htop hhigh] at hkey
      apply walkTo_follows (hgrown.sound hsound) hgrown.tree hlow hhigh
      rw [← hreach]
      exact View.tableAt_congr hkey
    · intro addr hkey target allocate m'' hother
      obtain ⟨_, hagree⟩ :=
        agree_of_walkTo (hgrown.sound hsound) hgrown.tree hlow hhigh hreach hother
      exact hkey ((Addr.agree_route_iff_tableKey htop hhigh addr virt).mp hagree)

theorem supplied_freeCount (m : Machine) : m.view.Supplied m.freeCount := by
  refine ⟨m.finite_free.toFinset, m.finite_free.coe_toFinset.subset, ?_⟩
  rw [freeCount_eq_ncard, Set.ncard_eq_toFinset_card _ m.finite_free]

/-- Two pages of one area of 2 MiB share a lowest table, and a page of the next area does not. -/
theorem tables_follow_upper_bits_tightMachine :
    ∃ root m table m', m.view.Housed {root} ∧ m.layout.top = 4 ∧
      walkTo ⟨frameBase root⟩ ⟨0x40201000⟩ 1 true m = .ok table m' ∧
      (∀ allocate, walkTo ⟨frameBase root⟩ ⟨0x403ff000⟩ 1 allocate m' = .ok table m') ∧
      ∀ target allocate m'',
        walkTo ⟨frameBase root⟩ ⟨0x40400000⟩ target allocate m' ≠ .ok table m'' := by
  obtain ⟨root, m, _, hcharted, htop, hcount⟩ := exists_newSpace_tightMachine
  have hhoused := View.Housed.singleton hcharted.sound hcharted.tree
  have hroot : m.view.tableAt root (⟨0x40201000⟩ : VirtAddr).route 0 = some root := rfl
  have hsupplied := m.supplied_freeCount
  rw [hcount] at hsupplied
  have hhigh : 1 ≤ m.layout.top := m.levels_pos
  obtain ⟨t, m', hwalk, _⟩ := walk_supplied hcharted.sound hcharted.tree hcharted.small (le_refl 1)
    hroot (show 0 + 3 + 1 = m.layout.top by rw [htop]) (n := 1) hsupplied
  have hrun : walkTo ⟨frameBase root⟩ ⟨0x40201000⟩ 1 true m = .ok (frameBase t) m' := by
    rw [walkTo_eq (le_refl 1) hhigh, htop]
    exact hwalk
  obtain ⟨_, hshared, hparted⟩ :=
    (tables_follow_upper_bits hhoused rfl ⟨0x40201000⟩ (le_refl 1) hhigh).2 _ _ hrun
  rw [htop] at hshared hparted
  exact ⟨root, m, frameBase t, m', hhoused, htop, hrun, hshared ⟨0x403ff000⟩ (by decide),
    hparted ⟨0x40400000⟩ (by decide)⟩

end Machine

end BootMemory
