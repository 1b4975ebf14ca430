import BootMemory.Proofs.Ownership
import BootMemory.Proofs.Supply

/-!
# Spaces with large pages

A walk stops at an entry that maps a large page, but a release does not tell such an entry from one
that leads to a table.  So it gives back the frame of the page as if it were a table, and with it
whatever the contents of the page would be tables of.
-/

namespace BootMemory

/-- A release gives back what it comes to: the tables of the space, and what it takes for tables
behind large pages.  These are the tables, each of them once, exactly if there are no large
pages. -/
theorem releaseSpace_gives_strays {ε : Type} {m : Machine} (hwell : m.WellFormed) {root : Nat}
    (htree : m.view.Tree root) (hactive : frameBase root ≠ m.activeRoot)
    (hreleasable : m.view.Releasable m.layout.top root) :
    ∃ (m' : Machine) (order : List Nat),
      Machine.releaseSpace ⟨frameBase root⟩ m = (.ok ⟨⟩ m' : EStateM.Result (Failure ε) _ _) ∧
      m'.log = m.log ++ order.map LogEvent.freedFrame ∧
      (∀ f, f ∈ order ↔ f ∈ m.view.tables root ∨ f ∈ m.view.strays root) ∧
      m'.allocator.freeFrames =
        m.allocator.freeFrames ∪ {f | f ∈ order ∧ f ∈ m.allocator.tracked} ∧
      m'.view.byte = m.view.byte ∧
      ((order.Nodup ∧ ∀ f, f ∈ order ↔ f ∈ m.view.tables root) ↔ m.view.AllSmall root) := by
  have hlt := (htree.plain root (m.view.root_mem_tables root)).lt hwell.sound.memory
  obtain ⟨m', hrun, hview, hlog⟩ :=
    Machine.releaseSpace_of_releasable (ε := ε) hwell.sound hlt hreleasable hactive
  refine ⟨m', m.view.releaseOrder m.layout.top root, hrun, hlog,
    fun _ => View.mem_releaseOrder_iff, ?_, ?_, ?_⟩
  · rw [← Machine.view_free m', hview]
    rfl
  · rw [hview]
    rfl
  · constructor
    · rintro ⟨hnodup, htables⟩
      exact View.allSmall_of_nodup hnodup fun f hf => (htables f).mp hf
    · intro hsmall
      exact ⟨View.nodup_releaseOrder_top.mpr (View.Tree.followedOnce hsmall htree),
        fun _ => View.mem_releaseOrder_iff_tables hsmall⟩

/-! ## A large page in a space -/

namespace View

variable {v w : View} {root : Nat}

theorem tableAt_eq_of_child (hlayout : w.layout = v.layout)
    (hchild : ∀ t i, w.child t i = v.child t i) (route : Route) (depth : Nat) :
    w.tableAt root route depth = v.tableAt root route depth := by
  induction depth with
  | zero => rfl
  | succ depth ih =>
      rw [tableAt, tableAt, ih, hlayout]
      exact Option.bind_congr fun t _ => hchild t _

/-- A space stays as it is if entries change that lead to no table before and after. -/
theorem Tree.of_child_eq (htree : v.Tree root) (hlayout : w.layout = v.layout)
    (hfree : w.free ⊆ v.free) (hchild : ∀ t i, w.child t i = v.child t i) :
    w.Tree root ∧ w.tables root = v.tables root := by
  have htables : w.tables root = v.tables root := by
    simp only [tables, tableAt_eq_of_child hlayout hchild, hlayout]
  refine ⟨⟨?_, ?_, ?_⟩, htables⟩
  · rw [htables, hlayout]
    exact htree.plain
  · rw [htables]
    exact fun t ht hin => htree.taken t ht (hfree hin)
  · simp only [tableAt_eq_of_child hlayout hchild, hlayout]
    exact htree.once

theorem child_eq_none_of_isLargePage {table : Nat} {index : Fin 512}
    (hlarge : (v.entry table index).isLargePage = true) : v.child table index = none := by
  simp [child, hlarge]

end View

def largeEntry (f : Nat) : TableEntry :=
  .make (frameBase f) (EntryFlags.present.union .largePage)

theorem largePage_avoidsFrame : (EntryFlags.present.union .largePage).AvoidsFrame := by
  unfold EntryFlags.AvoidsFrame
  decide

theorem isPresent_largeEntry (f : Nat) : (largeEntry f).isPresent = true := by
  rw [TableEntry.isPresent_eq_contains, largeEntry, TableEntry.flags_make largePage_avoidsFrame]
  decide

theorem isLargePage_largeEntry (f : Nat) : (largeEntry f).isLargePage = true := by
  rw [TableEntry.isLargePage, largeEntry, TableEntry.flags_make largePage_avoidsFrame]
  decide

theorem frame_largeEntry {f : Nat} (hf : f < 2 ^ 40) : (largeEntry f).frame = f :=
  TableEntry.frame_make largePage_avoidsFrame hf

namespace View

theorem entry_take (v : View) (f count table : Nat) (index : Fin 512) :
    (v.take f count).entry table index = v.entry table index :=
  entry_congr (fun _ _ => rfl) index

/-- Enters a table `t` under the root and, in it, a large page at a cleared frame `g`. -/
def withLargePage (v : View) (root t g : Nat) (i j : Fin 512) : View :=
  ((((v.link root i t).take g 1).clear g 1)).setEntry t j (largeEntry g)

section WithLargePage

variable {v : View} {root t g : Nat} {i j k : Fin 512} (ht : t ≠ root) (hroot : g ≠ root)
  (hg : g ≠ t)

include ht hroot in
theorem entry_withLargePage_root :
    (v.withLargePage root t g i j).entry root k = (v.link root i t).entry root k := by
  rw [withLargePage, entry_setEntry_of_ne (.inl ht), entry_clear_of_ne hroot, entry_take]

include ht hg in
theorem entry_withLargePage_table :
    (v.withLargePage root t g i j).entry t k = if k = j then largeEntry g else ⟨0⟩ := by
  by_cases hk : k = j
  · rw [if_pos hk, hk, withLargePage, entry_setEntry]
  · rw [if_neg hk, withLargePage, entry_setEntry_of_ne (.inr (Ne.symm hk)), entry_clear_of_ne hg,
      entry_take, entry_link_node ht]

include hg in
theorem entry_withLargePage_frame : (v.withLargePage root t g i j).entry g k = ⟨0⟩ := by
  rw [withLargePage, entry_setEntry_of_ne (.inl (Ne.symm hg)), entry_clear]

include ht hg in
/-- The entry of the large page has no table below it, and the other entries are as they were. -/
theorem child_withLargePage (u : Nat) (k : Fin 512) :
    (v.withLargePage root t g i j).child u k =
      (((v.link root i t).take g 1).clear g 1).child u k := by
  by_cases hentry : t = u ∧ j = k
  · obtain ⟨rfl, rfl⟩ := hentry
    rw [child_eq_none_of_isLargePage, child, entry_clear_of_ne hg, entry_take, entry_link_node ht]
    · rfl
    · rw [entry_withLargePage_table ht hg, if_pos rfl, isLargePage_largeEntry]
  · apply child_congr
    rw [withLargePage, entry_setEntry_of_ne (not_and_or.mp hentry)]

include ht hroot hg in
theorem next_withLargePage (habsent : ∀ k, v.entry root k = ⟨0⟩) (htlt : t < 2 ^ 40)
    (hglt : g < 2 ^ 40) :
    ∀ a ∈ ({root, t, g} : Set Nat), ∀ k b, (v.withLargePage root t g i j).next a k = some b →
      b ∈ ({root, t, g} : Set Nat) := by
  rintro a (rfl | rfl | rfl) k b hnext
  · rw [next, entry_withLargePage_root ht hroot] at hnext
    by_cases hk : k = i
    · subst hk
      rw [link, entry_setEntry, TableEntry.isPresent_make_node,
        TableEntry.frame_make EntryFlags.node_avoidsFrame htlt] at hnext
      simp_all
    · rw [entry_link_of_ne (Ne.symm ht) (.inr hk), habsent k] at hnext
      contradiction
  · rw [next, entry_withLargePage_table ht hg] at hnext
    by_cases hk : k = j
    · rw [if_pos hk, isPresent_largeEntry, frame_largeEntry hglt] at hnext
      simp_all
    · rw [if_neg hk] at hnext
      contradiction
  · rw [next, entry_withLargePage_frame hg] at hnext
    contradiction

end WithLargePage

section Space

variable {v : View} {root t g : Nat} (hsound : v.Sound) (htree : v.Tree root)
  (habsent : ∀ k, v.entry root k = ⟨0⟩) (ht : t ∈ v.free) (hg : g ∈ (v.link root 0 t).free)

include htree ht in
theorem ne_root_of_free : t ≠ root := by
  rintro rfl
  exact htree.taken t (root_mem_tables v t) ht

include hsound htree habsent ht in
theorem grown_link_root : Grown root v (v.link root 0 t) := by
  have htop := v.layout.top_eq
  have hgap : Gap v root (fun _ => 0) 0 root := ⟨by omega, rfl, by rw [habsent]; rfl⟩
  exact hgap.grown_link htree hsound ht

include hsound htree habsent ht hg in
theorem tree_withLargePage :
    (v.withLargePage root t g 0 0).Tree root ∧
      g ∉ (v.withLargePage root t g 0 0).tables root := by
  have htr : t ≠ root := ne_root_of_free htree ht
  have hgt : g ≠ t := fun heq => hg.2 (Set.mem_Ico.mpr (by omega))
  have hlinked := (grown_link_root hsound htree habsent ht).tree
  have hapart : g ∉ (v.link root 0 t).tables root := fun hin => hlinked.taken g hin hg
  have hsame := SameTables.take_clear hapart
  have hcleared := hsame.tree hlinked fun u hu hin => hlinked.taken u hu hin.1
  have hfree : (v.withLargePage root t g 0 0).free =
      (((v.link root 0 t).take g 1).clear g 1).free := by
    rw [withLargePage, setEntry, writeWord, free_write]
  have hlayout : (v.withLargePage root t g 0 0).layout =
      (((v.link root 0 t).take g 1).clear g 1).layout := by
    rw [withLargePage, setEntry, writeWord, layout_write]
  obtain ⟨htree', htables⟩ :=
    hcleared.of_child_eq hlayout (le_of_eq hfree) (child_withLargePage htr hgt)
  refine ⟨htree', ?_⟩
  rw [htables, hsame.tables_eq]
  exact hapart

include hsound htree ht hg in
theorem mem_strays_withLargePage : g ∈ (v.withLargePage root t g 0 0).strays root := by
  have htr : t ≠ root := ne_root_of_free htree ht
  have hgr : g ≠ root := ne_root_of_free htree hg.1
  have hgt : g ≠ t := fun heq => hg.2 (Set.mem_Ico.mpr (by omega))
  have hlt := (hsound.plain g hg.1).lt hsound.memory
  have htop := v.layout.top_eq
  have hreach : (v.withLargePage root t g 0 0).tableAt root (fun _ => 0) 1 = some t := by
    have hentry : (v.withLargePage root t g 0 0).entry root 0 = (v.link root 0 t).entry root 0 :=
      entry_withLargePage_root htr hgr
    rw [tableAt, tableAt, Option.bind_some, child_congr hentry]
    exact child_link ((hsound.plain t ht).lt hsound.memory)
  refine mem_strays_iff.mpr ⟨fun _ => 0, 1, t, 0, [], ?_, hreach, ?_, ?_, ?_⟩
  · change 1 + 1 + 0 < v.layout.top
    omega
  all_goals rw [entry_withLargePage_table htr hgt, if_pos rfl]
  · exact isPresent_largeEntry g
  · exact isLargePage_largeEntry g
  · rw [frame_largeEntry hlt, follow]

include hsound htree habsent ht hg in
theorem releasable_withLargePage :
    (v.withLargePage root t g 0 0).Releasable v.layout.top root := by
  have htr : t ≠ root := ne_root_of_free htree ht
  have hgt : g ≠ t := fun heq => hg.2 (Set.mem_Ico.mpr (by omega))
  have hgr : g ≠ root := ne_root_of_free htree hg.1
  have hclosed := next_withLargePage (i := 0) (j := 0) htr hgr hgt habsent
    ((hsound.plain t ht).lt hsound.memory) ((hsound.plain g hg.1).lt hsound.memory)
  have hplain : ∀ {path f}, (v.withLargePage root t g 0 0).follow root path = some f →
      v.layout.Plain f := by
    intro path f hpath
    rcases mem_of_follow hclosed (by simp) hpath with rfl | rfl | rfl
    · exact htree.plain _ (root_mem_tables v _)
    · exact hsound.plain _ ht
    · exact hsound.plain _ hg.1
  constructor
  · exact fun path f _ hpath => hplain hpath
  · intro f hf _
    obtain ⟨path, _, hpath⟩ := mem_releaseOrder_top (v := v.withLargePage root t g 0 0).mp hf
    exact hplain hpath

end Space

end View

/-- The small machine with a table under the root of a new space and, in it, a large page at a
frame that a client holds. -/
theorem exists_withLargePage :
    ∃ (m₁ m : Machine) (root t g : Nat), m₁.WellFormed ∧ m₁.view.Tree root ∧ root ≠ 0 ∧
      (∀ i, m₁.view.entry root i = ⟨0⟩) ∧ t ∈ m₁.view.free ∧
      g ∈ (m₁.view.link root 0 t).free ∧ m.view = m₁.view.withLargePage root t g 0 0 := by
  have hsize : (⟨⟨0⟩, ⟨Array.replicate 0x10000 0⟩⟩ : Memory).size = 0x10000 :=
    Array.size_replicate
  have hbase : (⟨⟨0⟩, ⟨Array.replicate 0x10000 0⟩⟩ : Memory).base = ⟨0⟩ := rfl
  generalize (⟨⟨0⟩, ⟨Array.replicate 0x10000 0⟩⟩ : Memory) = memory at hsize hbase
  obtain ⟨log, root, m₁, hwell, hzero, hview₁, htree, _, hsupplied⟩ :=
    exists_newRoot_sixteenFrameMachine hbase hsize
  have hroot := htree.plain root (m₁.view.root_mem_tables root)
  have habsent : ∀ i, m₁.view.entry root i = ⟨0⟩ := by
    intro i
    rw [hview₁, View.newRoot, View.entry_clear]
  -- a table under the root
  have htable : ∃ t, ∃ m₂ : Machine, t ∈ m₁.view.free ∧ m₂.view = m₁.view.link root 0 t := by
    rcases Machine.child_of_absent hwell.sound hroot ⟨0⟩ 1 (by rw [habsent]; rfl) with
      ⟨t, m₂, ht, _, hview₂⟩ | ⟨_, _, _, _, hnone⟩
    · exact ⟨t, m₂, ht, hview₂⟩
    · exact absurd hnone hsupplied.free_ne_empty
  obtain ⟨t, m₂, ht, hview₂⟩ := htable
  have hsound₂ : m₂.view.Sound := hwell.sound.of_free_subset (by rw [hview₂]; rfl)
    (by rw [hview₂]; exact Set.sdiff_subset)
  have hsupplied₂ : m₂.view.Supplied 13 := by
    apply (View.Supplied.take (show m₁.view.Supplied (1 + 13) from hsupplied) t).of_free_eq
    rw [hview₂]
    rfl
  -- a frame for the client, cleared
  rcases Machine.newTable_run hsound₂ with ⟨_, _, _, _, hnone⟩ | ⟨g, m₃, hg, _, hview₃⟩
  · exact absurd hnone hsupplied₂.free_ne_empty
  have hsound₃ : m₃.view.Sound := hsound₂.of_free_subset (by rw [hview₃]; rfl)
    (by rw [hview₃]; exact Set.sdiff_subset)
  have hlayout₃ : m₃.layout = m₁.layout := by
    rw [← Machine.view_layout m₃, hview₃, hview₂]
    rfl
  have htPlain : m₃.layout.Plain t := hlayout₃ ▸ hwell.sound.plain t ht
  -- the entry that the client makes
  obtain ⟨m, _, hview⟩ := Machine.writeEntry_run (ε := MapError) hsound₃ htPlain 0 (largeEntry g)
  refine ⟨m₁, m, root, t, g, hwell, htree, hzero, habsent, ht, hview₂ ▸ hg, ?_⟩
  rw [hview, hview₃, hview₂, View.withLargePage]

/-- A client loses a frame that it holds to the release of a space with a large page there. -/
theorem releaseSpace_gives_strays_client :
    ∃ (m m' : Machine) (root client : Nat), m.WellFormed ∧ m.view.Tree root ∧
      client ∉ m.view.tables root ∧ client ∉ m.allocator.freeFrames ∧
      Machine.releaseSpace ⟨frameBase root⟩ m =
        (.ok ⟨⟩ m' : EStateM.Result (Failure MapError) _ _) ∧
      client ∈ m'.allocator.freeFrames := by
  obtain ⟨m₁, m₀, root, t, g, hwell₁, htree₁, hzero, habsent, ht, hg, hview⟩ :=
    exists_withLargePage
  have hview : ({ m₀ with activeRoot := ⟨0⟩ } : Machine).view = _ := hview
  generalize hm : ({ m₀ with activeRoot := ⟨0⟩ } : Machine) = m at hview
  have hsound := hwell₁.sound
  obtain ⟨htree, hclient⟩ := View.tree_withLargePage hsound htree₁ habsent ht hg
  have hstray := View.mem_strays_withLargePage hsound htree₁ ht hg
  have hlayout : m.layout = m₁.layout := congrArg View.layout hview
  have hfree : m.view.free = (m₁.view.link root 0 t).free \ Set.Ico g (g + 1) :=
    congrArg View.free hview
  have hwell : m.WellFormed := hwell₁.of_view hlayout fun f hf => by
    rw [hfree] at hf
    exact hf.1.1
  have hreleasable : m.view.Releasable m.layout.top root := by
    rw [hlayout, hview]
    exact View.releasable_withLargePage hsound htree₁ habsent ht hg
  rw [← hview] at htree hclient hstray
  have hroot := (htree.plain root (View.root_mem_tables _ root)).lt hwell.sound.memory
  have hactive : frameBase root ≠ m.activeRoot := by
    have hactive : m.activeRoot = ⟨0⟩ := by
      rw [← hm]
    have hpage : (⟨0⟩ : PhysAddr).page = 0 := rfl
    rw [hactive]
    intro heq
    rw [← heq, page_frameBase (lt_trans hroot (by decide))] at hpage
    exact hzero hpage
  obtain ⟨m', order, hrun, _, horder, hfree', _⟩ :=
    releaseSpace_gives_strays (ε := MapError) hwell htree hactive hreleasable
  have htracked : g ∈ m.layout.tracked := hlayout ▸ hg.1.1
  refine ⟨m, m', root, g, hwell, htree, hclient, ?_, hrun, ?_⟩
  · change g ∉ m.view.free
    rw [hfree]
    exact fun hin => hin.2 (Set.mem_Ico.mpr (by omega))
  · rw [hfree']
    exact .inr ⟨(horder g).mpr (.inr hstray), htracked⟩

end BootMemory
