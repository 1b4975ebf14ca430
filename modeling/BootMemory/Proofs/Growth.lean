import BootMemory.Proofs.Tree

/-!
# Growing a space

A space changes in two ways only.  A fresh cleared table is linked under an entry that is not
present: this adds one table and moves no page.  A leaf entry is written: this moves the pages on
its route and adds no table.  Either way the bytes outside the tables of the space are kept, so
what happens to one space is not seen by a space that shares no table with it.
-/

namespace BootMemory

namespace View

/-- Work that stays in the tables of a space and in frames that were free. -/
structure Confined (root : Nat) (v w : View) : Prop where
  layout : w.layout = v.layout
  free : w.free ⊆ v.free
  fresh : w.tables root ⊆ v.tables root ∪ v.free
  kept : ∀ a, a / 4096 ∉ v.free → a / 4096 ∉ v.tables root → w.byte a = v.byte a
  tree : w.Tree root

namespace Confined

variable {root other : Nat} {u v w : View}

theorem trans (hfirst : Confined root u v) (hrest : Confined root v w) : Confined root u w where
  layout := hrest.layout.trans hfirst.layout
  free := hrest.free.trans hfirst.free
  fresh := by
    intro t ht
    rcases hrest.fresh ht with hold | hfree
    · exact hfirst.fresh hold
    · exact .inr (hfirst.free hfree)
  kept := by
    intro a hfree htables
    rw [hrest.kept a fun hin => hfree (hfirst.free hin)]
    · exact hfirst.kept a hfree htables
    · exact fun hin => (hfirst.fresh hin).elim htables hfree
  tree := hrest.tree

theorem sound (hconfined : Confined root v w) (hsound : v.Sound) : w.Sound :=
  hsound.of_free_subset hconfined.layout hconfined.free

theorem not_mem_tables (hconfined : Confined root v w) {f : Nat} (htables : f ∉ v.tables root)
    (hfree : f ∉ v.free) : f ∉ w.tables root := by
  intro hin
  rcases hconfined.fresh hin with hold | hfresh
  · exact htables hold
  · exact hfree hfresh

theorem sameTables (hconfined : Confined root v w) (hother : v.Tree other)
    (hdisjoint : Disjoint (v.tables root) (v.tables other)) : SameTables v w other := by
  apply SameTables.of_bytes hconfined.layout
  intro a ha
  exact hconfined.kept a (hother.taken _ ha) fun hin => Set.disjoint_left.mp hdisjoint hin ha

theorem disjoint_other (hconfined : Confined root v w) (hother : v.Tree other)
    (hdisjoint : Disjoint (v.tables root) (v.tables other)) :
    Disjoint (w.tables root) (w.tables other) := by
  rw [(hconfined.sameTables hother hdisjoint).tables_eq, Set.disjoint_left]
  intro t ht hin
  exact hconfined.not_mem_tables (fun hmem => Set.disjoint_left.mp hdisjoint hmem hin)
    (hother.taken t hin) ht

end Confined

/-- What mapping work in a space leaves as it is: it takes free frames as tables of the space,
writes in tables of the space alone, and enters no large pages. -/
structure Grown (root : Nat) (v w : View) : Prop where
  layout : w.layout = v.layout
  free : w.free ⊆ v.free
  tables : v.tables root ⊆ w.tables root
  fresh : w.tables root ⊆ v.tables root ∪ v.free
  taken : v.free ⊆ w.free ∪ w.tables root
  bytes : ∀ a, a / 4096 ∉ w.tables root → w.byte a = v.byte a
  tree : w.Tree root
  small : v.AllSmall root → w.AllSmall root

namespace Grown

variable {root : Nat} {u v w : View}

theorem refl (htree : v.Tree root) : Grown root v v where
  layout := rfl
  free := subset_rfl
  tables := subset_rfl
  fresh := Set.subset_union_left
  taken := Set.subset_union_left
  bytes := fun _ _ => rfl
  tree := htree
  small := id

theorem trans (huv : Grown root u v) (hvw : Grown root v w) : Grown root u w where
  layout := hvw.layout.trans huv.layout
  free := hvw.free.trans huv.free
  tables := huv.tables.trans hvw.tables
  fresh := by
    intro t ht
    rcases hvw.fresh ht with hold | hfree
    · exact huv.fresh hold
    · exact .inr (huv.free hfree)
  taken := by
    intro f hf
    rcases huv.taken hf with hfree | htable
    · exact hvw.taken hfree
    · exact .inr (hvw.tables htable)
  bytes := by
    intro a ha
    rw [hvw.bytes a ha, huv.bytes a (fun hin => ha (hvw.tables hin))]
  tree := hvw.tree
  small := fun hsmall => hvw.small (huv.small hsmall)

theorem sound (hgrown : Grown root v w) (hsound : v.Sound) : w.Sound :=
  hsound.of_free_subset hgrown.layout hgrown.free

theorem byte_eq (hgrown : Grown root v w) {a : Nat} (htables : a / 4096 ∉ v.tables root)
    (hfree : a / 4096 ∉ v.free) : w.byte a = v.byte a := by
  apply hgrown.bytes
  intro hin
  rcases hgrown.fresh hin with hold | hfresh
  · exact htables hold
  · exact hfree hfresh

theorem invalidate (hgrown : Grown root v w) (page : VirtAddr) :
    Grown root v (w.invalidate page) := by
  have hsame : SameTables w (w.invalidate page) root := .of_bytes rfl (fun _ _ => rfl)
  constructor
  · exact hgrown.layout
  · exact hgrown.free
  · rw [hsame.tables_eq]
    exact hgrown.tables
  · rw [hsame.tables_eq]
    exact hgrown.fresh
  · rw [hsame.tables_eq]
    exact hgrown.taken
  · rw [hsame.tables_eq]
    exact hgrown.bytes
  · exact hsame.tree hgrown.tree hgrown.tree.taken
  · intro hsmall
    exact hsame.allSmall (hgrown.small hsmall)

theorem confined (hgrown : Grown root v w) : Confined root v w where
  layout := hgrown.layout
  free := hgrown.free
  fresh := hgrown.fresh
  kept := fun _ hfree htables => hgrown.byte_eq htables hfree
  tree := hgrown.tree

theorem not_mem_tables (hgrown : Grown root v w) {f : Nat} (htables : f ∉ v.tables root)
    (hfree : f ∉ v.free) : f ∉ w.tables root :=
  hgrown.confined.not_mem_tables htables hfree

theorem sameTables (hgrown : Grown root v w) {other : Nat} (hother : v.Tree other)
    (hdisjoint : Disjoint (v.tables root) (v.tables other)) : SameTables v w other :=
  hgrown.confined.sameTables hother hdisjoint

end Grown

/-! ## Linking a table -/

/-- Takes the frame `node`, clears it and enters it as a table. -/
def link (v : View) (table : Nat) (index : Fin 512) (node : Nat) : View :=
  ((v.take node 1).clear node 1).setEntry table index (TableEntry.make (frameBase node) .node)

section Link

variable {v : View} {table node t : Nat} {index i : Fin 512}

theorem entry_link_of_ne (hnode : t ≠ node) (hne : t ≠ table ∨ i ≠ index) :
    (v.link table index node).entry t i = v.entry t i := by
  unfold link
  rw [entry_setEntry_of_ne (hne.imp Ne.symm Ne.symm), entry_clear_of_ne hnode.symm]
  rfl

theorem child_link (hlt : node < 2 ^ 40) :
    (v.link table index node).child table index = some node := by
  unfold child link
  rw [entry_setEntry, TableEntry.isPresent_make_node, TableEntry.isLargePage_make_node,
    TableEntry.frame_make EntryFlags.node_avoidsFrame hlt]
  rfl

theorem entry_link_node (hne : node ≠ table) :
    (v.link table index node).entry node i = ⟨0⟩ := by
  unfold link
  rw [entry_setEntry_of_ne (.inl hne.symm), entry_clear]

theorem child_link_node (hne : node ≠ table) : (v.link table index node).child node i = none := by
  unfold child
  rw [entry_link_node hne]
  rfl

theorem byte_link_of_ne {a : Nat} (hnode : a / 4096 ≠ node) (htable : a / 4096 ≠ table) :
    (v.link table index node).byte a = v.byte a := by
  unfold link
  rw [byte_setEntry_of_ne htable, byte_clear, if_neg (by omega)]
  rfl

end Link

/-- A place for a table that is missing: the entry on the route is not present in a table above
the lowest level. -/
structure Gap (v : View) (root : Nat) (route : Route) (depth table : Nat) : Prop where
  above : depth + 1 < v.layout.top
  reached : v.tableAt root route depth = some table
  absent : (v.entry table (route (v.layout.top - depth))).isPresent = false

namespace Gap

variable {v : View} {root table depth node : Nat} {route q : Route}

theorem table_mem (hgap : Gap v root route depth table) : table ∈ v.tables root :=
  mem_tables (lt_trans (Nat.lt_succ_self depth) hgap.above) hgap.reached

theorem table_ne (hgap : Gap v root route depth table) (htree : v.Tree root)
    (hnode : node ∈ v.free) : node ≠ table := by
  intro heq
  exact htree.taken table hgap.table_mem (heq ▸ hnode)

theorem tableAt_beyond (hgap : Gap v root route depth table)
    (hagree : Route.Agree v.layout.top (depth + 1) q route) {e : Nat} (he : depth < e) :
    v.tableAt root q e = none := by
  induction e with
  | zero => omega
  | succ e ih =>
      rcases Nat.lt_succ_iff_lt_or_eq.mp he with hlt | rfl
      · rw [tableAt, ih hlt]
        rfl
      · rw [Route.agree_succ] at hagree
        rw [tableAt, tableAt_congr hagree.1, hgap.reached, Option.bind_some, hagree.2, child,
          hgap.absent]
        rfl

/-- Paths that do not lead through the gap reach what they reached before. -/
theorem tableAt_link_of_aside (hgap : Gap v root route depth table) (htree : v.Tree root)
    (hnode : node ∈ v.free) {e : Nat} (he : e < v.layout.top)
    (haside : e ≤ depth ∨ ¬Route.Agree v.layout.top (depth + 1) q route) :
    (v.link table (route (v.layout.top - depth)) node).tableAt root q e = v.tableAt root q e := by
  induction e with
  | zero => rfl
  | succ e ih =>
      have hbefore := ih (by omega) (haside.imp_left (fun hle => by omega))
      rw [tableAt, tableAt, hbefore]
      apply Option.bind_congr
      intro t ht
      apply child_congr
      apply entry_link_of_ne
      · rintro rfl
        exact htree.taken _ (mem_tables (by omega) ht) hnode
      · by_contra hboth
        rw [not_or, not_not, not_not] at hboth
        obtain ⟨heq, hindex⟩ := hboth
        obtain ⟨rfl, hagree⟩ := htree.once q route e depth table (by omega)
          (lt_trans (Nat.lt_succ_self depth) hgap.above) (heq ▸ ht) hgap.reached
        rcases haside with hle | hnot
        · omega
        · exact hnot (Route.agree_succ.mpr ⟨hagree, hindex⟩)

theorem tableAt_link_node (hgap : Gap v root route depth table) (htree : v.Tree root)
    (hnode : node ∈ v.free) (hlt : node < 2 ^ 40)
    (hagree : Route.Agree v.layout.top (depth + 1) q route) :
    (v.link table (route (v.layout.top - depth)) node).tableAt root q (depth + 1) = some node := by
  have habove := hgap.above
  have hbefore := hgap.tableAt_link_of_aside (q := q) htree hnode (e := depth) (by omega)
    (.inl (le_refl depth))
  rw [Route.agree_succ] at hagree
  rw [tableAt, hbefore, tableAt_congr hagree.1, hgap.reached, Option.bind_some]
  change (v.link table _ node).child table (q (v.layout.top - depth)) = some node
  rw [hagree.2]
  exact child_link hlt

theorem tableAt_link_beyond (hgap : Gap v root route depth table) (htree : v.Tree root)
    (hnode : node ∈ v.free) (hlt : node < 2 ^ 40)
    (hagree : Route.Agree v.layout.top (depth + 1) q route) {e : Nat} (he : depth + 1 < e) :
    (v.link table (route (v.layout.top - depth)) node).tableAt root q e = none := by
  induction e with
  | zero => omega
  | succ e ih =>
      rcases Nat.lt_succ_iff_lt_or_eq.mp he with hless | rfl
      · rw [tableAt, ih hless]
        rfl
      · rw [tableAt, hgap.tableAt_link_node htree hnode hlt hagree, Option.bind_some]
        exact child_link_node (hgap.table_ne htree hnode)

/-- What a route reaches after the link: what it reached before, or the linked table. -/
theorem tableAt_link_eq_some (hgap : Gap v root route depth table) (htree : v.Tree root)
    (hnode : node ∈ v.free) (hlt : node < 2 ^ 40) {e t : Nat} (he : e < v.layout.top)
    (hreach : (v.link table (route (v.layout.top - depth)) node).tableAt root q e = some t) :
    v.tableAt root q e = some t ∨
      t = node ∧ e = depth + 1 ∧ Route.Agree v.layout.top (depth + 1) q route := by
  by_cases haside : e ≤ depth ∨ ¬Route.Agree v.layout.top (depth + 1) q route
  · exact .inl ((hgap.tableAt_link_of_aside htree hnode he haside).symm.trans hreach)
  · rw [not_or, not_not, Nat.not_le] at haside
    obtain ⟨hbeyond, hagree⟩ := haside
    rcases Nat.lt_or_eq_of_le (Nat.succ_le_of_lt hbeyond) with hless | heq
    · rw [hgap.tableAt_link_beyond htree hnode hlt hagree hless] at hreach
      contradiction
    · have he : e = depth + 1 := heq.symm
      rw [he, hgap.tableAt_link_node htree hnode hlt hagree] at hreach
      exact .inr ⟨(Option.some.inj hreach).symm, he, hagree⟩

theorem tableAt_link_of_eq_some (hgap : Gap v root route depth table) (htree : v.Tree root)
    (hnode : node ∈ v.free) {e t : Nat} (he : e < v.layout.top)
    (hreach : v.tableAt root q e = some t) :
    (v.link table (route (v.layout.top - depth)) node).tableAt root q e = some t := by
  refine (hgap.tableAt_link_of_aside htree hnode he ?_).trans hreach
  by_contra hthrough
  rw [not_or, not_not, Nat.not_le] at hthrough
  rw [hgap.tableAt_beyond hthrough.2 hthrough.1] at hreach
  contradiction

theorem tables_link (hgap : Gap v root route depth table) (htree : v.Tree root)
    (hnode : node ∈ v.free) (hlt : node < 2 ^ 40) :
    (v.link table (route (v.layout.top - depth)) node).tables root =
      insert node (v.tables root) := by
  have habove := hgap.above
  ext t
  rw [Set.mem_insert_iff]
  constructor
  · rintro ⟨q, e, he, hreach⟩
    rcases hgap.tableAt_link_eq_some htree hnode hlt he hreach with hold | ⟨hnew, _, _⟩
    · exact .inr ⟨q, e, he, hold⟩
    · exact .inl hnew
  · rintro (rfl | ⟨q, e, he, hold⟩)
    · exact ⟨route, depth + 1, habove,
        hgap.tableAt_link_node htree hnode hlt (fun _ _ => rfl)⟩
    · exact ⟨q, e, he, hgap.tableAt_link_of_eq_some htree hnode he hold⟩

theorem tree_link (hgap : Gap v root route depth table) (htree : v.Tree root) (hsound : v.Sound)
    (hnode : node ∈ v.free) :
    (v.link table (route (v.layout.top - depth)) node).Tree root := by
  have hplain := hsound.plain node hnode
  have hlt := hplain.lt hsound.memory
  have htables := hgap.tables_link htree hnode hlt
  constructor
  · rw [htables]
    rintro t (rfl | hold)
    · exact hplain
    · exact htree.plain t hold
  · rw [htables]
    rintro t (rfl | hold) hfree
    · exact hfree.2 (Set.mem_Ico.mpr ⟨le_refl t, Nat.lt_succ_self t⟩)
    · exact htree.taken t hold hfree.1
  · intro p q d e t hd he hp hq
    rcases hgap.tableAt_link_eq_some htree hnode hlt hd hp with hpold | ⟨hpnew, hd', hpagree⟩ <;>
      rcases hgap.tableAt_link_eq_some htree hnode hlt he hq with hqold | ⟨hqnew, he', hqagree⟩
    · exact htree.once p q d e t hd he hpold hqold
    · exact absurd (hqnew ▸ mem_tables hd hpold) (fun hmem => htree.taken _ hmem hnode)
    · exact absurd (hpnew ▸ mem_tables he hqold) (fun hmem => htree.taken _ hmem hnode)
    · refine ⟨hd'.trans he'.symm, ?_⟩
      rw [hd']
      exact fun k hk => (hpagree k hk).trans (hqagree k hk).symm

theorem allSmall_link (hgap : Gap v root route depth table) (htree : v.Tree root)
    (hnode : node ∈ v.free) (hlt : node < 2 ^ 40) (hsmall : v.AllSmall root) :
    (v.link table (route (v.layout.top - depth)) node).AllSmall root := by
  intro q e t i he hreach hpresent
  have hne := hgap.table_ne htree hnode
  rcases hgap.tableAt_link_eq_some htree hnode hlt (Nat.lt_of_succ_lt he) hreach with
    hold | ⟨rfl, _, _⟩
  · by_cases hslot : t = table ∧ i = route (v.layout.top - depth)
    · obtain ⟨rfl, rfl⟩ := hslot
      unfold link
      rw [entry_setEntry, TableEntry.isLargePage_make_node]
    · have hnew : t ≠ node := by
        rintro rfl
        exact htree.taken _ (mem_tables (Nat.lt_of_succ_lt he) hold) hnode
      rw [not_and_or] at hslot
      rw [entry_link_of_ne hnew hslot] at hpresent ⊢
      exact hsmall q e t i he hold hpresent
  · rw [entry_link_node hne] at hpresent
    contradiction

theorem grown_link (hgap : Gap v root route depth table) (htree : v.Tree root) (hsound : v.Sound)
    (hnode : node ∈ v.free) :
    Grown root v (v.link table (route (v.layout.top - depth)) node) := by
  have hlt := (hsound.plain node hnode).lt hsound.memory
  have htables := hgap.tables_link htree hnode hlt
  constructor
  · rfl
  · exact Set.sdiff_subset
  · rw [htables]
    exact Set.subset_insert node _
  · rw [htables]
    rintro t (rfl | hold)
    · exact .inr hnode
    · exact .inl hold
  · rw [htables]
    intro f hf
    by_cases heq : f = node
    · exact .inr (.inl heq)
    · exact .inl ⟨hf, fun hin => heq (by rw [Set.mem_Ico] at hin; omega)⟩
  · rw [htables]
    intro a ha
    apply byte_link_of_ne
    · exact fun heq => ha (.inl heq)
    · exact fun heq => ha (.inr (heq ▸ hgap.table_mem))
  · exact hgap.tree_link htree hsound hnode
  · exact hgap.allSmall_link htree hnode hlt

theorem lookup_link (hgap : Gap v root route depth table) (htree : v.Tree root)
    (hnode : node ∈ v.free) (hlt : node < 2 ^ 40) (q : Route) :
    (v.link table (route (v.layout.top - depth)) node).lookup root q = v.lookup root q := by
  have habove := hgap.above
  have hleaf : v.layout.top - 1 < v.layout.top := by
    omega
  change ((v.link table _ node).tableAt root q (v.layout.top - 1)).bind _ = _
  by_cases hthrough : Route.Agree v.layout.top (depth + 1) q route
  · have hbefore : v.lookup root q = none := by
      rw [lookup, hgap.tableAt_beyond hthrough (by omega)]
      rfl
    rw [hbefore]
    rcases Nat.lt_or_eq_of_le (Nat.le_sub_one_of_lt habove) with hless | heq
    · rw [hgap.tableAt_link_beyond htree hnode hlt hthrough hless]
      rfl
    · rw [← heq, hgap.tableAt_link_node htree hnode hlt hthrough, Option.bind_some,
        entry_link_node (hgap.table_ne htree hnode)]
      rfl
  · rw [hgap.tableAt_link_of_aside htree hnode hleaf (.inr hthrough), lookup]
    apply Option.bind_congr
    intro t ht
    rw [entry_link_of_ne]
    · rintro rfl
      exact htree.taken _ (mem_tables hleaf ht) hnode
    · left
      rintro rfl
      have honce := (htree.once q route _ depth t hleaf (by omega) ht hgap.reached).1
      omega

end Gap

/-! ## Links along a route -/

/-- The tables that are missing on a route are linked one after the other. -/
inductive Extended (root : Nat) (route : Route) : View → View → Prop
  | refl (v : View) : Extended root route v v
  | link {v w : View} {depth table node : Nat} (hgap : Gap v root route depth table)
      (hnode : node ∈ v.free)
      (hrest : Extended root route (v.link table (route (v.layout.top - depth)) node) w) :
      Extended root route v w

namespace Extended

variable {root : Nat} {route : Route} {v w : View}

theorem grown (hextended : Extended root route v w) (htree : v.Tree root) (hsound : v.Sound) :
    Grown root v w := by
  induction hextended with
  | refl v => exact Grown.refl htree
  | link hgap hnode _ ih =>
      have hgrown := hgap.grown_link htree hsound hnode
      exact hgrown.trans (ih hgrown.tree (hgrown.sound hsound))

theorem invalidated_eq (hextended : Extended root route v w) : w.invalidated = v.invalidated := by
  induction hextended with
  | refl v => rfl
  | link _ _ _ ih => exact ih

theorem lookup_eq (hextended : Extended root route v w) (htree : v.Tree root) (hsound : v.Sound)
    (q : Route) : w.lookup root q = v.lookup root q := by
  induction hextended with
  | refl v => rfl
  | link hgap hnode _ ih =>
      have hgrown := hgap.grown_link htree hsound hnode
      have hlt := (hsound.plain _ hnode).lt hsound.memory
      rw [ih hgrown.tree (hgrown.sound hsound), hgap.lookup_link htree hnode hlt]

end Extended

/-! ## Writing a leaf -/

section Leaf

variable {v : View} {root table : Nat} {route q : Route} {e : TableEntry}

theorem tableAt_setLeaf (htree : v.Tree root)
    (hleaf : v.tableAt root route (v.layout.top - 1) = some table) (index : Fin 512) (q : Route)
    {depth : Nat} (hdepth : depth < v.layout.top) :
    (v.setEntry table index e).tableAt root q depth = v.tableAt root q depth := by
  apply tableAt_eq_of_entries (v := v) (w := v.setEntry table index e) rfl ?_ q hdepth
  intro p d t hd hreach
  apply child_congr
  apply entry_setEntry_of_ne
  left
  rintro rfl
  have hsame := (htree.once p route d (v.layout.top - 1) table (by omega) (by omega) hreach hleaf).1
  omega

theorem tables_setLeaf (htree : v.Tree root)
    (hleaf : v.tableAt root route (v.layout.top - 1) = some table) (index : Fin 512) :
    (v.setEntry table index e).tables root = v.tables root := by
  ext t
  constructor
  · rintro ⟨q, d, hd, hreach⟩
    exact ⟨q, d, hd, (tableAt_setLeaf htree hleaf index q hd).symm.trans hreach⟩
  · rintro ⟨q, d, hd, hreach⟩
    exact ⟨q, d, hd, (tableAt_setLeaf htree hleaf index q hd).trans hreach⟩

theorem allSmall_setLeaf (htree : v.Tree root)
    (hleaf : v.tableAt root route (v.layout.top - 1) = some table) (index : Fin 512)
    (hsmall : v.AllSmall root) : (v.setEntry table index e).AllSmall root := by
  intro p d t i hd hreach
  change d + 1 < v.layout.top at hd
  rw [tableAt_setLeaf htree hleaf index p (by omega)] at hreach
  rw [entry_setEntry_of_ne]
  · exact hsmall p d t i hd hreach
  · left
    rintro rfl
    have hsame := (htree.once p route d (v.layout.top - 1) table (by omega) (by omega) hreach
      hleaf).1
    omega

theorem grown_setLeaf (htree : v.Tree root)
    (hleaf : v.tableAt root route (v.layout.top - 1) = some table) (index : Fin 512) :
    Grown root v (v.setEntry table index e) := by
  have htables := tables_setLeaf (e := e) htree hleaf index
  have hlast : v.layout.top - 1 < v.layout.top := by
    rcases v.layout.top_eq with htop | htop <;> omega
  constructor
  · rfl
  · exact subset_rfl
  · rw [htables]
  · rw [htables]
    exact Set.subset_union_left
  · exact Set.subset_union_left
  · intro a ha
    rw [htables] at ha
    apply byte_setEntry_of_ne
    rintro rfl
    exact ha (mem_tables hlast hleaf)
  · constructor
    · rw [htables]
      exact htree.plain
    · rw [htables]
      exact htree.taken
    · intro p q d e t hd he hp hq
      rw [tableAt_setLeaf htree hleaf index p hd] at hp
      rw [tableAt_setLeaf htree hleaf index q he] at hq
      exact htree.once p q d e t hd he hp hq
  · exact allSmall_setLeaf htree hleaf index

/-- Writing the leaf entry of a route moves the pages on this route alone. -/
theorem lookup_setLeaf (htree : v.Tree root)
    (hleaf : v.tableAt root route (v.layout.top - 1) = some table) (q : Route) :
    (v.setEntry table (route 1) e).lookup root q =
      if Route.Agree v.layout.top v.layout.top q route then leafTarget e else v.lookup root q := by
  have hlast : v.layout.top - 1 < v.layout.top := by
    rcases v.layout.top_eq with htop | htop <;> omega
  have hsplit : Route.Agree v.layout.top v.layout.top q route ↔
      Route.Agree v.layout.top (v.layout.top - 1) q route ∧ q 1 = route 1 := by
    have hsucc : Route.Agree v.layout.top (v.layout.top - 1 + 1) q route ↔ _ :=
      Route.agree_succ
    rwa [show v.layout.top - 1 + 1 = v.layout.top by omega,
      show v.layout.top - (v.layout.top - 1) = 1 by omega] at hsucc
  have hreach := tableAt_setLeaf (e := e) htree hleaf (route 1) q hlast
  change ((v.setEntry table (route 1) e).tableAt root q (v.layout.top - 1)).bind _ = _
  rw [hreach]
  by_cases hagree : Route.Agree v.layout.top v.layout.top q route
  · obtain ⟨habove, hindex⟩ := hsplit.mp hagree
    rw [if_pos hagree, tableAt_congr habove, hleaf, Option.bind_some, hindex, entry_setEntry]
  · rw [if_neg hagree, lookup]
    apply Option.bind_congr
    intro t ht
    rw [entry_setEntry_of_ne]
    by_contra hboth
    rw [not_or, not_not, not_not] at hboth
    obtain ⟨rfl, hindex⟩ := hboth
    obtain ⟨_, habove⟩ := htree.once q route _ _ table hlast hlast ht hleaf
    exact hagree (hsplit.mpr ⟨habove, hindex.symm⟩)

end Leaf

end View

end BootMemory
