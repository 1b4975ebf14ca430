import BootMemory.Proofs.Growth

/-!
# The tables on a path

The tables that a route reaches are its path: the root, and one table for each level down to the
first entry that leads to no table.  A path ends at the lowest level, in a gap, or at a large page.
Only in a gap can it be made longer, and the tables that are linked there stand at its end, in the
order in which they were taken.
-/

namespace BootMemory

namespace View

/-- The tables that a route reaches, from the root down. -/
def pathTables (v : View) (root : Nat) (route : Route) : List Nat :=
  (List.range v.layout.top).filterMap (v.tableAt root route)

/-- A large page in the way: the entry on the route is present above the lowest level, and it leads
to no table. -/
structure Blocked (v : View) (root : Nat) (route : Route) (depth table : Nat) : Prop where
  above : depth + 1 < v.layout.top
  reached : v.tableAt root route depth = some table
  present : (v.entry table (route (v.layout.top - depth))).isPresent = true
  large : (v.entry table (route (v.layout.top - depth))).isLargePage = true

theorem AllSmall.not_blocked {v : View} {root depth table : Nat} {route : Route}
    (hsmall : v.AllSmall root) : ¬Blocked v root route depth table := by
  intro hblocked
  have hnever := hsmall route depth table _ hblocked.above hblocked.reached hblocked.present
  rw [hblocked.large] at hnever
  contradiction

section Paths

variable {v w : View} {root depth table : Nat} {route : Route}

theorem tableAt_eq_none_of_le {lower : Nat} (hle : lower ≤ depth)
    (hnone : v.tableAt root route lower = none) : v.tableAt root route depth = none := by
  induction hle with
  | refl => exact hnone
  | step _ ih =>
      rw [tableAt, ih]
      rfl

theorem exists_tableAt_of_le {lower : Nat} (hle : lower ≤ depth)
    (hreach : ∃ t, v.tableAt root route depth = some t) :
    ∃ t, v.tableAt root route lower = some t := by
  obtain ⟨t, hreach⟩ := hreach
  rw [← Option.ne_none_iff_exists']
  intro hnone
  rw [tableAt_eq_none_of_le hle hnone] at hreach
  contradiction

theorem pathTables_congr (hlayout : w.layout = v.layout)
    (hsame : ∀ d < v.layout.top, w.tableAt root route d = v.tableAt root route d) :
    w.pathTables root route = v.pathTables root route := by
  rw [pathTables, pathTables, hlayout]
  apply List.filterMap_congr
  intro d hd
  exact hsame d (List.mem_range.mp hd)

/-- Nothing stands on a path behind the depth at which it ends. -/
theorem pathTables_eq_of_end {count : Nat} (hcount : count ≤ v.layout.top)
    (hend : count < v.layout.top → v.tableAt root route count = none) :
    v.pathTables root route = (List.range count).filterMap (v.tableAt root route) := by
  have hsplit : v.layout.top = count + (v.layout.top - count) := by omega
  have hrest : ((List.range (v.layout.top - count)).map (count + ·)).filterMap
      (v.tableAt root route) = [] := by
    rw [List.filterMap_eq_nil_iff]
    intro d hd
    obtain ⟨k, hk, rfl⟩ := List.mem_map.mp hd
    rw [List.mem_range] at hk
    exact tableAt_eq_none_of_le (Nat.le_add_right count k) (hend (by omega))
  rw [pathTables, hsplit, List.range_add, List.filterMap_append, hrest, List.append_nil]

theorem length_filterMap_tableAt (hreach : v.tableAt root route depth = some table) :
    ((List.range (depth + 1)).filterMap (v.tableAt root route)).length = depth + 1 := by
  induction depth generalizing table with
  | zero => simp [tableAt]
  | succ depth ih =>
      obtain ⟨parent, hparent, _⟩ := tableAt_succ_eq_some hreach
      rw [List.range_succ, List.filterMap_append, List.length_append, ih hparent]
      simp [hreach]

/-- A route reaches a table at each depth below the length of its path, and at no other. -/
theorem isSome_tableAt_iff (hdepth : depth < v.layout.top) :
    (v.tableAt root route depth).isSome ↔ depth < (v.pathTables root route).length := by
  cases hreach : v.tableAt root route depth with
  | none =>
      rw [pathTables_eq_of_end (Nat.le_of_lt hdepth) fun _ => hreach]
      have hlength := List.length_filterMap_le (v.tableAt root route) (List.range depth)
      rw [List.length_range] at hlength
      simpa using hlength
  | some table =>
      have hsublist : (List.range (depth + 1)).Sublist (List.range v.layout.top) :=
        List.range_sublist.mpr hdepth
      have hlength := (hsublist.filterMap (v.tableAt root route)).length_le
      rw [length_filterMap_tableAt hreach] at hlength
      exact iff_of_true rfl hlength

theorem length_pathTables_le (v : View) (root : Nat) (route : Route) :
    (v.pathTables root route).length ≤ v.layout.top := by
  have hlength := List.length_filterMap_le (v.tableAt root route) (List.range v.layout.top)
  rwa [List.length_range] at hlength

/-- The length of a path is one more than the depth at which it ends. -/
theorem length_pathTables (hdepth : depth < v.layout.top)
    (hreach : v.tableAt root route depth = some table)
    (hend : depth + 1 < v.layout.top → v.tableAt root route (depth + 1) = none) :
    (v.pathTables root route).length = depth + 1 := by
  have hlow := (isSome_tableAt_iff hdepth).mp (Option.isSome_of_eq_some hreach)
  have htop := v.length_pathTables_le root route
  by_cases hbelow : depth + 1 < v.layout.top
  · have hhigh : ¬depth + 1 < (v.pathTables root route).length := by
      rw [← isSome_tableAt_iff hbelow, hend hbelow]
      exact Bool.false_ne_true
    omega
  · omega

theorem length_pathTables_eq_top
    (hreach : v.tableAt root route (v.layout.top - 1) = some table) :
    (v.pathTables root route).length = v.layout.top := by
  have htop : v.layout.top - 1 + 1 = v.layout.top := by
    rcases v.layout.top_eq with htop | htop <;> omega
  rw [length_pathTables (by omega) hreach (by omega), htop]

theorem SameTables.pathTables_eq (hsame : SameTables v w root) (route : Route) :
    w.pathTables root route = v.pathTables root route :=
  pathTables_congr hsame.layout fun _ hd => hsame.tableAt_eq route hd

theorem SameTables.gap (hsame : SameTables v w root) (hgap : Gap v root route depth table) :
    Gap w root route depth table := by
  have habove := hgap.above
  refine ⟨by rwa [hsame.layout], ?_, ?_⟩
  · rw [hsame.tableAt_eq route (by omega), hgap.reached]
  · rw [hsame.layout, hsame.entry table hgap.table_mem, hgap.absent]

end Paths

namespace Gap

variable {v : View} {root table depth node : Nat} {route q : Route}

theorem length_pathTables (hgap : Gap v root route depth table) :
    (v.pathTables root route).length = depth + 1 :=
  View.length_pathTables (Nat.lt_of_succ_lt hgap.above) hgap.reached
    fun _ => hgap.tableAt_beyond (fun _ _ => rfl) (Nat.lt_succ_self depth)

/-- A route that ends in a gap is not blocked. -/
theorem not_blocked (hgap : Gap v root route depth table) {d t : Nat} :
    ¬Blocked v root route d t := by
  intro hblocked
  rcases Nat.lt_trichotomy d depth with hlt | rfl | hlt
  · obtain ⟨next, hnext⟩ := exists_tableAt_of_le hlt ⟨table, hgap.reached⟩
    obtain ⟨parent, hparent, hchild⟩ := tableAt_succ_eq_some hnext
    cases hparent.symm.trans hblocked.reached
    rw [child, hblocked.large, Bool.not_true, Bool.and_false] at hchild
    contradiction
  · cases hgap.reached.symm.trans hblocked.reached
    have hpresent := hblocked.present
    rw [hgap.absent] at hpresent
    contradiction
  · have hreached := hblocked.reached
    rw [hgap.tableAt_beyond (fun _ _ => rfl) hlt] at hreached
    contradiction

theorem pathTables_link (hgap : Gap v root route depth table) (htree : v.Tree root)
    (hnode : node ∈ v.free) (hlt : node < 2 ^ 40) :
    (v.link table (route (v.layout.top - depth)) node).pathTables root route =
      v.pathTables root route ++ [node] := by
  have habove := hgap.above
  have hbefore : v.pathTables root route =
      (List.range (depth + 1)).filterMap (v.tableAt root route) :=
    pathTables_eq_of_end (Nat.le_of_lt habove)
      fun _ => hgap.tableAt_beyond (fun _ _ => rfl) (by omega)
  have hafter : (v.link table (route (v.layout.top - depth)) node).pathTables root route =
      (List.range (depth + 2)).filterMap
        ((v.link table (route (v.layout.top - depth)) node).tableAt root route) :=
    pathTables_eq_of_end habove
      fun _ => hgap.tableAt_link_beyond htree hnode hlt (fun _ _ => rfl) (by omega)
  have hfront : (List.range (depth + 1)).filterMap
      ((v.link table (route (v.layout.top - depth)) node).tableAt root route) =
        (List.range (depth + 1)).filterMap (v.tableAt root route) := by
    apply List.filterMap_congr
    intro d hd
    rw [List.mem_range] at hd
    exact hgap.tableAt_link_of_aside htree hnode (by omega) (.inl (by omega))
  have hlast : (v.link table (route (v.layout.top - depth)) node).tableAt root route (depth + 1) =
      some node :=
    hgap.tableAt_link_node htree hnode hlt (fun _ _ => rfl)
  rw [hafter, hbefore, List.range_succ, List.filterMap_append, hfront,
    List.filterMap_cons_some hlast, List.filterMap_nil]

/-- A table that was just linked is empty, so no large page comes after it. -/
theorem not_blocked_link (hgap : Gap v root route depth table) (htree : v.Tree root)
    (hnode : node ∈ v.free) (hlt : node < 2 ^ 40) {d t : Nat} (hd : depth < d) :
    ¬Blocked (v.link table (route (v.layout.top - depth)) node) root route d t := by
  intro hblocked
  have hreached := hgap.tableAt_link_node htree hnode hlt (fun _ _ => rfl)
  have hgap' : Gap (v.link table (route (v.layout.top - depth)) node) root route (depth + 1)
      node := by
    refine ⟨lt_of_le_of_lt (Nat.succ_le_succ hd) hblocked.above, hreached, ?_⟩
    rw [entry_link_node (hgap.table_ne htree hnode)]
    rfl
  exact hgap'.not_blocked hblocked

end Gap

/-! ## Links one after the other -/

/-- The tables `nodes` are linked on a route where tables are missing, from the top down. -/
inductive Linked (root : Nat) (route : Route) : View → List Nat → View → Prop
  | refl (v : View) : Linked root route v [] v
  | link {v w : View} {depth table node : Nat} {nodes : List Nat}
      (hgap : Gap v root route depth table) (hnode : node ∈ v.free)
      (hrest : Linked root route (v.link table (route (v.layout.top - depth)) node) nodes w) :
      Linked root route v (node :: nodes) w

/-- What links on a route come to: `nodes` were free, and they are the new end of the path.  No
table is moved, and only routes that share the way to a new table reach it. -/
structure PathGrown (root : Nat) (route : Route) (nodes : List Nat) (v w : View) : Prop where
  layout : w.layout = v.layout
  path : w.pathTables root route = v.pathTables root route ++ nodes
  nodup : nodes.Nodup
  fresh : ∀ t ∈ nodes, t ∈ v.free
  free : w.free = v.free \ {t | t ∈ nodes}
  tables : w.tables root = v.tables root ∪ {t | t ∈ nodes}
  kept : ∀ q d t, d < v.layout.top → v.tableAt root q d = some t → w.tableAt root q d = some t
  reached : ∀ q d t, d < v.layout.top → w.tableAt root q d = some t →
    v.tableAt root q d = some t ∨ t ∈ nodes ∧ Route.Agree v.layout.top d q route

theorem PathGrown.refl (root : Nat) (route : Route) (v : View) : PathGrown root route [] v v where
  layout := rfl
  path := (List.append_nil _).symm
  nodup := .nil
  fresh := by simp
  free := by simp
  tables := by simp
  kept := fun _ _ _ _ hreach => hreach
  reached := fun _ _ _ _ hreach => .inl hreach

/-- Where a path has come to the lowest level, the routes that reach a depth are those that did
before and those that share the way to it. -/
theorem PathGrown.isSome_tableAt {v w : View} {root : Nat} {route q : Route} {nodes : List Nat}
    (hpath : PathGrown root route nodes v w)
    (hfull : (w.pathTables root route).length = w.layout.top) {d : Nat} (hd : d < v.layout.top) :
    (w.tableAt root q d).isSome ↔
      (v.tableAt root q d).isSome ∨ Route.Agree v.layout.top d q route := by
  simp only [Option.isSome_iff_exists]
  constructor
  · rintro ⟨t, hreach⟩
    rcases hpath.reached q d t hd hreach with hold | ⟨_, hagree⟩
    · exact .inl ⟨t, hold⟩
    · exact .inr hagree
  · rintro (⟨t, hold⟩ | hagree)
    · exact ⟨t, hpath.kept q d t hd hold⟩
    · rw [← hpath.layout] at hd hagree
      rw [tableAt_congr hagree, ← Option.isSome_iff_exists, isSome_tableAt_iff hd, hfull]
      exact hd

theorem Gap.pathGrown_cons {v w : View} {root table depth node : Nat} {route : Route}
    {nodes : List Nat} (hgap : Gap v root route depth table) (htree : v.Tree root)
    (hnode : node ∈ v.free) (hlt : node < 2 ^ 40)
    (hrest : PathGrown root route nodes (v.link table (route (v.layout.top - depth)) node) w) :
    PathGrown root route (node :: nodes) v w := by
  have hfree : (v.link table (route (v.layout.top - depth)) node).free = v.free \ {node} := by
    ext f
    change f ∈ v.free \ Set.Ico node (node + 1) ↔ _
    simp only [Set.mem_sdiff, Set.mem_Ico, Set.mem_singleton_iff]
    refine and_congr_right fun _ => ?_
    omega
  have hfresh := hrest.fresh
  rw [hfree] at hfresh
  constructor
  · exact hrest.layout
  · rw [hrest.path, hgap.pathTables_link htree hnode hlt, List.append_assoc, List.singleton_append]
  · exact List.nodup_cons.mpr ⟨fun hin => (hfresh node hin).2 rfl, hrest.nodup⟩
  · intro t ht
    rcases List.mem_cons.mp ht with rfl | hin
    · exact hnode
    · exact (hfresh t hin).1
  · rw [hrest.free, hfree]
    ext f
    simp only [Set.mem_sdiff, Set.mem_singleton_iff, Set.mem_ofPred_eq, List.mem_cons]
    tauto
  · rw [hrest.tables, hgap.tables_link htree hnode hlt]
    ext f
    simp only [Set.mem_union, Set.mem_insert_iff, Set.mem_ofPred_eq, List.mem_cons]
    tauto
  · intro q d t hd hreach
    exact hrest.kept q d t hd (hgap.tableAt_link_of_eq_some htree hnode hd hreach)
  · intro q d t hd hreach
    rcases hrest.reached q d t hd hreach with hlink | ⟨hin, hagree⟩
    · rcases hgap.tableAt_link_eq_some htree hnode hlt hd hlink with hold | ⟨rfl, rfl, hagree⟩
      · exact .inl hold
      · exact .inr ⟨List.mem_cons_self, hagree⟩
    · exact .inr ⟨List.mem_cons_of_mem node hin, hagree⟩

namespace Linked

variable {root : Nat} {route : Route} {v w : View} {nodes : List Nat}

theorem extended (hlinked : Linked root route v nodes w) : Extended root route v w := by
  induction hlinked with
  | refl v => exact .refl v
  | link hgap hnode _ ih => exact .link hgap hnode ih

theorem pathGrown (hlinked : Linked root route v nodes w) (htree : v.Tree root)
    (hsound : v.Sound) : PathGrown root route nodes v w := by
  induction hlinked with
  | refl v => exact .refl root route v
  | link hgap hnode _ ih =>
      have hgrown := hgap.grown_link htree hsound hnode
      exact hgap.pathGrown_cons htree hnode ((hsound.plain _ hnode).lt hsound.memory)
        (ih hgrown.tree (hgrown.sound hsound))

/-- Entries of tables that were there before are kept, but for one that was not present and leads
to a new table. -/
theorem entry_of_old (hlinked : Linked root route v nodes w) (htree : v.Tree root)
    (hsound : v.Sound) {t : Nat} (ht : t ∈ v.tables root) (i : Fin 512) :
    w.entry t i = v.entry t i ∨
      (v.entry t i).isPresent = false ∧
        ∃ node ∈ nodes, w.entry t i = TableEntry.make (frameBase node) .node := by
  induction hlinked with
  | refl v => exact .inl rfl
  | @link v w depth table node nodes hgap hnode _ ih =>
      have hgrown := hgap.grown_link htree hsound hnode
      have hrest := ih hgrown.tree (hgrown.sound hsound) (hgrown.tables ht)
      have hne : t ≠ node := by
        rintro rfl
        exact htree.taken _ ht hnode
      by_cases hslot : t = table ∧ i = route (v.layout.top - depth)
      · obtain ⟨rfl, rfl⟩ := hslot
        have hlink : (v.link t (route (v.layout.top - depth)) node).entry t
            (route (v.layout.top - depth)) = TableEntry.make (frameBase node) .node :=
          entry_setEntry _ _ _ _
        right
        refine ⟨hgap.absent, node, List.mem_cons_self, ?_⟩
        rcases hrest with hkept | ⟨habsent, _⟩
        · rw [hkept, hlink]
        · rw [hlink, TableEntry.isPresent_make_node] at habsent
          contradiction
      · rw [not_and_or] at hslot
        rw [entry_link_of_ne hne hslot] at hrest
        rcases hrest with hkept | ⟨habsent, next, hnext, hlink⟩
        · exact .inl hkept
        · exact .inr ⟨habsent, next, List.mem_cons_of_mem node hnext, hlink⟩

/-- A new table is empty, but for the entry that leads to the next one. -/
theorem entry_of_new (hlinked : Linked root route v nodes w) (htree : v.Tree root)
    (hsound : v.Sound) {t : Nat} (ht : t ∈ nodes) (i : Fin 512) :
    w.entry t i = ⟨0⟩ ∨ ∃ node ∈ nodes, w.entry t i = TableEntry.make (frameBase node) .node := by
  induction hlinked with
  | refl v => contradiction
  | @link v w depth table node nodes hgap hnode hrest ih =>
      have hgrown := hgap.grown_link htree hsound hnode
      have hsound₁ := hgrown.sound hsound
      rcases List.mem_cons.mp ht with rfl | hin
      · have hmem : t ∈ (v.link table (route (v.layout.top - depth)) t).tables root := by
          rw [hgap.tables_link htree hnode ((hsound.plain t hnode).lt hsound.memory)]
          exact Set.mem_insert t _
        rcases hrest.entry_of_old hgrown.tree hsound₁ hmem i with
          hkept | ⟨_, next, hnext, hlink⟩
        · rw [entry_link_node (hgap.table_ne htree hnode)] at hkept
          exact .inl hkept
        · exact .inr ⟨next, List.mem_cons_of_mem t hnext, hlink⟩
      · rcases ih hgrown.tree hsound₁ hin with hempty | ⟨next, hnext, hlink⟩
        · exact .inl hempty
        · exact .inr ⟨next, List.mem_cons_of_mem node hnext, hlink⟩

end Linked

end View

end BootMemory
