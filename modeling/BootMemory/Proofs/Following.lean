import BootMemory.Proofs.Tree

/-!
# What a release follows

A release takes every entry in use above the lowest level for one that leads to a table.  It comes
to a frame once for each path of entries that leads there, and to the frames below an entry before
the table that holds it.  In a space without large pages these are its tables, each of them once.
A large page is followed as well, and what it maps is read as tables.
-/

namespace BootMemory

namespace View

/-- The frame that an entry in use leads to, as a table or as a large page. -/
def next (v : View) (table : Nat) (index : Fin 512) : Option Nat :=
  if (v.entry table index).isPresent then some (v.entry table index).frame else none

def follow (v : View) (table : Nat) : List (Fin 512) → Option Nat
  | [] => some table
  | index :: path => (v.next table index).bind fun lower => v.follow lower path

/-- The frames that a release of a table comes to, in the order in which it gives them back. -/
def releaseOrder (v : View) : (level table : Nat) → List Nat
  | level + 2, table =>
      ((List.finRange 512).flatMap fun index =>
        ((v.next table index).map fun lower => v.releaseOrder (level + 1) lower).getD []) ++ [table]
  | _, table => [table]

/-- Paths that are short enough lead to different frames. -/
def FollowedOnce (v : View) (bound table : Nat) : Prop :=
  ∀ p q f, p.length < bound → q.length < bound → v.follow table p = some f →
    v.follow table q = some f → p = q

section Paths

variable {v : View} {table f level : Nat}

theorem follow_cons {index : Fin 512} {path : List (Fin 512)} {lower : Nat}
    (hnext : v.next table index = some lower) :
    v.follow table (index :: path) = v.follow lower path := by
  rw [follow, hnext, Option.bind_some]

theorem follow_append (p q : List (Fin 512)) :
    v.follow table (p ++ q) = (v.follow table p).bind fun lower => v.follow lower q := by
  induction p generalizing table with
  | nil => rfl
  | cons index p ih =>
      rw [List.cons_append, follow, follow, Option.bind_assoc]
      exact Option.bind_congr fun lower _ => ih

theorem follow_concat (p : List (Fin 512)) (index : Fin 512) :
    v.follow table (p ++ [index]) = (v.follow table p).bind fun lower => v.next lower index := by
  rw [follow_append]
  apply Option.bind_congr
  intro lower _
  simp [follow, Option.bind_fun_some]

/-- Paths stay among frames that entries do not lead out of. -/
theorem mem_of_follow {frames : Set Nat}
    (hclosed : ∀ a ∈ frames, ∀ index b, v.next a index = some b → b ∈ frames)
    {path : List (Fin 512)} (htable : table ∈ frames) (hpath : v.follow table path = some f) :
    f ∈ frames := by
  induction path generalizing table with
  | nil => exact Option.some.inj hpath ▸ htable
  | cons index path ih =>
      obtain ⟨lower, hnext, hpath⟩ := Option.bind_eq_some_iff.mp hpath
      exact ih (hclosed table htable index lower hnext) hpath

/-- What a release gives back from the entry at an index. -/
def below (v : View) (level table : Nat) (index : Fin 512) : List Nat :=
  ((v.next table index).map fun lower => v.releaseOrder level lower).getD []

theorem mem_below {index : Fin 512} :
    f ∈ v.below level table index ↔
      ∃ lower, v.next table index = some lower ∧ f ∈ v.releaseOrder level lower := by
  unfold below
  cases v.next table index <;> simp

theorem below_eq_nil_or (v : View) (level table : Nat) (index : Fin 512) :
    v.below level table index = [] ∨
      ∃ lower, v.next table index = some lower ∧
        v.below level table index = v.releaseOrder level lower := by
  unfold below
  cases v.next table index <;> simp

theorem releaseOrder_succ (v : View) (level table : Nat) :
    v.releaseOrder (level + 2) table =
      (List.finRange 512).flatMap (v.below (level + 1) table) ++ [table] := rfl

/-- A release comes to the frames that paths shorter than its level lead to. -/
theorem mem_releaseOrder :
    f ∈ v.releaseOrder (level + 1) table ↔
      ∃ path, path.length < level + 1 ∧ v.follow table path = some f := by
  induction level generalizing table with
  | zero =>
      change f ∈ [table] ↔ _
      rw [List.mem_singleton]
      constructor
      · rintro rfl
        exact ⟨[], Nat.one_pos, rfl⟩
      · rintro ⟨path, hlength, hpath⟩
        obtain rfl := List.length_eq_zero_iff.mp (Nat.lt_one_iff.mp hlength)
        exact (Option.some.inj hpath).symm
  | succ level ih =>
      rw [releaseOrder_succ, List.mem_append, List.mem_flatMap, List.mem_singleton]
      constructor
      · rintro (⟨index, _, hf⟩ | rfl)
        · obtain ⟨lower, hnext, hf⟩ := mem_below.mp hf
          obtain ⟨path, hlength, hpath⟩ := ih.mp hf
          exact ⟨index :: path, Nat.succ_lt_succ hlength, (follow_cons hnext).trans hpath⟩
        · exact ⟨[], Nat.succ_pos _, rfl⟩
      · rintro ⟨path, hlength, hpath⟩
        cases path with
        | nil => exact .inr (Option.some.inj hpath).symm
        | cons index path =>
            obtain ⟨lower, hnext, hpath⟩ := Option.bind_eq_some_iff.mp hpath
            have hf := ih.mpr ⟨path, Nat.lt_of_succ_lt_succ hlength, hpath⟩
            exact .inl ⟨index, List.mem_finRange index, mem_below.mpr ⟨lower, hnext, hf⟩⟩

theorem mem_below_iff_path {index : Fin 512} :
    f ∈ v.below (level + 1) table index ↔
      ∃ path, path.length < level + 1 ∧ v.follow table (index :: path) = some f := by
  rw [mem_below]
  constructor
  · rintro ⟨lower, hnext, hf⟩
    obtain ⟨path, hlength, hpath⟩ := mem_releaseOrder.mp hf
    exact ⟨path, hlength, (follow_cons hnext).trans hpath⟩
  · rintro ⟨path, hlength, hpath⟩
    obtain ⟨lower, hnext, hpath⟩ := Option.bind_eq_some_iff.mp hpath
    exact ⟨lower, hnext, mem_releaseOrder.mpr ⟨path, hlength, hpath⟩⟩

/-- A release comes to a frame twice if it does so below one entry, below two entries, or at the
table itself once more. -/
theorem nodup_releaseOrder_succ :
    (v.releaseOrder (level + 2) table).Nodup ↔
      (∀ index, (v.below (level + 1) table index).Nodup) ∧
      (∀ i j, i ≠ j → List.Disjoint (v.below (level + 1) table i) (v.below (level + 1) table j)) ∧
      ∀ index, table ∉ v.below (level + 1) table index := by
  have hsymm : Std.Symm (Function.onFun List.Disjoint (v.below (level + 1) table)) :=
    ⟨fun _ _ hdisjoint => hdisjoint.symm⟩
  rw [releaseOrder_succ, List.nodup_append, List.nodup_flatMap]
  constructor
  · rintro ⟨⟨hbelow, hapart⟩, _, hself⟩
    refine ⟨fun index => hbelow index (List.mem_finRange index), ?_, ?_⟩
    · exact fun i j hij => hapart.forall (List.mem_finRange i) (List.mem_finRange j) hij
    · intro index hin
      exact hself table (List.mem_flatMap.mpr ⟨index, List.mem_finRange index, hin⟩) table
        (List.mem_singleton_self table) rfl
  · rintro ⟨hbelow, hapart, hself⟩
    refine ⟨⟨fun index _ => hbelow index, ?_⟩, List.nodup_singleton table, ?_⟩
    · exact (List.nodup_finRange 512).pairwise_of_forall_ne fun i _ j _ hij => hapart i j hij
    · rintro f hf _ htable rfl
      obtain rfl := List.mem_singleton.mp htable
      obtain ⟨index, _, hf⟩ := List.mem_flatMap.mp hf
      exact hself index hf

theorem followedOnce_of_nodup (hnodup : (v.releaseOrder (level + 1) table).Nodup) :
    v.FollowedOnce (level + 1) table := by
  induction level generalizing table with
  | zero =>
      intro p q f hp hq _ _
      rw [List.length_eq_zero_iff.mp (Nat.lt_one_iff.mp hp),
        List.length_eq_zero_iff.mp (Nat.lt_one_iff.mp hq)]
  | succ level ih =>
      obtain ⟨hbelow, hapart, hself⟩ := nodup_releaseOrder_succ.mp hnodup
      intro p q f hp hq hfp hfq
      cases p with
      | nil =>
          cases q with
          | nil => rfl
          | cons j q =>
              obtain rfl := Option.some.inj hfp
              exact absurd (mem_below_iff_path.mpr ⟨q, Nat.lt_of_succ_lt_succ hq, hfq⟩) (hself j)
      | cons i p =>
          replace hp := Nat.lt_of_succ_lt_succ hp
          have hfirst := mem_below_iff_path.mpr ⟨p, hp, hfp⟩
          cases q with
          | nil =>
              obtain rfl := Option.some.inj hfq
              exact absurd hfirst (hself i)
          | cons j q =>
              replace hq := Nat.lt_of_succ_lt_succ hq
              obtain rfl : i = j := by
                by_contra hij
                exact hapart i j hij hfirst (mem_below_iff_path.mpr ⟨q, hq, hfq⟩)
              obtain ⟨lower, hnext, _⟩ := Option.bind_eq_some_iff.mp hfp
              have hlower := hbelow i
              rw [below, hnext] at hlower
              rw [follow_cons hnext] at hfp hfq
              rw [ih hlower p q f hp hq hfp hfq]

theorem nodup_of_followedOnce (honce : v.FollowedOnce (level + 1) table) :
    (v.releaseOrder (level + 1) table).Nodup := by
  induction level generalizing table with
  | zero => exact List.nodup_singleton table
  | succ level ih =>
      refine nodup_releaseOrder_succ.mpr ⟨?_, ?_, ?_⟩
      · intro index
        rcases v.below_eq_nil_or (level + 1) table index with hnil | ⟨lower, hnext, hbelow⟩
        · rw [hnil]
          exact List.nodup_nil
        · rw [hbelow]
          apply ih
          intro p q f hp hq hfp hfq
          rw [← follow_cons hnext] at hfp hfq
          exact (List.cons.inj (honce (index :: p) (index :: q) f (Nat.succ_lt_succ hp)
            (Nat.succ_lt_succ hq) hfp hfq)).2
      · intro i j hij f hf hf'
        obtain ⟨p, hp, hfp⟩ := mem_below_iff_path.mp hf
        obtain ⟨q, hq, hfq⟩ := mem_below_iff_path.mp hf'
        have hsame := honce (i :: p) (j :: q) f (Nat.succ_lt_succ hp) (Nat.succ_lt_succ hq) hfp hfq
        exact hij (List.cons.inj hsame).1
      · intro index hin
        obtain ⟨p, hp, hpath⟩ := mem_below_iff_path.mp hin
        cases honce (index :: p) [] table (Nat.succ_lt_succ hp) (Nat.succ_pos _) hpath rfl

end Paths

/-! ## Paths and routes -/

end View

/-- The first steps of a route from a root of level `top`. -/
def Route.path (top depth : Nat) (route : Route) : List (Fin 512) :=
  (List.range depth).map fun k => route (top - k)

namespace Route

variable {top depth : Nat} {p q : Route}

@[simp] theorem length_path (top depth : Nat) (route : Route) :
    (route.path top depth).length = depth := by
  simp [path]

theorem path_succ (top depth : Nat) (route : Route) :
    route.path top (depth + 1) = route.path top depth ++ [route (top - depth)] := by
  simp [path, List.range_succ]

theorem path_eq_iff : p.path top depth = q.path top depth ↔ Agree top depth p q := by
  simp [path, Agree]

/-- Every path is the start of a route. -/
theorem exists_path_eq {path : List (Fin 512)} (hlength : path.length ≤ top) :
    ∃ route : Route, route.path top path.length = path := by
  refine ⟨fun level => path[top - level]?.getD 0, ?_⟩
  apply List.ext_getElem
  · exact length_path _ _ _
  · intro k _ hk
    have hindex : top - (top - k) = k := by
      omega
    simp [Route.path, hindex, hk]

end Route

namespace View

section Routes

variable {v : View} {root depth t : Nat} {route : Route}

theorem next_of_child {table lower : Nat} {index : Fin 512}
    (hchild : v.child table index = some lower) : v.next table index = some lower := by
  unfold child at hchild
  unfold next
  cases hpresent : (v.entry table index).isPresent <;> simp_all

/-- An entry in use leads to a table or maps a large page. -/
theorem next_cases {table lower : Nat} {index : Fin 512}
    (hnext : v.next table index = some lower) :
    v.child table index = some lower ∨
      (v.entry table index).isPresent = true ∧ (v.entry table index).isLargePage = true ∧
        lower = (v.entry table index).frame := by
  unfold next at hnext
  unfold child
  cases hpresent : (v.entry table index).isPresent <;>
    cases hlarge : (v.entry table index).isLargePage <;> simp_all

theorem exists_route (p : Route) (hdepth : depth < v.layout.top)
    (hreach : v.tableAt root p depth = some t) (index : Fin 512) :
    ∃ q : Route, v.tableAt root q depth = some t ∧ q (v.layout.top - depth) = index := by
  refine ⟨Function.update p (v.layout.top - depth) index, ?_, Function.update_self _ _ _⟩
  rw [← hreach]
  apply tableAt_congr
  intro k hk
  have hne : v.layout.top - k ≠ v.layout.top - depth := by
    omega
  exact Function.update_of_ne hne index p

theorem follow_of_tableAt (hreach : v.tableAt root route depth = some t) :
    v.follow root (route.path v.layout.top depth) = some t := by
  induction depth generalizing t with
  | zero => exact hreach
  | succ depth ih =>
      obtain ⟨parent, hparent, hchild⟩ := tableAt_succ_eq_some hreach
      rw [Route.path_succ, follow_concat, ih hparent]
      exact next_of_child hchild

/-- Without large pages, what is followed are the tables. -/
theorem tableAt_eq_follow (hsmall : v.AllSmall root) (hdepth : depth < v.layout.top) :
    v.tableAt root route depth = v.follow root (route.path v.layout.top depth) := by
  induction depth with
  | zero => rfl
  | succ depth ih =>
      rw [Route.path_succ, follow_concat, tableAt, ih (Nat.lt_of_succ_lt hdepth)]
      apply Option.bind_congr
      intro table htable
      rw [← ih (Nat.lt_of_succ_lt hdepth)] at htable
      cases hnext : v.next table (route (v.layout.top - depth)) with
      | some lower =>
          rcases next_cases hnext with hchild | ⟨hpresent, hlarge, _⟩
          · exact hchild
          · rw [hsmall route depth table _ hdepth htable hpresent] at hlarge
            contradiction
      | none =>
          unfold next at hnext
          unfold child
          simp_all

end Routes

/-! ## From the root of a space -/

section Space

variable {v : View} {root f : Nat}

theorem exists_top_eq_succ (v : View) : ∃ level, v.layout.top = level + 1 := by
  rcases v.layout.top_eq with htop | htop
  · exact ⟨3, htop⟩
  · exact ⟨4, htop⟩

theorem mem_releaseOrder_top :
    f ∈ v.releaseOrder v.layout.top root ↔
      ∃ path, path.length < v.layout.top ∧ v.follow root path = some f := by
  obtain ⟨level, hlevel⟩ := v.exists_top_eq_succ
  rw [hlevel]
  exact mem_releaseOrder

theorem nodup_releaseOrder_top :
    (v.releaseOrder v.layout.top root).Nodup ↔ v.FollowedOnce v.layout.top root := by
  obtain ⟨level, hlevel⟩ := v.exists_top_eq_succ
  rw [hlevel]
  exact ⟨followedOnce_of_nodup, nodup_of_followedOnce⟩

theorem tables_subset_releaseOrder (hf : f ∈ v.tables root) :
    f ∈ v.releaseOrder v.layout.top root := by
  obtain ⟨route, depth, hdepth, hreach⟩ := hf
  exact mem_releaseOrder_top.mpr
    ⟨route.path v.layout.top depth, by rwa [Route.length_path], follow_of_tableAt hreach⟩

section Small

variable (hsmall : v.AllSmall root)

include hsmall

theorem exists_tableAt_of_follow {path : List (Fin 512)} (hlength : path.length < v.layout.top)
    (hpath : v.follow root path = some f) :
    ∃ route : Route, route.path v.layout.top path.length = path ∧
      v.tableAt root route path.length = some f := by
  obtain ⟨route, hroute⟩ := Route.exists_path_eq (le_of_lt hlength)
  refine ⟨route, hroute, ?_⟩
  rw [tableAt_eq_follow hsmall hlength, hroute]
  exact hpath

/-- A release of a space without large pages comes to its tables. -/
theorem mem_releaseOrder_iff_tables : f ∈ v.releaseOrder v.layout.top root ↔ f ∈ v.tables root := by
  constructor
  · intro hf
    obtain ⟨path, hlength, hpath⟩ := mem_releaseOrder_top.mp hf
    obtain ⟨_, _, hreach⟩ := exists_tableAt_of_follow hsmall hlength hpath
    exact mem_tables hlength hreach
  · exact tables_subset_releaseOrder

theorem Tree.followedOnce (htree : v.Tree root) : v.FollowedOnce v.layout.top root := by
  intro p q t hp hq htp htq
  obtain ⟨route, hroute, hreach⟩ := exists_tableAt_of_follow hsmall hp htp
  obtain ⟨route', hroute', hreach'⟩ := exists_tableAt_of_follow hsmall hq htq
  obtain ⟨hlength, hagree⟩ := htree.once _ _ _ _ _ hp hq hreach hreach'
  rw [← hroute, ← hroute', ← hlength]
  exact Route.path_eq_iff.mpr hagree

end Small

/-- The frames that a release comes to through a large page: what the page maps is read as a table
of the level below. -/
def strays (v : View) (root : Nat) : Set Nat :=
  {f | ∃ route depth table index, depth + 1 < v.layout.top ∧
    v.tableAt root route depth = some table ∧ (v.entry table index).isPresent = true ∧
      (v.entry table index).isLargePage = true ∧
        f ∈ v.releaseOrder (v.layout.top - (depth + 1)) (v.entry table index).frame}

theorem mem_strays_iff :
    f ∈ v.strays root ↔ ∃ route depth table index path, depth + 1 + path.length < v.layout.top ∧
      v.tableAt root route depth = some table ∧ (v.entry table index).isPresent = true ∧
        (v.entry table index).isLargePage = true ∧
          v.follow (v.entry table index).frame path = some f := by
  have hlower : ∀ {depth lower : Nat}, depth + 1 < v.layout.top →
      (f ∈ v.releaseOrder (v.layout.top - (depth + 1)) lower ↔
        ∃ path, depth + 1 + path.length < v.layout.top ∧ v.follow lower path = some f) := by
    intro depth lower hdepth
    obtain ⟨level, hlevel⟩ := Nat.exists_eq_add_of_lt hdepth
    rw [show v.layout.top - (depth + 1) = level + 1 by omega, mem_releaseOrder]
    refine exists_congr fun path => and_congr_left' ?_
    omega
  constructor
  · rintro ⟨route, depth, table, index, hdepth, hreach, hpresent, hlarge, hf⟩
    obtain ⟨path, hlength, hpath⟩ := (hlower hdepth).mp hf
    exact ⟨route, depth, table, index, path, hlength, hreach, hpresent, hlarge, hpath⟩
  · rintro ⟨route, depth, table, index, path, hlength, hreach, hpresent, hlarge, hpath⟩
    have hdepth : depth + 1 < v.layout.top := by
      omega
    exact ⟨route, depth, table, index, hdepth, hreach, hpresent, hlarge,
      (hlower hdepth).mpr ⟨path, hlength, hpath⟩⟩

theorem mem_tables_or_strays {route : Route} {depth table : Nat} {path : List (Fin 512)}
    (hlength : depth + path.length < v.layout.top)
    (hreach : v.tableAt root route depth = some table) (hpath : v.follow table path = some f) :
    f ∈ v.tables root ∨ f ∈ v.strays root := by
  -- along the path, up to the first large page
  induction path generalizing route depth table with
  | nil =>
      obtain rfl := Option.some.inj hpath
      exact .inl (mem_tables hlength hreach)
  | cons index path ih =>
      rw [List.length_cons] at hlength
      obtain ⟨lower, hnext, hpath⟩ := Option.bind_eq_some_iff.mp hpath
      rcases next_cases hnext with hchild | ⟨hpresent, hlarge, rfl⟩
      · obtain ⟨route', hreach', hindex⟩ := exists_route route (by omega) hreach index
        have hnextReach : v.tableAt root route' (depth + 1) = some lower := by
          rw [tableAt, hreach', Option.bind_some, hindex]
          exact hchild
        exact ih (by omega) hnextReach hpath
      · exact .inr (mem_strays_iff.mpr
          ⟨route, depth, table, index, path, by omega, hreach, hpresent, hlarge, hpath⟩)

/-- A release comes to the tables of the space, and to what it takes for tables. -/
theorem mem_releaseOrder_iff :
    f ∈ v.releaseOrder v.layout.top root ↔ f ∈ v.tables root ∨ f ∈ v.strays root := by
  constructor
  · intro hf
    obtain ⟨path, hlength, hpath⟩ := mem_releaseOrder_top.mp hf
    have hroot : v.tableAt root (fun _ => 0) 0 = some root := rfl
    exact mem_tables_or_strays (by omega) hroot hpath
  · rintro (hf | hf)
    · exact tables_subset_releaseOrder hf
    · obtain ⟨route, depth, table, index, path, hlength, hreach, hpresent, _, hpath⟩ :=
        mem_strays_iff.mp hf
      refine mem_releaseOrder_top.mpr ⟨route.path v.layout.top depth ++ index :: path, ?_, ?_⟩
      · rw [List.length_append, Route.length_path, List.length_cons]
        omega
      · rw [follow_append, follow_of_tableAt hreach, Option.bind_some, follow, next,
          if_pos hpresent]
        exact hpath

/-- A large page makes a release come to a frame that is no table, or to a table twice. -/
theorem allSmall_of_nodup (hnodup : (v.releaseOrder v.layout.top root).Nodup)
    (htables : ∀ f ∈ v.releaseOrder v.layout.top root, f ∈ v.tables root) : v.AllSmall root := by
  intro route depth table index hdepth hreach hpresent
  by_contra hlarge
  rw [Bool.not_eq_false] at hlarge
  have hstep : v.follow root (route.path v.layout.top depth ++ [index]) =
      some (v.entry table index).frame := by
    rw [follow_concat, follow_of_tableAt hreach, Option.bind_some, next, if_pos hpresent]
  have hlength : (route.path v.layout.top depth ++ [index]).length < v.layout.top := by
    simpa using hdepth
  obtain ⟨route', depth', hdepth', hreach'⟩ :=
    htables _ (mem_releaseOrder_top.mpr ⟨_, hlength, hstep⟩)
  have hsame := nodup_releaseOrder_top.mp hnodup _ (route'.path v.layout.top depth') _ hlength
    (by rwa [Route.length_path]) hstep (follow_of_tableAt hreach')
  -- the frame is a table at the place of the large page
  obtain rfl : depth + 1 = depth' := by
    simpa using congrArg List.length hsame
  rw [Route.path_succ] at hsame
  obtain ⟨hpath, hlast⟩ := List.append_inj' hsame rfl
  obtain ⟨parent, hparent, hchild⟩ := tableAt_succ_eq_some hreach'
  rw [← tableAt_congr (Route.path_eq_iff.mp hpath), hreach] at hparent
  obtain rfl := Option.some.inj hparent
  rw [← List.singleton_inj.mp hlast, child, hpresent, hlarge] at hchild
  contradiction

end Space

end View

end BootMemory
