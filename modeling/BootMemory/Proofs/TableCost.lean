import BootMemory.Proofs.MapEnds
import BootMemory.Proofs.StaleFrames

/-!
# What a batch of mappings costs

Two pages share a table of some level if their numbers agree above it.  So a batch of mappings in a
fresh space needs one table of each level for each way in which the numbers of its pages begin,
whatever order they come in.  It goes through if there are that many free frames, and these are what
it takes.
-/

namespace BootMemory

/-- What chooses the table of a level on the way to an address: the bits that the levels above it
decide on. -/
def Addr.tableKey (top level : Nat) (virt : VirtAddr) : Nat :=
  (virt.word.toNat % 2 ^ (12 + 9 * top)) >>> (12 + 9 * level)

/-- The number of tables below the root that the ways to some pages lead through. -/
def tableCost (top : Nat) (pages : List VirtAddr) : Nat :=
  ∑ level ∈ Finset.Icc 1 (top - 1), (pages.map (Addr.tableKey top level)).toFinset.card

/-- A page that is to be mapped. -/
structure PageRequest where
  virt : VirtAddr
  phys : PhysAddr
  rights : AccessRights

namespace Addr

variable {top level : Nat}

theorem tableKey_eq (hlevel : level ≤ top) (virt : VirtAddr) :
    virt.tableKey top level = virt.page / 512 ^ level % 512 ^ (top - level) := by
  have hpow : ∀ k, 2 ^ (12 + 9 * k) = 4096 * 512 ^ k := by
    intro k
    rw [Nat.pow_add, Nat.pow_mul]
  have hsplit : 512 ^ top = 512 ^ level * 512 ^ (top - level) := by
    rw [← Nat.pow_add, Nat.add_sub_cancel' hlevel]
  rw [tableKey, Nat.shiftRight_eq_div_pow, hpow, hpow, hsplit, ← Nat.mul_assoc,
    Nat.mod_mul_right_div_self, ← Nat.div_div_eq_div_mul, page]

@[simp] theorem tableKey_pageFloor (hlevel : level ≤ top) (virt : VirtAddr) :
    virt.pageFloor.tableKey top level = virt.tableKey top level := by
  rw [tableKey_eq hlevel, tableKey_eq hlevel, page_pageFloor]

/-- Two addresses lead through one table of a level if their ways to it are the same. -/
theorem agree_route_iff_tableKey (htop : top ≤ 5) (hlevel : level ≤ top) (a b : VirtAddr) :
    Route.Agree top (top - level) a.route b.route ↔
      a.tableKey top level = b.tableKey top level := by
  rw [tableKey_eq hlevel, tableKey_eq hlevel, agree_route_iff_tableIndex hlevel,
    tableIndex_eq_above_iff htop hlevel]

end Addr

theorem tableCost_nil (top : Nat) : tableCost top [] = 0 := by
  simp [tableCost]

theorem tableCost_mono {top : Nat} {pages others : List VirtAddr} (hsubset : pages ⊆ others) :
    tableCost top pages ≤ tableCost top others := by
  apply Finset.sum_le_sum
  intro level _
  apply Finset.card_le_card
  intro key hkey
  rw [List.mem_toFinset] at hkey ⊢
  exact List.map_subset _ hsubset hkey

theorem tableCost_perm {top : Nat} {pages others : List VirtAddr} (hperm : pages.Perm others) :
    tableCost top pages = tableCost top others :=
  le_antisymm (tableCost_mono hperm.subset) (tableCost_mono hperm.symm.subset)

namespace PageRequest

/-- The pages that some requests ask for, an earlier one standing before a later one. -/
def pageMap (top : Nat) (requests : List PageRequest) : PageMap := fun key =>
  (requests.find? fun r => r.virt.pageKey top == key).map fun r => pageTarget r.phys r.rights

/-- No two requests are for one page. -/
def Distinct (top : Nat) (requests : List PageRequest) : Prop :=
  requests.Pairwise fun r s => r.virt.pageKey top ≠ s.virt.pageKey top

section PageMap

variable {top : Nat} {requests others : List PageRequest}

theorem pageMap_cons (r : PageRequest) (requests : List PageRequest) :
    pageMap top (r :: requests) = Function.update (pageMap top requests) (r.virt.pageKey top)
      (some (pageTarget r.phys r.rights)) := by
  funext key
  rw [Function.update_apply, pageMap, List.find?_cons]
  by_cases hkey : key = r.virt.pageKey top
  · simp [hkey]
  · have hne : (r.virt.pageKey top == key) = false := beq_false_of_ne (Ne.symm hkey)
    rw [hne, if_neg hkey]
    rfl

theorem pageMap_eq_some (hdistinct : Distinct top requests) {key : Nat}
    {target : PhysAddr × EntryFlags} :
    pageMap top requests key = some target ↔
      ∃ r ∈ requests, r.virt.pageKey top = key ∧ pageTarget r.phys r.rights = target := by
  induction requests with
  | nil => simp [pageMap]
  | cons r rest ih =>
      obtain ⟨hhead, hrest⟩ := List.pairwise_cons.mp hdistinct
      rw [pageMap_cons, Function.update_apply]
      by_cases hkey : key = r.virt.pageKey top
      · rw [if_pos hkey, Option.some.injEq]
        constructor
        · intro htarget
          exact ⟨r, List.mem_cons_self, hkey.symm, htarget⟩
        · rintro ⟨s, hs, hsame, htarget⟩
          rcases List.mem_cons.mp hs with rfl | hin
          · exact htarget
          · exact absurd (hkey.symm.trans hsame.symm) (hhead s hin)
      · rw [if_neg hkey, ih hrest]
        constructor
        · rintro ⟨s, hs, hfound⟩
          exact ⟨s, List.mem_cons_of_mem r hs, hfound⟩
        · rintro ⟨s, hs, hsame, htarget⟩
          rcases List.mem_cons.mp hs with rfl | hin
          · exact absurd hsame.symm hkey
          · exact ⟨s, hin, hsame, htarget⟩

theorem pageMap_perm (hdistinct : Distinct top requests) (hperm : others.Perm requests) :
    pageMap top others = pageMap top requests := by
  have hothers : Distinct top others :=
    (hperm.pairwise_iff fun hne => Ne.symm hne).mpr hdistinct
  funext key
  apply Option.ext
  intro target
  rw [pageMap_eq_some hothers, pageMap_eq_some hdistinct]
  simp only [hperm.mem_iff]

end PageMap

end PageRequest

namespace View

/-- The tables of a space below the root are those on the ways to the pages of some requests, and
the pages are mapped as these requests say, the first of them last. -/
structure Charted (v : View) (root : Nat) (requests : List PageRequest) : Prop where
  sound : v.Sound
  tree : v.Tree root
  small : v.AllSmall root
  reached : ∀ q d, d < v.layout.top → ((v.tableAt root q d).isSome ↔
    d = 0 ∨ ∃ r ∈ requests, Route.Agree v.layout.top d q r.virt.pageFloor.route)
  maps : v.Maps root (PageRequest.pageMap v.layout.top requests)

namespace Charted

variable {v w : View} {root : Nat} {requests : List PageRequest}

theorem newRoot (hsound : v.Sound) (hroot : root ∈ v.free) :
    (v.newRoot root).Charted root [] where
  sound := (hsound.take root 1).write _ _
  tree := tree_newRoot (hsound.plain root hroot)
  small := allSmall_newRoot v root
  reached := by
    intro q d _
    cases d with
    | zero => simp [tableAt]
    | succ d => simp [tableAt_newRoot]
  maps := maps_newRoot v root

/-- A page leads through an old table of a level if it has the key of a page that was mapped. -/
theorem tableKey_mem_iff (hcharted : v.Charted root requests) (virt : VirtAddr) {level : Nat}
    (hlow : 1 ≤ level) (hhigh : level ≤ v.layout.top - 1) :
    virt.tableKey v.layout.top level ∈
        ((requests.map (·.virt)).map (Addr.tableKey v.layout.top level)).toFinset ↔
      v.missing root virt.pageFloor.route < level := by
  have htop : v.layout.top ≤ 5 := by
    rcases v.layout.top_eq with htop | htop <;> omega
  have hlength := v.length_pathTables_le root virt.pageFloor.route
  have hdepth : (v.tableAt root virt.pageFloor.route (v.layout.top - level)).isSome ↔ _ :=
    isSome_tableAt_iff (by omega)
  rw [hcharted.reached _ _ (by omega), or_iff_right (by omega)] at hdepth
  simp only [Addr.agree_route_iff_tableKey htop (show level ≤ v.layout.top by omega),
    Addr.tableKey_pageFloor (show level ≤ v.layout.top by omega)] at hdepth
  rw [List.mem_toFinset, List.map_map, List.mem_map, missing]
  constructor
  · rintro ⟨r, hr, hkey⟩
    have hlt := hdepth.mp ⟨r, hr, hkey.symm⟩
    omega
  · intro hlt
    obtain ⟨r, hr, hkey⟩ := hdepth.mpr (by omega)
    exact ⟨r, hr, hkey.symm⟩

/-- A further page costs the tables that are missing on its path. -/
theorem tableCost_cons (hcharted : v.Charted root requests) (r : PageRequest) :
    tableCost v.layout.top ((r :: requests).map (·.virt)) =
      tableCost v.layout.top (requests.map (·.virt)) +
        v.missing root r.virt.pageFloor.route := by
  have hbelow : v.missing root r.virt.pageFloor.route ≤ v.layout.top - 1 := by
    have htop : 0 < v.layout.top := by
      rcases v.layout.top_eq with htop | htop <;> omega
    have hstart : v.tableAt root r.virt.pageFloor.route 0 = some root := rfl
    have hroot := (isSome_tableAt_iff htop).mp (Option.isSome_of_eq_some hstart)
    rw [missing]
    omega
  have hnew : ((Finset.Icc 1 (v.layout.top - 1)).filter
      fun level => level ≤ v.missing root r.virt.pageFloor.route) =
        Finset.Icc 1 (v.missing root r.virt.pageFloor.route) := by
    ext level
    simp only [Finset.mem_filter, Finset.mem_Icc]
    omega
  have hcount : v.missing root r.virt.pageFloor.route =
      ∑ level ∈ Finset.Icc 1 (v.layout.top - 1),
        if level ≤ v.missing root r.virt.pageFloor.route then 1 else 0 := by
    rw [← Finset.card_filter, hnew, Nat.card_Icc, Nat.add_sub_cancel]
  rw [tableCost, tableCost, hcount, ← Finset.sum_add_distrib]
  apply Finset.sum_congr rfl
  intro level hlevel
  rw [Finset.mem_Icc] at hlevel
  rw [List.map_cons, List.map_cons, List.toFinset_cons, Finset.card_insert_eq_ite]
  have hmem := hcharted.tableKey_mem_iff r.virt hlevel.1 hlevel.2
  by_cases hold : v.missing root r.virt.pageFloor.route < level
  · rw [if_pos (hmem.mpr hold), if_neg (by omega), Nat.add_zero]
  · rw [if_neg (hmem.not.mpr hold), if_pos (by omega)]

/-- A page that was mapped joins the chart. -/
theorem cons (hcharted : v.Charted root requests) {r : PageRequest} {nodes : List Nat}
    (hpath : PathGrown root r.virt.pageFloor.route nodes v w)
    (hfull : (w.pathTables root r.virt.pageFloor.route).length = w.layout.top)
    (hset : PageSet root r.virt.pageFloor (some (pageTarget r.phys r.rights)) v w) :
    w.Charted root (r :: requests) where
  sound := hset.grown.sound hcharted.sound
  tree := hset.grown.tree
  small := hset.grown.small hcharted.small
  reached := by
    intro q d hd
    rw [hpath.layout] at hd ⊢
    rw [hpath.isSome_tableAt hfull hd, hcharted.reached q d hd]
    simp only [List.mem_cons, exists_eq_or_imp]
    rw [or_assoc, or_comm (b := Route.Agree v.layout.top d q r.virt.pageFloor.route)]
  maps := by
    rw [hpath.layout, PageRequest.pageMap_cons, ← Addr.pageKey_pageFloor]
    exact hset.maps hcharted.maps

end Charted

end View

namespace Machine

/-- Maps pages of 4 KiB one after the other. -/
def mapEach (space : AddressSpace) (requests : List PageRequest) : MachineM MapError Unit :=
  requests.forM fun r => mapPage space r.virt r.phys r.rights .size4KiB

section Batch

variable {m : Machine} {root : Nat}

theorem newSpace_eq_ok {m₀ : Machine} (hsound : m₀.view.Sound) {space : AddressSpace}
    (hrun : newSpace m₀ = .ok space m) :
    ∃ f ∈ m₀.view.free, space = ⟨frameBase f⟩ ∧ m.view = m₀.view.newRoot f := by
  rcases newTable_run hsound with ⟨e, m₁, hnew, _⟩ | ⟨f, m₁, hfree, hnew, hview⟩
  · rw [newSpace, Action.bind_error hnew] at hrun
    cases hrun
  · obtain ⟨m₂, hemit, hview₂⟩ := emit_run (ε := MapError) (.spaceCreated (frameBase f)) m₁
    rw [newSpace, Action.bind_ok hnew, Action.bind_ok hemit] at hrun
    cases hrun
    exact ⟨f, hfree, rfl, hview₂.trans hview⟩

/-- One more page is mapped if the frames last, and what is paid so far is what the chart costs. -/
theorem mapPage_charted {done : List PageRequest} (hcharted : m.view.Charted root done)
    (r : PageRequest) :
    (∃ m', mapPage ⟨frameBase root⟩ r.virt r.phys r.rights .size4KiB m = .ok ⟨⟩ m' ∧
        m'.view.Charted root (r :: done) ∧ m'.layout = m.layout ∧
        m'.freeCount + tableCost m.layout.top ((r :: done).map (·.virt)) =
          m.freeCount + tableCost m.layout.top (done.map (·.virt))) ∨
      ∃ e m', mapPage ⟨frameBase root⟩ r.virt r.phys r.rights .size4KiB m =
          .error (.error (.noFrame e)) m' ∧
        m.freeCount + tableCost m.layout.top (done.map (·.virt)) <
          tableCost m.layout.top ((r :: done).map (·.virt)) := by
  have hcost := hcharted.tableCost_cons r
  rw [view_layout] at hcost
  rcases mapPage_cost hcharted.sound hcharted.tree (fun _ _ => hcharted.small.not_blocked) r.phys
    r.rights with ⟨nodes, m', hmissing, hrun, hcount, hpath, hfull, hset⟩ | ⟨e, m', hfew, hrun⟩
  · rw [← show m'.view.layout.top = m.layout.top from congrArg Layout.top hpath.layout] at hfull
    exact .inl ⟨m', hrun, hcharted.cons hpath hfull hset, hpath.layout, by omega⟩
  · exact .inr ⟨e, m', hrun, by omega⟩

theorem mapEach_charted {done : List PageRequest} (hcharted : m.view.Charted root done)
    (requests : List PageRequest) :
    (∃ m', mapEach ⟨frameBase root⟩ requests m = .ok ⟨⟩ m' ∧
        m'.view.Charted root (requests.reverse ++ done) ∧ m'.layout = m.layout ∧
        m'.freeCount + tableCost m.layout.top ((requests.reverse ++ done).map (·.virt)) =
          m.freeCount + tableCost m.layout.top (done.map (·.virt))) ∨
      ∃ e m', mapEach ⟨frameBase root⟩ requests m = .error (.error (.noFrame e)) m' ∧
        m.freeCount + tableCost m.layout.top (done.map (·.virt)) <
          tableCost m.layout.top ((requests.reverse ++ done).map (·.virt)) := by
  -- the pages mapped so far are kept newest first, and they pay for the tables that exist
  induction requests generalizing m done with
  | nil => exact .inl ⟨m, rfl, hcharted, rfl, rfl⟩
  | cons r rest ih =>
      rw [List.reverse_cons, List.append_assoc, List.singleton_append]
      rw [mapEach, List.forM]
      rcases mapPage_charted hcharted r with
        ⟨m₁, hrun, hcharted₁, hlayout, hpaid⟩ | ⟨e, m₁, hrun, hfew⟩
      · have hrest := ih hcharted₁
        rw [hlayout, hpaid] at hrest
        rw [Action.bind_ok hrun]
        exact hrest
      · refine .inr ⟨e, m₁, Action.bind_error hrun, hfew.trans_le (tableCost_mono ?_)⟩
        exact List.map_subset _ (List.subset_append_right _ _)

/-- In a space that was fresh, any order of a batch ends alike. -/
theorem mapEach_perm (hcharted : m.view.Charted root []) {requests others : List PageRequest}
    (hdistinct : PageRequest.Distinct m.layout.top requests) (hperm : others.Perm requests) :
    (∃ m', mapEach ⟨frameBase root⟩ others m = .ok ⟨⟩ m' ∧
        m'.freeCount + tableCost m.layout.top (requests.map (·.virt)) = m.freeCount ∧
        m'.view.Charted root others.reverse ∧
        ∀ virt : VirtAddr, m'.view.lookup root virt.route =
          PageRequest.pageMap m.layout.top requests (virt.pageKey m.layout.top)) ∨
      m.freeCount < tableCost m.layout.top (requests.map (·.virt)) ∧
        ∃ e m', mapEach ⟨frameBase root⟩ others m = .error (.error (.noFrame e)) m' := by
  have hreverse : others.reverse.Perm requests := (List.reverse_perm others).trans hperm
  rcases mapEach_charted hcharted others with
    ⟨m', hrun, hcharted', hlayout, hpaid⟩ | ⟨e, m', hrun, hfew⟩
  · rw [List.append_nil] at hcharted' hpaid
    rw [tableCost_perm (hreverse.map _), List.map_nil, tableCost_nil, Nat.add_zero] at hpaid
    refine .inl ⟨m', hrun, hpaid, hcharted', fun virt => ?_⟩
    rw [hcharted'.maps virt, view_layout, hlayout, PageRequest.pageMap_perm hdistinct hreverse]
  · rw [List.append_nil, tableCost_perm (hreverse.map _), List.map_nil, tableCost_nil,
      Nat.add_zero] at hfew
    exact .inr ⟨hfew, e, m', hrun⟩

end Batch

/-- A batch of mappings in a fresh space goes through exactly if there is a free frame for each
table on the ways to its pages.  It takes these frames, and in any order it takes as many and maps
the same pages to the same places. -/
theorem batch_costs_its_tables {m₀ m : Machine} (hsound : m₀.view.Sound) {space : AddressSpace}
    (hnew : newSpace m₀ = .ok space m) {requests : List PageRequest}
    (hdistinct : PageRequest.Distinct m.layout.top requests) :
    ((∃ m', mapEach space requests m = .ok ⟨⟩ m') ↔
        tableCost m.layout.top (requests.map (·.virt)) ≤ m.freeCount) ∧
      ∀ m', mapEach space requests m = .ok ⟨⟩ m' →
        m'.freeCount + tableCost m.layout.top (requests.map (·.virt)) = m.freeCount ∧
        (∀ virt, ∀ ε : Type, translate space virt m' =
          (.ok ((PageRequest.pageMap m.layout.top requests (virt.pageKey m.layout.top)).map
            fun target => (⟨target.1.word + virt.pageOffset⟩, target.2)) m' :
              EStateM.Result (Failure ε) _ _)) ∧
        ∀ others : List PageRequest, others.Perm requests →
          ∃ n', mapEach space others m = .ok ⟨⟩ n' ∧ n'.freeCount = m'.freeCount ∧
            ∀ virt, TranslatesAlike space virt m' n' := by
  obtain ⟨root, hroot, rfl, hview⟩ := newSpace_eq_ok hsound hnew
  have hcharted : m.view.Charted root [] := hview ▸ .newRoot hsound hroot
  have hends := fun (others : List PageRequest) (hperm : others.Perm requests) =>
    mapEach_perm hcharted hdistinct hperm
  rcases hends requests (List.Perm.refl _) with
    ⟨m', hrun, hpaid, hcharted', hmaps⟩ | ⟨hfew, e, m', hrun⟩
  · constructor
    · exact iff_of_true ⟨m', hrun⟩ (by omega)
    · intro other hother
      cases hrun.symm.trans hother
      refine ⟨hpaid, fun virt ε => ?_, fun others hperm => ?_⟩
      · rw [translate_run hcharted'.sound hcharted'.tree virt, hmaps]
      · rcases hends others hperm with ⟨n', hrun', hpaid', hcharted'', hmaps'⟩ | ⟨hfew, _⟩
        · refine ⟨n', hrun', by omega, fun virt => ?_⟩
          apply translatesAlike_of_lookup_eq hcharted'.sound hcharted'.tree hcharted''.sound
            hcharted''.tree
          rw [hmaps, hmaps']
        · omega
  · constructor
    · constructor
      · rintro ⟨other, hother⟩
        cases hrun.symm.trans hother
      · intro henough
        omega
    · intro other hother
      cases hrun.symm.trans hother

/-- In the small machine a space can be made, and four frames are left beside its root. -/
theorem exists_newSpace_tightMachine :
    ∃ root m, newSpace (tightMachine 0) = .ok ⟨frameBase root⟩ m ∧
      m.view.Charted root [] ∧ m.layout.top = 4 ∧ m.freeCount = 4 := by
  have hsound := (wellFormed_tightMachine 0).sound
  obtain ⟨root, m, hroot, hnew, hview⟩ := newSpace_supplied hsound (supplied_tightMachine 0)
  have hfree : m.view.free = Set.Ico 2 7 \ Set.Ico root (root + 1) := by
    rw [hview]
    exact congrArg (· \ Set.Ico root (root + 1)) (free_tightMachine 0)
  have hin : Set.Ico root (root + 1) ⊆ Set.Ico 2 7 := by
    have hbounds := (free_tightMachine 0).subset hroot
    rw [Set.mem_Ico] at hbounds
    exact Set.Ico_subset_Ico hbounds.1 hbounds.2
  have hadd := Set.ncard_sdiff_add_ncard_of_subset hin (Set.finite_Ico 2 7)
  rw [← hfree, Set.ncard_Ico_nat, Set.ncard_Ico_nat, ← freeCount_eq_ncard] at hadd
  refine ⟨root, m, hnew, ?_, congrArg (fun v => v.layout.top) hview, by omega⟩
  rw [hview]
  exact .newRoot hsound hroot

/-- Two pages in neighbouring areas of 2 MiB cost four tables, which are all the small machine has
left. -/
theorem batch_costs_its_tables_tightMachine :
    ∃ root m m', (tightMachine 0).view.Sound ∧ newSpace (tightMachine 0) = .ok ⟨frameBase root⟩ m ∧
      mapEach ⟨frameBase root⟩
          [⟨⟨0x400000⟩, ⟨0x5000⟩, .read⟩, ⟨⟨0x600000⟩, ⟨0x5000⟩, .read⟩] m = .ok ⟨⟩ m' ∧
        m'.freeCount = 0 := by
  have hsound := (wellFormed_tightMachine 0).sound
  obtain ⟨root, m, hnew, _, htop, hcount⟩ := exists_newSpace_tightMachine
  have hcost : tableCost 4 [⟨0x400000⟩, ⟨0x600000⟩] = 4 := by decide
  have hdistinct : PageRequest.Distinct m.layout.top
      [⟨⟨0x400000⟩, ⟨0x5000⟩, .read⟩, ⟨⟨0x600000⟩, ⟨0x5000⟩, .read⟩] := by
    rw [htop]
    unfold PageRequest.Distinct
    decide
  have hbatch := batch_costs_its_tables hsound hnew hdistinct
  rw [htop, hcount] at hbatch
  obtain ⟨m', hrun⟩ := hbatch.1.mpr hcost.le
  have hpaid := (hbatch.2 m' hrun).1
  rw [List.map_cons, List.map_cons, List.map_nil, hcost] at hpaid
  exact ⟨root, m, m', hsound, hnew, hrun, by omega⟩

end Machine

end BootMemory
