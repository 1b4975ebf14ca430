import BootMemory.Proofs.Construction
import BootMemory.Proofs.Ownership

/-!
# Enough frames

Work in a space without large pages fails for want of frames alone.  A page needs a table for each
level below the root at most, so a range is mapped if there are that many free frames for each of
its pages.
-/

namespace BootMemory

namespace View

def Supplied (v : View) (n : Nat) : Prop :=
  ∃ s : Finset Nat, (s : Set Nat) ⊆ v.free ∧ n ≤ s.card

namespace Supplied

variable {v w : View} {n count : Nat}

theorem of_free_eq (hsupplied : v.Supplied n) (hfree : w.free = v.free) : w.Supplied n := by
  obtain ⟨s, hs, hcard⟩ := hsupplied
  exact ⟨s, hfree ▸ hs, hcard⟩

theorem of_Ico (low high : Nat) (hfree : Set.Ico low high ⊆ v.free) :
    v.Supplied (high - low) := by
  refine ⟨Finset.Ico low high, ?_, le_of_eq (Nat.card_Ico low high).symm⟩
  rwa [Finset.coe_Ico]

theorem mono (hsupplied : v.Supplied n) (hle : count ≤ n) : v.Supplied count := by
  obtain ⟨s, hs, hcard⟩ := hsupplied
  exact ⟨s, hs, hle.trans hcard⟩

theorem free_ne_empty (hsupplied : v.Supplied (n + 1)) : v.free ≠ ∅ := by
  obtain ⟨s, hs, hcard⟩ := hsupplied
  obtain ⟨f, hf⟩ := Finset.card_pos.mp (show 0 < s.card by omega)
  exact Set.nonempty_iff_ne_empty.mp ⟨f, hs hf⟩

theorem take (hsupplied : v.Supplied (count + n)) (f : Nat) : (v.take f count).Supplied n := by
  obtain ⟨s, hs, hcard⟩ := hsupplied
  refine ⟨s \ Finset.Ico f (f + count), ?_, ?_⟩
  · intro g hg
    obtain ⟨hin, hout⟩ := Finset.mem_sdiff.mp (Finset.mem_coe.mp hg)
    exact ⟨hs hin, fun htaken => hout (Finset.mem_Ico.mpr htaken)⟩
  · have htaken : (Finset.Ico f (f + count)).card = count := by
      rw [Nat.card_Ico, Nat.add_sub_cancel_left]
    have hrest := Finset.le_card_sdiff (Finset.Ico f (f + count)) s
    omega

end Supplied

/-- Two pages on routes that part above the lowest level need a table for each level, and one
more. -/
theorem Tree.exists_tables {v : View} {root : Nat} {p q : Route} {a b : PhysAddr × EntryFlags}
    (htree : v.Tree root) (hp : v.lookup root p = some a) (hq : v.lookup root q = some b)
    (hpart : ¬Route.Agree v.layout.top (v.layout.top - 1) p q) :
    ∃ s : Finset Nat, (s : Set Nat) ⊆ v.tables root ∧ s.card = v.layout.top + 1 := by
  have htop : 0 < v.layout.top := by
    rcases v.layout.top_eq with htop | htop <;> omega
  obtain ⟨last, hlast, _⟩ := Option.bind_eq_some_iff.mp hp
  obtain ⟨other, hother, _⟩ := Option.bind_eq_some_iff.mp hq
  have hreach : ∀ d : Fin v.layout.top, ∃ t, v.tableAt root p d = some t :=
    fun d => exists_tableAt_of_le (Nat.le_sub_one_of_lt d.isLt) ⟨last, hlast⟩
  choose table htable using hreach
  have hinjective : Function.Injective table := by
    intro d e heq
    exact Fin.ext (htree.once p p d e _ d.isLt e.isLt (htable d) (heq ▸ htable e)).1
  have hnew : other ∉ Finset.univ.image table := by
    intro hin
    obtain ⟨d, _, rfl⟩ := Finset.mem_image.mp hin
    obtain ⟨hd, hagree⟩ := htree.once p q d _ _ d.isLt (Nat.sub_one_lt_of_lt htop) (htable d) hother
    exact hpart (hd ▸ hagree)
  refine ⟨insert other (Finset.univ.image table), ?_, ?_⟩
  · intro t ht
    rcases Finset.mem_insert.mp (Finset.mem_coe.mp ht) with rfl | hin
    · exact mem_tables (Nat.sub_one_lt_of_lt htop) hother
    · obtain ⟨d, _, rfl⟩ := Finset.mem_image.mp hin
      exact mem_tables d.isLt (htable d)
  · rw [Finset.card_insert_of_notMem hnew, Finset.card_image_of_injective _ hinjective,
      Finset.card_univ, Fintype.card_fin]

end View

namespace Machine

variable {m : Machine} {root table depth n : Nat} {virt : VirtAddr}

theorem newSpace_supplied (hsound : m.view.Sound) (hsupplied : m.view.Supplied (n + 1)) :
    ∃ f m', f ∈ m.view.free ∧ newSpace m = .ok ⟨frameBase f⟩ m' ∧
      m'.view = (m.view.take f 1).clear f 1 := by
  rcases newTable_run hsound with ⟨_, _, _, _, hnone⟩ | ⟨f, m₁, hfree, hrun, hview⟩
  · exact absurd hnone hsupplied.free_ne_empty
  · obtain ⟨m', hemit, hview'⟩ := emit_run (ε := MapError) (.spaceCreated (frameBase f)) m₁
    refine ⟨f, m', hfree, ?_, hview'.trans hview⟩
    rw [newSpace, Action.bind_ok hrun, Action.bind_ok hemit]
    rfl

theorem alloc_supplied (hsound : m.view.Sound) (hsupplied : m.view.Supplied (1 + n)) :
    ∃ f m', alloc 1 m = .ok (frameBase f) m' ∧ m'.view = m.view.take f 1 := by
  rcases alloc_run hsound 1 with ⟨_, _, _, _, hnone⟩ | ⟨f, m', _, _, hrun, hview⟩
  · have hsome : m.view.Supplied (n + 1) := hsupplied.mono (Nat.add_comm n 1).le
    obtain ⟨f, hf⟩ := Set.nonempty_iff_ne_empty.mpr hsome.free_ne_empty
    refine absurd ?_ (hnone (by decide) f)
    rintro g ⟨hlow, hhigh⟩
    obtain rfl : f = g := hlow.antisymm (Nat.le_of_lt_succ hhigh)
    exact hf
  · exact ⟨f, m', hrun, hview⟩

/-- Each step of a walk takes one frame at most. -/
theorem walk_supplied (hsound : m.view.Sound) (htree : m.view.Tree root)
    (hsmall : m.view.AllSmall root) {target steps : Nat} (htarget : 1 ≤ target)
    (hreach : m.view.tableAt root virt.route depth = some table)
    (hdepth : depth + steps + target = m.layout.top) (hsupplied : m.view.Supplied (steps + n)) :
    ∃ next m', walk virt true target steps (frameBase table) m = .ok (frameBase next) m' ∧
      m'.view.Supplied n := by
  induction steps generalizing m depth table with
  | zero =>
      rw [Nat.zero_add] at hsupplied
      exact ⟨table, m, rfl, hsupplied⟩
  | succ steps ih =>
      have habove : depth + 1 < m.layout.top := by
        omega
      have hlevel : target + steps + 1 = m.layout.top - depth := by
        omega
      rw [walk, hlevel]
      rcases child_extend hsound htree hreach habove with
        ⟨next, hchild, hrun⟩ | ⟨node, m₁, hnode, hgap, hrun, hview⟩ | ⟨e, m₁, _, _, hnone⟩
      · have hnext : m.view.tableAt root virt.route (depth + 1) = some next := by
          rw [View.tableAt, hreach]
          exact hchild
        rw [Action.bind_ok hrun]
        exact ih hsound htree hsmall hnext (by omega) (hsupplied.mono (by omega))
      · have hgrown : View.Grown root m.view m₁.view :=
          hview ▸ hgap.grown_link htree hsound hnode
        have hlt := (hsound.plain node hnode).lt hsound.memory
        have hlayout : m₁.layout = m.layout := congrArg View.layout hview
        have hnext : m₁.view.tableAt root virt.route (depth + 1) = some node := by
          rw [hview]
          exact hgap.tableAt_link_node htree hnode hlt (fun _ _ => rfl)
        have hrest : m₁.view.Supplied (steps + n) := by
          have hmore : m.view.Supplied (1 + (steps + n)) := hsupplied.mono (by omega)
          apply (hmore.take node).of_free_eq
          rw [hview]
          rfl
        rw [Action.bind_ok hrun]
        exact ih (hgrown.sound hsound) hgrown.tree (hgrown.small hsmall) hnext
          (by rw [hlayout]; omega) hrest
      · have hsome : m.view.Supplied (steps + n + 1) := hsupplied.mono (by omega)
        exact absurd (hnone hsmall) hsome.free_ne_empty

theorem mapPage_supplied (hsound : m.view.Sound) (htree : m.view.Tree root)
    (hsmall : m.view.AllSmall root) (virt : VirtAddr) (phys : PhysAddr) (rights : AccessRights)
    (hsupplied : m.view.Supplied (m.layout.top - 1 + n)) :
    ∃ m', mapPage ⟨frameBase root⟩ virt phys rights .size4KiB m = .ok ⟨⟩ m' ∧
      View.Grown root m.view m'.view ∧ m'.view.Supplied n := by
  have hroot : m.view.tableAt root virt.pageFloor.route 0 = some root := rfl
  obtain ⟨next, m₁, hwalk, hrest⟩ := walk_supplied hsound htree hsmall (le_refl 1) hroot
    (show 0 + (m.layout.top - 1) + 1 = m.layout.top from by
      have hpos := m.levels_pos
      omega) hsupplied
  rw [← walkTo_eq (le_refl 1) m.levels_pos ⟨frameBase root⟩ virt.pageFloor true] at hwalk
  rcases mapPage_run hsound htree virt phys rights .size4KiB with
    ⟨table, m₂, m', _, hsame, hrun, hfree, hset⟩ | ⟨e, m', _, hfail, _⟩
  · rw [hwalk] at hsame
    injection hsame with _ hmachine
    subst hmachine
    exact ⟨m', hrun, hset.grown, hrest.of_free_eq hfree⟩
  · rw [hwalk] at hfail
    exact nomatch hfail rfl

theorem pageOffset_eq_ok {kind : AddrKind} (a : Addr kind) (index : Nat)
    (hfits : a.pageFloor.page + index < 2 ^ 52) :
    Word.mul (UInt64.ofNat index) pageSize = .ok (UInt64.ofNat (index * 4096)) ∧
      a.pageFloor.add (UInt64.ofNat (index * 4096)) = .ok (a.pageFloor.afterPages index) := by
  have hindex : (UInt64.ofNat index).toNat = index := by
    apply UInt64.toNat_ofNat_of_lt'
    simp only [UInt64.size]
    omega
  have hoffset : (UInt64.ofNat (index * 4096)).toNat = index * 4096 := by
    apply UInt64.toNat_ofNat_of_lt'
    simp only [UInt64.size]
    omega
  have hproduct : (UInt64.ofNat index).toNat * pageSize.toNat < 2 ^ 64 := by
    rw [hindex, toNat_pageSize]
    omega
  constructor
  · rw [Word.mul_eq_ok hproduct, UInt64.ofNat_mul]
    rfl
  · have hstart := a.toNat_pageFloor
    rw [Addr.page_pageFloor] at hfits
    rw [Addr.add, Word.add_eq_ok (by omega)]
    rfl

/-- Where the addresses do not leave the word, each page of a range is mapped in its turn. -/
theorem mapPages_succ_of_fits (space : AddressSpace) {virt : VirtAddr} {phys : PhysAddr}
    (rights : AccessRights) {count first : Nat} (hvirt : virt.page + first < 2 ^ 52)
    (hphys : phys.page + first < 2 ^ 52) :
    mapPages space virt.pageFloor phys.pageFloor rights (count + 1) first =
      (mapPage space (virt.pageFloor.afterPages first) (phys.pageFloor.afterPages first) rights
        .size4KiB >>=
          fun _ => mapPages space virt.pageFloor phys.pageFloor rights count (first + 1)) := by
  obtain ⟨hoffset, hpage⟩ := pageOffset_eq_ok virt first (by rwa [Addr.page_pageFloor])
  obtain ⟨_, hframe⟩ := pageOffset_eq_ok phys first (by rwa [Addr.page_pageFloor])
  funext m
  rw [mapPages, hoffset, Action.bind_ok (Action.lift_ok _ m), hpage,
    Action.bind_ok (Action.lift_ok _ m), hframe, Action.bind_ok (Action.lift_ok _ m)]

theorem mapPages_supplied (hsound : m.view.Sound) (htree : m.view.Tree root)
    (hsmall : m.view.AllSmall root) (virt : VirtAddr) (phys : PhysAddr) (rights : AccessRights)
    {count first : Nat} (hvirt : virt.page + first + count ≤ 2 ^ 52)
    (hphys : phys.page + first + count ≤ 2 ^ 52)
    (hsupplied : m.view.Supplied (count * (m.layout.top - 1) + n)) :
    ∃ m', mapPages ⟨frameBase root⟩ virt.pageFloor phys.pageFloor rights count first m =
        .ok ⟨⟩ m' ∧
      View.Grown root m.view m'.view ∧ m'.view.Supplied n := by
  induction count generalizing m first with
  | zero =>
      rw [Nat.zero_mul, Nat.zero_add] at hsupplied
      exact ⟨m, rfl, .refl htree, hsupplied⟩
  | succ count ih =>
      rw [Nat.succ_mul, Nat.add_comm (count * _), Nat.add_assoc] at hsupplied
      obtain ⟨m₁, hrun, hgrown, hrest⟩ := mapPage_supplied hsound htree hsmall
        (virt.pageFloor.afterPages first) (phys.pageFloor.afterPages first) rights hsupplied
      have hlayout : m₁.layout = m.layout := hgrown.layout
      rw [← hlayout] at hrest
      obtain ⟨m', hpages, hgrown', hleft⟩ := ih (hgrown.sound hsound) hgrown.tree
        (hgrown.small hsmall) (show virt.page + (first + 1) + count ≤ 2 ^ 52 by omega) (by omega)
        hrest
      refine ⟨m', ?_, hgrown.trans hgrown', hleft⟩
      rw [mapPages_succ_of_fits _ rights (by omega) (by omega), Action.bind_ok hrun]
      exact hpages

/-- A range is mapped if there are frames for the tables of all its pages. -/
theorem mapRange_supplied (hsound : m.view.Sound) (htree : m.view.Tree root)
    (hsmall : m.view.AllSmall root) (request : MapRequest) {count : Word}
    (hcount : Word.pageCount request.length = .ok count) (rights : AccessRights)
    (hvirt : request.virt.page + count.toNat ≤ 2 ^ 52)
    (hphys : request.phys.page + count.toNat ≤ 2 ^ 52)
    (hsupplied : m.view.Supplied (count.toNat * (m.layout.top - 1) + n)) :
    ∃ m', mapRange ⟨frameBase root⟩ request rights m = .ok ⟨⟩ m' ∧ m'.view.Supplied n := by
  obtain ⟨m₁, hemit, hview⟩ := emit_run (ε := MapError)
    (.mappingPages count request.virt.pageFloor request.phys.pageFloor) m
  have hlayout : m₁.layout = m.layout := congrArg View.layout hview
  rw [← hview, ← hlayout] at hsupplied
  obtain ⟨m', hpages, _, hleft⟩ := mapPages_supplied (hview ▸ hsound) (hview ▸ htree)
    (hview ▸ hsmall) request.virt request.phys rights
    (show request.virt.page + 0 + count.toNat ≤ 2 ^ 52 from hvirt) hphys hsupplied
  refine ⟨m', ?_, hleft⟩
  rw [mapRange, hcount, Action.bind_ok (Action.lift_ok _ m), Action.bind_ok hemit]
  exact hpages

/-- Where there are frames for the tables of one page, at least the first page of a range is
mapped. -/
theorem mapRange_starts {pages : PageMap} (hsound : m.view.Sound) (htree : m.view.Tree root)
    (hsmall : m.view.AllSmall root) (hmaps : m.view.Maps root pages) (request : MapRequest)
    {count : Word} (hcount : Word.pageCount request.length = .ok count) (hsome : 0 < count.toNat)
    (rights : AccessRights) (hsupplied : m.view.Supplied (m.layout.top - 1)) :
    ∃ k m', 0 < k ∧ k ≤ count.toNat ∧
      RangeMapped root pages request.virt.pageFloor request.phys.pageFloor rights 0 k m m' ∧
      (mapRange ⟨frameBase root⟩ request rights m = .ok ⟨⟩ m' ∨
        ∃ failure, mapRange ⟨frameBase root⟩ request rights m = .error failure m') := by
  obtain ⟨rest, hrest⟩ := Nat.exists_eq_add_of_le' hsome
  obtain ⟨m₁, hemit, hview⟩ := emit_run (ε := MapError)
    (.mappingPages count request.virt.pageFloor request.phys.pageFloor) m
  have hlayout : m₁.layout = m.layout := congrArg View.layout hview
  have hfirst : m₁.view.Maps root (pages.setRange m₁.layout.top request.virt.pageFloor
      request.phys.pageFloor rights 0) := hview ▸ hmaps
  rw [← hview, ← hlayout] at hsupplied
  rw [← hview] at hsound htree hsmall
  obtain ⟨m₂, hrun, _, _⟩ := mapPage_supplied (n := 0) hsound htree hsmall
    (request.virt.pageFloor.afterPages 0) (request.phys.pageFloor.afterPages 0) rights hsupplied
  rcases mapPage_run hsound htree (request.virt.pageFloor.afterPages 0)
    (request.phys.pageFloor.afterPages 0) rights .size4KiB with
    ⟨_, _, _, _, _, hdone, _, hset⟩ | ⟨_, _, hfail, _⟩
  · cases hrun.symm.trans hdone
    have hbound : 0 + 1 + rest < 2 ^ 64 := by
      have hlt := count.toNat_lt
      omega
    obtain ⟨k, m', hle, hrange, hresult⟩ := mapPages_run (hset.grown.sound hsound)
      hset.grown.tree hbound (maps_setRange_succ hfirst hset)
    have hall := RangeMapped.cons hset hrange
    have hsize : m₁.invalidated = m.invalidated := congrArg View.invalidated hview
    refine ⟨k + 1, m', Nat.succ_pos k, by omega,
      ⟨hview ▸ hall.grown, hlayout ▸ hall.maps, hsize ▸ hall.invalidated⟩, ?_⟩
    rw [mapRange, hcount, Action.bind_ok (Action.lift_ok _ m), Action.bind_ok hemit, hrest,
      mapPages_succ_of_fits _ rights request.virt.page_lt request.phys.page_lt,
      Action.bind_ok hrun]
    exact hresult.imp_left And.right
  · cases hrun.symm.trans hfail

end Machine

theorem supplied_sixteenFrameMachine (memory : Memory) (log : Array LogEvent) :
    (sixteenFrameMachine memory log).view.Supplied 15 :=
  View.Supplied.of_Ico 1 16 (free_sixteenFrameMachine memory log)

/-- The small machine with a space that was just made. -/
theorem exists_newRoot_sixteenFrameMachine {memory : Memory} (hbase : memory.base = ⟨0⟩)
    (hsize : memory.size = 0x10000) :
    ∃ log root, ∃ m : Machine, m.WellFormed ∧ root ≠ 0 ∧
      m.view = (sixteenFrameMachine memory log).view.newRoot root ∧ m.view.Tree root ∧
      m.view.AllSmall root ∧ m.view.Supplied 14 := by
  obtain ⟨log, hbooted⟩ := booted_sixteenFrameMachine memory
  have hwell := hbooted.wellFormed (spans_sixteenFrameMachine hbase hsize log)
  have hsupplied : (sixteenFrameMachine memory log).view.Supplied (1 + 14) :=
    supplied_sixteenFrameMachine memory log
  obtain ⟨root, m, hfree, _, hview⟩ := Machine.newSpace_supplied hwell.sound hsupplied
  have hnew : m.view = (sixteenFrameMachine memory log).view.newRoot root := hview
  refine ⟨log, root, m, ?_, fun hzero => hbooted.zero_not_mem (hzero ▸ hfree), hnew, ?_, ?_, ?_⟩
  · exact hwell.of_view (congrArg View.layout hnew) (by rw [hnew]; exact Set.sdiff_subset)
  · exact hnew ▸ View.tree_newRoot (hwell.sound.plain root hfree)
  · exact hnew ▸ View.allSmall_newRoot _ root
  · apply (hsupplied.take root).of_free_eq
    rw [hnew]
    rfl

end BootMemory
