import BootMemory.Paging.Mapping
import BootMemory.Proofs.Walk

/-!
# Mapping on the view

A page that is mapped or unmapped changes what its own key is looked up to, and nothing else is
looked up differently.  An operation that fails may have added tables, and it moves no page.  A
range is mapped page by page, so it sets the keys of its first pages, up to where it stopped.
-/

namespace BootMemory

/-- The part of the number of a page that the levels decide on.  Pages with one key are looked up
alike. -/
def Addr.pageKey (top : Nat) (virt : VirtAddr) : Nat :=
  virt.page % 512 ^ top

theorem Addr.agree_route_iff {top : Nat} (htop : top ≤ 5) (a b : VirtAddr) :
    Route.Agree top top a.route b.route ↔ a.pageKey top = b.pageKey top := by
  have hindices := (agree_route_iff_tableIndex (Nat.zero_le top) a b).trans
    (tableIndex_eq_above_iff htop (Nat.zero_le top) a b)
  simpa [pageKey] using hindices

@[simp] theorem Addr.pageKey_pageFloor (top : Nat) (virt : VirtAddr) :
    virt.pageFloor.pageKey top = virt.pageKey top := by
  rw [pageKey, page_pageFloor, pageKey]

/-- Where pages are mapped to, by their keys. -/
abbrev PageMap := Nat → Option (PhysAddr × EntryFlags)

/-- What a page becomes that is mapped to the frame at `phys`. -/
def pageTarget (phys : PhysAddr) (rights : AccessRights) : PhysAddr × EntryFlags :=
  (⟨phys.word &&& frameMask⟩, .ofRights rights)

/-- The address some pages further on.  Bits above the word are lost. -/
def Addr.afterPages {kind : AddrKind} (a : Addr kind) (count : Nat) : Addr kind :=
  ⟨a.word + UInt64.ofNat (count * 4096)⟩

/-- The map after the first `count` pages of a range were mapped, one after the other. -/
def PageMap.setRange (pages : PageMap) (top : Nat) (virt : VirtAddr) (phys : PhysAddr)
    (rights : AccessRights) : (count : Nat) → PageMap
  | 0 => pages
  | count + 1 =>
      Function.update (setRange pages top virt phys rights count)
        ((virt.afterPages count).pageKey top)
        (some (pageTarget (phys.afterPages count) rights))

namespace View

def Maps (v : View) (root : Nat) (pages : PageMap) : Prop :=
  ∀ virt : VirtAddr, v.lookup root virt.route = pages (virt.pageKey v.layout.top)

/-- Work in a space that moves no page. -/
structure PagesKept (root : Nat) (v w : View) : Prop where
  grown : Grown root v w
  invalidated : w.invalidated = v.invalidated
  lookup : ∀ q, w.lookup root q = v.lookup root q

/-- Work in a space that moves the pages with the key of `page`, and drops the cached lookup. -/
structure PageSet (root : Nat) (page : VirtAddr) (target : Option (PhysAddr × EntryFlags))
    (v w : View) : Prop where
  grown : Grown root v w
  invalidated : w.invalidated = v.invalidated.push page
  lookup : ∀ q, w.lookup root q =
    if Route.Agree v.layout.top v.layout.top q page.route then target else v.lookup root q

section Maps

variable {v w : View} {root : Nat} {page : VirtAddr}
  {target : Option (PhysAddr × EntryFlags)} {pages : PageMap}

theorem Maps.of_lookup_eq (hmaps : v.Maps root pages) (hlayout : w.layout = v.layout)
    (hlookup : ∀ q, w.lookup root q = v.lookup root q) : w.Maps root pages := by
  intro virt
  rw [hlookup, hlayout]
  exact hmaps virt

theorem PagesKept.maps (hkept : PagesKept root v w) (hmaps : v.Maps root pages) :
    w.Maps root pages :=
  hmaps.of_lookup_eq hkept.grown.layout hkept.lookup

theorem PageSet.maps (hset : PageSet root page target v w) (hmaps : v.Maps root pages) :
    w.Maps root (Function.update pages (page.pageKey v.layout.top) target) := by
  have htop : v.layout.top ≤ 5 := by
    rcases v.layout.top_eq with htop | htop <;> omega
  intro virt
  rw [hset.lookup, hset.grown.layout, Function.update_apply]
  by_cases hkey : virt.pageKey v.layout.top = page.pageKey v.layout.top
  · rw [if_pos hkey, if_pos ((Addr.agree_route_iff htop virt page).mpr hkey)]
  · rw [if_neg hkey, if_neg (fun hagree => hkey ((Addr.agree_route_iff htop virt page).mp hagree))]
    exact hmaps virt

end Maps

theorem leafTarget_make (phys : PhysAddr) (rights : AccessRights) :
    leafTarget (TableEntry.make phys (.ofRights rights)) = some (pageTarget phys rights) := by
  have hflags := EntryFlags.ofRights_avoidsFrame rights
  rw [leafTarget, if_pos (TableEntry.isPresent_make_ofRights rights),
    TableEntry.address_make hflags, TableEntry.flags_make hflags]
  rfl

theorem pageSet_setLeaf {v : View} {root table : Nat} (htree : v.Tree root) (page : VirtAddr)
    (hleaf : v.tableAt root page.route (v.layout.top - 1) = some table) (e : TableEntry) :
    PageSet root page (leafTarget e) v ((v.setEntry table (page.route 1) e).invalidate page) where
  grown := (grown_setLeaf htree hleaf (page.route 1)).invalidate page
  invalidated := rfl
  lookup := by
    intro q
    have hsame : SameTables (v.setEntry table (page.route 1) e)
        ((v.setEntry table (page.route 1) e).invalidate page) root :=
      .of_bytes rfl (fun _ _ => rfl)
    rw [hsame.lookup_eq, lookup_setLeaf htree hleaf]

theorem Extended.pagesKept {v w : View} {root : Nat} {route : Route}
    (hextended : Extended root route v w) (htree : v.Tree root) (hsound : v.Sound) :
    PagesKept root v w where
  grown := hextended.grown htree hsound
  invalidated := hextended.invalidated_eq
  lookup := hextended.lookup_eq htree hsound

theorem PagesKept.trans_set {u v w : View} {root : Nat} {page : VirtAddr}
    {target : Option (PhysAddr × EntryFlags)} (hkept : PagesKept root u v)
    (hset : PageSet root page target v w) : PageSet root page target u w where
  grown := hkept.grown.trans hset.grown
  invalidated := by
    rw [hset.invalidated, hkept.invalidated]
  lookup := by
    intro q
    rw [hset.lookup, hkept.grown.layout, hkept.lookup]

end View

namespace Machine

section Pages

variable {m : Machine} {root : Nat}

theorem levels_pos (m : Machine) : 1 ≤ m.layout.top := by
  rcases m.layout.top_eq with htop | htop <;> omega

/-- The leaf entry of a page is written, and then the page is dropped. -/
theorem setLeaf_run {ε : Type} (hsound : m.view.Sound) (htree : m.view.Tree root) (page : VirtAddr)
    {table : Nat} (hleaf : m.view.tableAt root page.route (m.layout.top - 1) = some table)
    (e : TableEntry) :
    ∃ m₁ m', writeWord (entryBase table (page.route 1)) e.bits m =
        (.ok ⟨⟩ m₁ : EStateM.Result (Failure ε) _ _) ∧
      invalidate page m₁ = (.ok ⟨⟩ m' : EStateM.Result (Failure ε) _ _) ∧
      m'.view = (m.view.setEntry table (page.route 1) e).invalidate page ∧
      View.PageSet root page (View.leafTarget e) m.view m'.view := by
  have htable := htree.plain table (View.mem_tables (Nat.sub_one_lt_of_lt m.levels_pos) hleaf)
  obtain ⟨m₁, hwrite, hview₁⟩ := writeEntry_run (ε := ε) hsound htable (page.route 1) e
  obtain ⟨m', hdrop, hview'⟩ := invalidate_run (ε := ε) page m₁
  have hview : m'.view = (m.view.setEntry table (page.route 1) e).invalidate page := by
    rw [hview', hview₁]
  refine ⟨m₁, m', hwrite, hdrop, hview, ?_⟩
  rw [hview]
  exact View.pageSet_setLeaf htree page hleaf e

/-- Once the walk has come to the lowest table, the page is mapped by writing its leaf entry. -/
theorem mapPage_reached {m₁ : Machine} {table : Nat} (hsound : m₁.view.Sound)
    (htree : m₁.view.Tree root) (virt : VirtAddr) (phys : PhysAddr) (rights : AccessRights)
    (hleaf : m₁.view.tableAt root virt.pageFloor.route (m₁.layout.top - 1) = some table)
    (hwalk : walkTo ⟨frameBase root⟩ virt.pageFloor 1 true m = .ok (frameBase table) m₁) :
    ∃ m', mapPage ⟨frameBase root⟩ virt phys rights .size4KiB m = .ok ⟨⟩ m' ∧
      m'.view = (m₁.view.setEntry table (virt.pageFloor.route 1)
        (TableEntry.make phys (.ofRights rights))).invalidate virt.pageFloor ∧
      View.PageSet root virt.pageFloor (some (pageTarget phys rights)) m₁.view m'.view := by
  have htable := htree.plain table
    (View.mem_tables (Nat.sub_one_lt_of_lt m₁.levels_pos) hleaf)
  have hslot : slot (frameBase table) (virt.pageFloor.tableIndex 1) =
      .ok (entryBase table (virt.pageFloor.route 1)) :=
    slot_frameBase (htable.lt hsound.memory) (virt.pageFloor.route 1)
  obtain ⟨m₂, m₃, hwrite, hdrop, hview, hset⟩ := setLeaf_run (ε := MapError) hsound htree
    virt.pageFloor hleaf (TableEntry.make phys (.ofRights rights))
  obtain ⟨m₄, hemit, hview₄⟩ := emit_run (ε := MapError)
    (.mapped virt.pageFloor phys (TableEntry.make phys (.ofRights rights)).flags) m₃
  rw [View.leafTarget_make, ← hview₄] at hset
  refine ⟨m₄, ?_, hview₄.trans hview, hset⟩
  rw [mapPage, if_neg (not_not.mpr rfl), Action.bind_ok hwalk, hslot,
    Action.bind_ok (Action.lift_ok _ m₁), Action.bind_ok hwrite, Action.bind_ok hdrop]
  exact hemit

/-- A page is mapped, or the mapping fails and no page is moved.  Frames are taken on the walk
alone, and the walk is the one step that may fail. -/
theorem mapPage_run (hsound : m.view.Sound) (htree : m.view.Tree root) (virt : VirtAddr)
    (phys : PhysAddr) (rights : AccessRights) (size : PageSize) :
    (∃ table m₁ m', size = .size4KiB ∧
        walkTo ⟨frameBase root⟩ virt.pageFloor 1 true m = .ok (frameBase table) m₁ ∧
        mapPage ⟨frameBase root⟩ virt phys rights size m = .ok ⟨⟩ m' ∧
        m'.view.free = m₁.view.free ∧
        View.PageSet root virt.pageFloor (some (pageTarget phys rights)) m.view m'.view) ∨
      ∃ e m', mapPage ⟨frameBase root⟩ virt phys rights size m = .error (.error e) m' ∧
        (size = .size4KiB →
          walkTo ⟨frameBase root⟩ virt.pageFloor 1 true m = .error (.error e) m') ∧
        View.PagesKept root m.view m'.view := by
  by_cases hsize : size = .size4KiB
  · obtain ⟨m₁, hextended, hwalk⟩ :=
      walkTo_extend hsound htree virt.pageFloor (le_refl 1) m.levels_pos
    have hkept := hextended.pagesKept htree hsound
    subst hsize
    rcases hwalk with ⟨table, hleaf, hwalk⟩ | ⟨e, hwalk⟩
    · left
      have hlayout : m₁.layout = m.layout := hkept.grown.layout
      rw [← hlayout] at hleaf
      obtain ⟨m', hrun, hview, hset⟩ := mapPage_reached (hkept.grown.sound hsound)
        hkept.grown.tree virt phys rights hleaf hwalk
      exact ⟨table, m₁, m', rfl, hwalk, hrun, hview ▸ rfl, hkept.trans_set hset⟩
    · right
      refine ⟨e, m₁, ?_, fun _ => hwalk, hkept⟩
      rw [mapPage, if_neg (not_not.mpr rfl), Action.bind_error hwalk]
  · right
    refine ⟨.unsupportedSize size, m, ?_, fun hsame => absurd hsame hsize, View.Grown.refl htree,
      rfl, fun _ => rfl⟩
    rw [mapPage, if_pos hsize]
    rfl

theorem leaf_run {ε : Type} (hsound : m.view.Sound) (htree : m.view.Tree root) (virt : VirtAddr) :
    leaf ⟨frameBase root⟩ virt m =
      (.ok ((m.view.tableAt root virt.route (m.layout.top - 1)).map fun table =>
        (entryBase table (virt.route 1), m.view.entry table (virt.route 1))) m :
        EStateM.Result (Failure ε) _ _) := by
  rw [leaf]
  rcases walkTo_lookup hsound htree virt (le_refl 1) m.levels_pos with
    ⟨table, hreach, hwalk⟩ | ⟨hreach, e, hwalk⟩
  · have htable := htree.plain table
      (View.mem_tables (Nat.sub_one_lt_of_lt m.levels_pos) hreach)
    have hslot : slot (frameBase table) (virt.tableIndex 1) =
        .ok (entryBase table (virt.route 1)) :=
      slot_frameBase (htable.lt hsound.memory) (virt.route 1)
    have hread := readEntry_run (ε := ε) hsound htable (virt.route 1)
    rw [Action.bind_ok (Action.attempt_ok hwalk), hreach]
    simp only [hslot]
    rw [Action.bind_ok (Action.lift_ok _ m), Action.bind_ok hread]
    rfl
  · rw [Action.bind_ok (Action.attempt_error hwalk), hreach]
    rfl

theorem translate_run {ε : Type} (hsound : m.view.Sound) (htree : m.view.Tree root)
    (virt : VirtAddr) :
    translate ⟨frameBase root⟩ virt m =
      (.ok ((m.view.lookup root virt.route).map fun target =>
        (⟨target.1.word + virt.pageOffset⟩, target.2)) m : EStateM.Result (Failure ε) _ _) := by
  rw [translate, Action.bind_ok (leaf_run hsound htree virt), View.lookup]
  cases hreach : m.view.tableAt root virt.route (m.layout.top - 1) with
  | none =>
      simp only [view_layout, hreach]
      rfl
  | some table =>
      simp only [view_layout, hreach, Option.map_some, Option.bind_some, View.leafTarget]
      cases hpresent : (m.view.entry table (virt.route 1)).isPresent with
      | false => rfl
      | true =>
          have hframe := TableEntry.frame_lt (m.view.entry table (virt.route 1))
          have haddr := congrArg (fun a : PhysAddr => a.word.toNat)
            (TableEntry.address_eq_frameBase (m.view.entry table (virt.route 1)))
          rw [toNat_frameBase (lt_trans hframe (by decide))] at haddr
          have hoffset := Addr.toNat_pageOffset virt
          have hadd : (m.view.entry table (virt.route 1)).address.add virt.pageOffset =
              .ok ⟨(m.view.entry table (virt.route 1)).address.word + virt.pageOffset⟩ := by
            rw [Addr.add, Word.add_eq_ok (by omega)]
            rfl
          simp only [if_true, hadd]
          rfl

/-- A page that was mapped is unmapped and its frame answered; else nothing is changed. -/
theorem unmapPage_run {ε : Type} (hsound : m.view.Sound) (htree : m.view.Tree root)
    (virt : VirtAddr) :
    (∃ target m', m.view.lookup root virt.pageFloor.route = some target ∧
        unmapPage ⟨frameBase root⟩ virt m =
          (.ok (some target.1) m' : EStateM.Result (Failure ε) _ _) ∧
        View.PageSet root virt.pageFloor none m.view m'.view) ∨
      (m.view.lookup root virt.pageFloor.route = none ∧
        unmapPage ⟨frameBase root⟩ virt m = (.ok none m : EStateM.Result (Failure ε) _ _)) := by
  rw [unmapPage, Action.bind_ok (leaf_run hsound htree virt.pageFloor), View.lookup]
  cases hreach : m.view.tableAt root virt.pageFloor.route (m.layout.top - 1) with
  | none =>
      right
      simp only [view_layout, hreach]
      exact ⟨rfl, rfl⟩
  | some table =>
      simp only [view_layout, hreach, Option.map_some, Option.bind_some, View.leafTarget]
      cases hpresent : (m.view.entry table (virt.pageFloor.route 1)).isPresent with
      | false => exact .inr ⟨rfl, rfl⟩
      | true =>
          left
          obtain ⟨m₁, m₂, hwrite, hdrop, _, hset⟩ :=
            setLeaf_run (ε := ε) hsound htree virt.pageFloor hreach ⟨0⟩
          refine ⟨_, m₂, rfl, ?_, hset⟩
          simp only [if_true]
          rw [Action.bind_ok hwrite, Action.bind_ok hdrop]
          rfl

end Pages

/-! ## Ranges -/

section Ranges

theorem pageOffset_cases {kind : AddrKind} {index : Nat} (hindex : index < 2 ^ 64) (a : Addr kind) :
    Word.mul (UInt64.ofNat index) pageSize = .error .mulOverflow ∨
      ∃ offset, Word.mul (UInt64.ofNat index) pageSize = .ok offset ∧
        (a.add offset = .error .addOverflow ∨ a.add offset = .ok (a.afterPages index)) := by
  have hvalue : (UInt64.ofNat index).toNat = index := UInt64.toNat_ofNat_of_lt' hindex
  by_cases hproduct : (UInt64.ofNat index).toNat * pageSize.toNat < 2 ^ 64
  · right
    have hoffset : UInt64.ofNat index * pageSize = UInt64.ofNat (index * 4096) := by
      rw [UInt64.ofNat_mul]
      rfl
    refine ⟨_, Word.mul_eq_ok hproduct, ?_⟩
    rw [hoffset, Addr.add, Addr.afterPages]
    by_cases hsum : a.word.toNat + (UInt64.ofNat (index * 4096)).toNat < 2 ^ 64
    · rw [Word.add_eq_ok hsum]
      exact .inr rfl
    · rw [Word.add_eq_error (Nat.not_lt.mp hsum)]
      exact .inl rfl
  · exact .inl (if_neg hproduct)

variable {m : Machine} {root : Nat} {virt : VirtAddr} {phys : PhysAddr} {rights : AccessRights}
  {pages : PageMap}

/-- The address of each page is computed before the page is mapped. -/
theorem mapPages_succ {count first : Nat} (hfirst : first < 2 ^ 64) (space : AddressSpace) :
    (∃ f, mapPages space virt phys rights (count + 1) first = Action.abort f) ∨
      mapPages space virt phys rights (count + 1) first =
        (mapPage space (virt.afterPages first) (phys.afterPages first) rights .size4KiB >>=
          fun _ => mapPages space virt phys rights count (first + 1)) := by
  rw [mapPages]
  rcases pageOffset_cases hfirst virt with hmul | ⟨offset, hmul, hadd | hadd⟩
  · rw [hmul]
    exact .inl ⟨_, rfl⟩
  · rw [hmul]
    refine .inl ⟨.addOverflow, funext fun m => ?_⟩
    rw [Action.bind_ok (Action.lift_ok _ m), hadd]
    rfl
  · rcases pageOffset_cases hfirst phys with hmul' | ⟨offset', hmul', hadd'⟩
    · rw [hmul] at hmul'
      contradiction
    · obtain rfl : offset = offset' := Except.ok.inj (hmul.symm.trans hmul')
      rw [hmul]
      rcases hadd' with hadd' | hadd'
      · refine .inl ⟨.addOverflow, funext fun m => ?_⟩
        rw [Action.bind_ok (Action.lift_ok _ m), hadd, Action.bind_ok (Action.lift_ok _ m), hadd']
        rfl
      · refine .inr (funext fun m => ?_)
        rw [Action.bind_ok (Action.lift_ok _ m), hadd, Action.bind_ok (Action.lift_ok _ m), hadd',
          Action.bind_ok (Action.lift_ok _ m)]

/-- What comes of a run over some pages of a range: the first `k` of them were mapped. -/
structure RangeMapped (root : Nat) (pages : PageMap) (virt : VirtAddr) (phys : PhysAddr)
    (rights : AccessRights) (first k : Nat) (m m' : Machine) : Prop where
  grown : View.Grown root m.view m'.view
  maps : m'.view.Maps root (pages.setRange m.layout.top virt phys rights (first + k))
  invalidated : m'.invalidated.size = m.invalidated.size + k

theorem maps_setRange_succ {m₁ : Machine} {first : Nat}
    (hmaps : m.view.Maps root (pages.setRange m.layout.top virt phys rights first))
    (hset : View.PageSet root (virt.afterPages first).pageFloor
      (some (pageTarget (phys.afterPages first) rights)) m.view m₁.view) :
    m₁.view.Maps root (pages.setRange m₁.layout.top virt phys rights (first + 1)) := by
  have hlayout : m₁.layout = m.layout := hset.grown.layout
  rw [hlayout, PageMap.setRange, ← Addr.pageKey_pageFloor]
  exact hset.maps hmaps

theorem RangeMapped.cons {m₁ m' : Machine} {first k : Nat}
    (hset : View.PageSet root (virt.afterPages first).pageFloor
      (some (pageTarget (phys.afterPages first) rights)) m.view m₁.view)
    (hrest : RangeMapped root pages virt phys rights (first + 1) k m₁ m') :
    RangeMapped root pages virt phys rights first (k + 1) m m' where
  grown := hset.grown.trans hrest.grown
  maps := by
    have hlayout : m₁.layout = m.layout := hset.grown.layout
    rw [← hlayout, show first + (k + 1) = first + 1 + k by omega]
    exact hrest.maps
  invalidated := by
    have hpush := congrArg Array.size hset.invalidated
    rw [Array.size_push] at hpush
    have hsize := hrest.invalidated
    change m₁.invalidated.size = m.invalidated.size + 1 at hpush
    omega

theorem mapPages_run (hsound : m.view.Sound) (htree : m.view.Tree root) {count first : Nat}
    (hbound : first + count < 2 ^ 64)
    (hmaps : m.view.Maps root (pages.setRange m.layout.top virt phys rights first)) :
    ∃ k m', k ≤ count ∧ RangeMapped root pages virt phys rights first k m m' ∧
      ((k = count ∧ mapPages ⟨frameBase root⟩ virt phys rights count first m = .ok ⟨⟩ m') ∨
        ∃ failure, mapPages ⟨frameBase root⟩ virt phys rights count first m =
          .error failure m') := by
  induction count generalizing m first with
  | zero => exact ⟨0, m, le_refl 0, ⟨.refl htree, hmaps, rfl⟩, .inl ⟨rfl, rfl⟩⟩
  | succ count ih =>
      rcases mapPages_succ (show first < 2 ^ 64 by omega) ⟨frameBase root⟩ with ⟨f, hfault⟩ | hstep
      · exact ⟨0, m, Nat.zero_le _, ⟨.refl htree, hmaps, rfl⟩, .inr ⟨.fault f, congrFun hfault m⟩⟩
      rw [hstep]
      rcases mapPage_run hsound htree (virt.afterPages first) (phys.afterPages first) rights
        .size4KiB with ⟨_, _, m₁, _, _, hrun, _, hset⟩ | ⟨e, m₁, hrun, _, hkept⟩
      · obtain ⟨k, m', hk, hrange, hresult⟩ := ih (hset.grown.sound hsound) hset.grown.tree
          (by omega) (maps_setRange_succ hmaps hset)
        rw [Action.bind_ok hrun]
        refine ⟨k + 1, m', by omega, .cons hset hrange, ?_⟩
        rcases hresult with ⟨rfl, hresult⟩ | hresult
        · exact .inl ⟨rfl, hresult⟩
        · exact .inr hresult
      · refine ⟨0, m₁, Nat.zero_le _, ⟨hkept.grown, hkept.maps hmaps, ?_⟩,
          .inr ⟨.error e, Action.bind_error hrun⟩⟩
        exact congrArg Array.size hkept.invalidated

/-- Mapping a range maps its first pages, all of them if it succeeds. -/
theorem mapRange_run (hsound : m.view.Sound) (htree : m.view.Tree root)
    (hmaps : m.view.Maps root pages) (request : MapRequest) (rights : AccessRights) :
    ∃ k m', RangeMapped root pages request.virt.pageFloor request.phys.pageFloor rights 0 k m m' ∧
      (∀ count, Word.pageCount request.length = .ok count → k ≤ count.toNat) ∧
      ((∃ count, Word.pageCount request.length = .ok count ∧ k = count.toNat ∧
          mapRange ⟨frameBase root⟩ request rights m = .ok ⟨⟩ m') ∨
        ∃ failure, mapRange ⟨frameBase root⟩ request rights m = .error failure m') := by
  cases hcount : Word.pageCount request.length with
  | error f =>
      refine ⟨0, m, ⟨.refl htree, hmaps, rfl⟩, fun _ _ => Nat.zero_le _, .inr ⟨.fault f, ?_⟩⟩
      rw [mapRange, hcount]
      exact Action.bind_error (Action.lift_error f m)
  | ok count =>
      obtain ⟨m₁, hemit, hview⟩ := emit_run (ε := MapError)
        (.mappingPages count request.virt.pageFloor request.phys.pageFloor) m
      have hrun : mapRange ⟨frameBase root⟩ request rights m =
          mapPages ⟨frameBase root⟩ request.virt.pageFloor request.phys.pageFloor rights
            count.toNat 0 m₁ := by
        rw [mapRange, hcount, Action.bind_ok (Action.lift_ok _ m), Action.bind_ok hemit]
      have hlayout : m₁.layout = m.layout := congrArg View.layout hview
      have hmaps₁ : m₁.view.Maps root (pages.setRange m₁.layout.top request.virt.pageFloor
          request.phys.pageFloor rights 0) := hview ▸ hmaps
      have hbound : 0 + count.toNat < 2 ^ 64 := by
        have hlt := count.toNat_lt
        omega
      obtain ⟨k, m', hle, hrange, hresult⟩ :=
        mapPages_run (hview ▸ hsound) (hview ▸ htree) hbound hmaps₁
      have hsize : m₁.invalidated = m.invalidated := congrArg View.invalidated hview
      refine ⟨k, m', ⟨hview ▸ hrange.grown, hlayout ▸ hrange.maps, hsize ▸ hrange.invalidated⟩,
        ?_, ?_⟩
      · rintro _ ⟨⟩
        exact hle
      · rw [hrun]
        rcases hresult with ⟨rfl, hresult⟩ | hresult
        · exact .inl ⟨count, rfl, rfl, hresult⟩
        · exact .inr hresult

end Ranges

end Machine

end BootMemory
