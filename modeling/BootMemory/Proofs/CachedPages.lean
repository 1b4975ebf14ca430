import BootMemory.Proofs.Recording
import BootMemory.Proofs.StaleFrames

/-!
# Cached lookups

A processor may keep what pages were looked up to, and uses it until it is told to drop a page.
Work in a space drops a page directly after it wrote the leaf entry of that page, and it writes no
lowest table in between, so what is still kept after the work is what a look-up would find.  The
record of the work is split at the leaf entries: each is one write and one drop of its page.
-/

namespace BootMemory

/-- The tables of the lowest level of a space, which hold its leaf entries. -/
def View.leafTables (v : View) (root : Nat) : Set Nat :=
  {t | ∃ route, v.tableAt root route (v.layout.top - 1) = some t}

theorem View.leafTables_subset (v : View) (root : Nat) : v.leafTables root ⊆ v.tables root := by
  rintro t ⟨route, hreach⟩
  refine ⟨route, v.layout.top - 1, ?_, hreach⟩
  rcases v.layout.top_eq with htop | htop <;> omega

/-- A table that is reached above the lowest level holds no leaf entries. -/
theorem View.Tree.not_mem_leafTables {v : View} {root table depth : Nat} {route : Route}
    (htree : v.Tree root) (hreach : v.tableAt root route depth = some table)
    (habove : depth + 1 < v.layout.top) : table ∉ v.leafTables root := by
  rintro ⟨other, hleaf⟩
  have hsame := (htree.once route other depth _ table (by omega) (by omega) hreach hleaf).1
  omega

namespace Machine

/-- The bytes written lie beside some tables. -/
def Beside (tables : Set Nat) (addr : PhysAddr) (length : Nat) : Prop :=
  ∀ a, addr.word.toNat ≤ a → a < addr.word.toNat + length → a / 4096 ∉ tables

/-- A record of work in the space of `root` that drops `pages`: it writes no lowest table but for
the leaf entries of these pages, each directly before the page is dropped, in this order. -/
inductive Orderly (root : Nat) : List (Machine × Touch) → List VirtAddr → Prop
  | nil : Orderly root [] []
  | beside {m : Machine} {addr : PhysAddr} {length : Nat} {record : List (Machine × Touch)}
      {pages : List VirtAddr} (hbeside : Beside (m.view.leafTables root) addr length)
      (hrest : Orderly root record pages) : Orderly root ((m, .write addr length) :: record) pages
  | leaf {m m' : Machine} {page : VirtAddr} {addr : PhysAddr} {table : Nat}
      {record : List (Machine × Touch)} {pages : List VirtAddr}
      (htable : m.view.tableAt root page.route (m.layout.top - 1) = some table)
      (hentry : addr.word.toNat = table * 4096 + page.tableIndex 1 * 8)
      (hstart : page.startsPage = true) (hrest : Orderly root record pages) :
      Orderly root ((m, .write addr 8) :: (m', .drop page) :: record) (page :: pages)

namespace Orderly

variable {root : Nat} {record later : List (Machine × Touch)} {pages others : List VirtAddr}

theorem append (hrecord : Orderly root record pages) (hlater : Orderly root later others) :
    Orderly root (record ++ later) (pages ++ others) := by
  induction hrecord with
  | nil => exact hlater
  | beside hbeside _ ih => exact .beside hbeside ih
  | leaf htable hentry hstart _ ih => exact .leaf htable hentry hstart ih

theorem startsPage (hrecord : Orderly root record pages) :
    ∀ page ∈ pages, page.startsPage = true := by
  induction hrecord with
  | nil => simp
  | beside _ _ ih => exact ih
  | leaf _ _ hstart _ ih => exact List.forall_mem_cons.mpr ⟨hstart, ih⟩

/-- Work that writes no lowest table drops nothing. -/
theorem eq_nil (hrecord : Orderly root record pages)
    (hbeside : ∀ m addr length, (m, Touch.write addr length) ∈ record →
      Beside (m.view.leafTables root) addr length) : pages = [] := by
  induction hrecord with
  | nil => rfl
  | beside _ _ ih =>
      exact ih fun m addr length hmem => hbeside m addr length (List.mem_cons_of_mem _ hmem)
  | @leaf m m' page addr table record pages htable hentry _ _ _ =>
      have hindex := page.tableIndex_lt 1
      have hin : addr.word.toNat / 4096 = table := by
        omega
      have houtside := hbeside m addr 8 List.mem_cons_self _ (le_refl _) (by omega)
      rw [hin] at houtside
      exact absurd ⟨page.route, htable⟩ houtside

end Orderly

/-! ## Work with a record -/

open BootMemory.Action
open Port (Recorded recording)

/-- What work in the space of `root` leaves that drops `pages`. -/
structure Tended (root : Nat) (pages : List VirtAddr) (s t : Recorded) : Prop where
  layout : t.1.layout = s.1.layout
  free : t.1.view.free ⊆ s.1.view.free
  fresh : t.1.view.tables root ⊆ s.1.view.tables root ∪ s.1.view.free
  tree : t.1.view.Tree root
  invalidated : t.1.invalidated = s.1.invalidated ++ pages.toArray
  canonical : ∀ page ∈ pages, page.page ∈ canonicalPages
  lookup : ∀ virt : VirtAddr, virt.page ∈ canonicalPages →
    (∀ page ∈ pages, page.page ≠ virt.page) →
      t.1.view.lookup root virt.route = s.1.view.lookup root virt.route
  record : ∃ made, t.2 = s.2 ++ made ∧ Orderly root made pages

namespace Tended

variable {root : Nat} {pages others : List VirtAddr} {s t u : Recorded} {m m' : Machine}
  {record : List (Machine × Touch)}

theorem sound (htended : Tended root pages s t) (hsound : s.1.view.Sound) : t.1.view.Sound :=
  hsound.of_free_subset htended.layout htended.free

theorem trans (hfirst : Tended root pages s t) (hrest : Tended root others t u) :
    Tended root (pages ++ others) s u := by
  constructor
  · exact hrest.layout.trans hfirst.layout
  · exact hrest.free.trans hfirst.free
  · intro table htable
    rcases hrest.fresh htable with hold | hnew
    · exact hfirst.fresh hold
    · exact .inr (hfirst.free hnew)
  · exact hrest.tree
  · simp [hrest.invalidated, hfirst.invalidated]
  · intro page hpage
    exact (List.mem_append.mp hpage).elim (hfirst.canonical page) (hrest.canonical page)
  · intro virt hvirt hnone
    rw [hrest.lookup virt hvirt fun page hpage => hnone page (List.mem_append_right _ hpage)]
    exact hfirst.lookup virt hvirt fun page hpage => hnone page (List.mem_append_left _ hpage)
  · obtain ⟨made, hmade, horderly⟩ := hfirst.record
    obtain ⟨later, hlater, horderly'⟩ := hrest.record
    exact ⟨made ++ later, by rw [hlater, hmade, List.append_assoc], horderly.append horderly'⟩

/-- Work that leaves the tables of the space as they are and drops nothing. -/
theorem of_sameTables (hsame : View.SameTables m.view m'.view root) (htree : m.view.Tree root)
    (hfree : m'.view.free ⊆ m.view.free) (hinvalidated : m'.invalidated = m.invalidated)
    {made : List (Machine × Touch)} (hmade : Orderly root made []) :
    Tended root [] (m, record) (m', record ++ made) where
  layout := hsame.layout
  free := hfree
  fresh := by
    rw [hsame.tables_eq]
    exact Set.subset_union_left
  tree := hsame.tree htree fun t ht hin => htree.taken t ht (hfree hin)
  invalidated := by
    simp [hinvalidated]
  canonical := by
    simp
  lookup := fun virt _ _ => hsame.lookup_eq virt.route
  record := ⟨made, rfl, hmade⟩

theorem quiet (hsame : View.SameTables m.view m'.view root) (htree : m.view.Tree root)
    (hfree : m'.view.free ⊆ m.view.free) (hinvalidated : m'.invalidated = m.invalidated) :
    Tended root [] (m, record) (m', record) := by
  have htended : Tended root [] (m, record) (m', record ++ []) :=
    of_sameTables hsame htree hfree hinvalidated .nil
  rwa [List.append_nil] at htended

theorem of_view_eq (htree : m.view.Tree root) (hview : m'.view = m.view) :
    Tended root [] (m, record) (m', record) := by
  apply quiet (hview ▸ .of_bytes rfl fun _ _ => rfl) htree
  · rw [hview]
  · exact congrArg View.invalidated hview

theorem refl (htree : s.1.view.Tree root) : Tended root [] s s :=
  of_view_eq htree rfl

theorem take (htree : m.view.Tree root) {f count : Nat} (hview : m'.view = m.view.take f count) :
    Tended root [] (m, record) (m', record) := by
  apply quiet (hview ▸ .take m.view f count) htree
  · rw [hview]
    exact Set.sdiff_subset
  · exact congrArg View.invalidated hview

/-- Frames that were taken before the work for the space began stay out of its tables. -/
theorem taken_unused (htended : Tended root pages (m', record) t) (htree : m.view.Tree root)
    {f count : Nat} (hview : m'.view = m.view.take f count)
    (hfree : Set.Ico f (f + count) ⊆ m.view.free) {g : Nat} (hg : g ∈ Set.Ico f (f + count)) :
    g ∉ t.1.view.tables root ∪ t.1.view.free := by
  have hnotFree : g ∉ m'.view.free := by
    rw [hview]
    exact fun hin => hin.2 hg
  have hnotTable : g ∉ m'.view.tables root := by
    rw [hview, (View.SameTables.take m.view f count).tables_eq]
    exact fun hin => htree.taken g hin (hfree hg)
  rintro (hin | hin)
  · exact (htended.fresh hin).elim hnotTable hnotFree
  · exact hnotFree (htended.free hin)

/-- Work that adds tables and moves no page. -/
theorem of_pagesKept (hkept : View.PagesKept root m.view m'.view)
    {made : List (Machine × Touch)} (hmade : Orderly root made []) :
    Tended root [] (m, record) (m', record ++ made) where
  layout := hkept.grown.layout
  free := hkept.grown.free
  fresh := hkept.grown.fresh
  tree := hkept.grown.tree
  invalidated := by
    have hinvalidated : m'.invalidated = m.invalidated := hkept.invalidated
    simp [hinvalidated]
  canonical := by
    simp
  lookup := fun virt _ _ => hkept.lookup virt.route
  record := ⟨made, rfl, hmade⟩

/-- A page is moved by one write of its leaf entry and is dropped directly after it. -/
theorem of_pageSet {page : VirtAddr} {target : Option (PhysAddr × EntryFlags)}
    (hset : View.PageSet root page target m.view m'.view) (hpage : page.page ∈ canonicalPages)
    {made : List (Machine × Touch)} (hmade : Orderly root made [page]) :
    Tended root [page] (m, record) (m', record ++ made) where
  layout := hset.grown.layout
  free := hset.grown.free
  fresh := hset.grown.fresh
  tree := hset.grown.tree
  invalidated := by
    have hinvalidated : m'.invalidated = m.invalidated.push page := hset.invalidated
    simp [hinvalidated]
  canonical := by
    simpa using hpage
  lookup := by
    intro virt hvirt hnone
    have htop := m.layout.top_eq
    rw [hset.lookup, if_neg]
    intro hagree
    have hkey := (Addr.agree_route_iff (by rw [view_layout]; omega) virt page).mp hagree
    exact hnone page List.mem_cons_self (Addr.page_eq_of_pageKey_eq htop hvirt hpage hkey).symm
  record := ⟨made, rfl, hmade⟩

end Tended

/-- However it ends, work from here on drops some pages and is on record. -/
def Tends {ε α : Type} (root : Nat) (x : Action Recorded ε α) (s : Recorded) : Prop :=
  ∃ pages, Tended root pages s (final (x s))

section Tends

variable {ε δ α β : Type} {root : Nat} {x : Action Recorded ε α} {f : α → Action Recorded ε β}
  {s : Recorded}

theorem Tended.tends {pages : List VirtAddr} {result : EStateM.Result (Failure ε) Recorded α}
    (htended : Tended root pages s (final result)) (hrun : x s = result) : Tends root x s :=
  ⟨pages, hrun ▸ htended⟩

theorem Tended.andThen {pages : List VirtAddr} {y : Action Recorded ε α} {t : Recorded}
    (hfirst : Tended root pages s t) (hrun : x s = y t) (hrest : Tends root y t) :
    Tends root x s := by
  obtain ⟨others, hlast⟩ := hrest
  exact ⟨pages ++ others, hrun ▸ hfirst.trans hlast⟩

theorem Tends.bind (hsound : s.1.view.Sound) (hx : Tends root x s)
    (hf : ∀ a t, x s = .ok a t → t.1.view.Sound → t.1.view.Tree root → Tends root (f a) t) :
    Tends root (x >>= f) s := by
  obtain ⟨pages, htended⟩ := hx
  cases hrun : x s with
  | error e t =>
      rw [hrun] at htended
      refine ⟨pages, ?_⟩
      rw [Action.bind_error hrun]
      exact htended
  | ok a t =>
      rw [hrun] at htended
      obtain ⟨others, hrest⟩ := hf a t hrun (htended.sound hsound) htended.tree
      refine ⟨pages ++ others, ?_⟩
      rw [Action.bind_ok hrun]
      exact htended.trans hrest

theorem tends_lift (htree : s.1.view.Tree root) (checked : Except Fault α)
    (hf : ∀ a, checked = .ok a → Tends root (f a) s) : Tends root (liftM checked >>= f) s := by
  cases checked with
  | error fault => exact ⟨[], .refl htree⟩
  | ok a => exact hf a rfl

theorem Tends.mapError {restate : ε → δ} (hx : Tends root x s) :
    Tends root (Action.mapError restate x) s := by
  obtain ⟨pages, htended⟩ := hx
  refine ⟨pages, ?_⟩
  cases hrun : x s with
  | ok a t =>
      rw [hrun] at htended
      rw [Action.mapError_ok hrun]
      exact htended
  | error e t =>
      rw [hrun] at htended
      rw [Action.mapError_error hrun]
      exact htended

end Tends

/-! ## Steps -/

section Steps

variable {ε α : Type} {m m' : Machine} {root table depth : Nat} {virt : VirtAddr}
  {record : List (Machine × Touch)}

theorem quiet_ok {x : MachineM ε α} {a : α} (hrun : x m = .ok a m') :
    recording.quiet x (m, record) = .ok a (m', record) := by
  change Port.carryOut x record m = _
  rw [Port.carryOut, hrun]

theorem quiet_error {x : MachineM ε α} {e : Failure ε} (hrun : x m = .error e m') :
    recording.quiet x (m, record) = .error e (m', record) := by
  change Port.carryOut x record m = _
  rw [Port.carryOut, hrun]

theorem touch_ok {x : MachineM ε Unit} {act : Touch} (hrun : x m = .ok ⟨⟩ m') :
    recording.touch act x (m, record) = .ok ⟨⟩ (m', record ++ [(m, act)]) := by
  change Port.carryOut x _ m = _
  rw [Port.carryOut, hrun]

/-- A frame for a table is cleared before it becomes one. -/
theorem newTable_recorded (hsound : m.view.Sound) :
    (∃ e m', recording.newTable (m, record) = .error (.error e) (m', record) ∧
        m'.view = m.view) ∨
      ∃ f m₁ m', f ∈ m.view.free ∧ m₁.view = m.view.take f 1 ∧
        recording.newTable (m, record) =
          .ok (frameBase f) (m', record ++ [(m₁, .write (frameBase f) 4096)]) ∧
        m'.view = (m.view.take f 1).clear f 1 := by
  have hone : (1 : Word).toNat = 1 := rfl
  rcases alloc_run hsound 1 with
    ⟨e, m', halloc, hview, _⟩ | ⟨f, m₁, _, hrun, halloc, hview₁⟩
  · left
    exact ⟨_, m', Action.bind_error (Action.mapError_error (quiet_error halloc)), hview⟩
  · right
    have hfree : f ∈ m.view.free := hrun (Set.mem_Ico.mpr ⟨le_refl f, Nat.lt_succ_self f⟩)
    have hplain : ∀ g, f ≤ g → g < f + (1 : Word).toNat → m₁.layout.Plain g := by
      intro g hlow hhigh
      rw [hone] at hhigh
      rw [show g = f by omega, show m₁.layout = m.layout from congrArg View.layout hview₁]
      exact hsound.plain f hfree
    obtain ⟨m₂, hzero, hview₂⟩ := zeroFrames_plain (ε := MapError)
      (hview₁ ▸ hsound.take f (1 : Word).toNat) (by decide) hplain
    refine ⟨f, m₁, m₂, hfree, hview₁, ?_, ?_⟩
    · exact (Action.bind_ok (Action.mapError_ok (quiet_ok halloc))).trans
        (Action.bind_ok (touch_ok hzero))
    · rw [hview₂, hview₁, hone]

theorem beside_frame {f : Nat} {tables : Set Nat} (hf : f < 2 ^ 40) (hout : f ∉ tables) :
    Beside tables (frameBase f) 4096 := by
  intro a hlow hhigh
  rw [toNat_frameBase (lt_trans hf (by decide))] at hlow hhigh
  rwa [show a / 4096 = f by omega]

theorem beside_entry (hsound : m.view.Sound) (htable : m.layout.Plain table) (index : Fin 512)
    {tables : Set Nat} (hout : table ∉ tables) : Beside tables (entryBase table index) 8 := by
  intro a hlow hhigh
  have hindex := index.isLt
  rw [toNat_entryBase (htable.lt hsound.memory)] at hlow hhigh
  rwa [show a / 4096 = table by omega]

theorem child_recorded_apply (hsound : m.view.Sound) (htable : m.layout.Plain table)
    (virt : VirtAddr) (level : Nat) (allocate : Bool) :
    recording.child virt allocate (frameBase table) level (m, record) =
      (let entry := m.view.entry table (virt.route level)
      if entry.isPresent then
        if entry.isLargePage then Action.fail (.largePage level) else return entry.address
      else if allocate then do
        let node ← recording.newTable
        recording.writeWord (entryBase table (virt.route level)) (TableEntry.make node .node).bits
        recording.emit (.tableAdded (level - 1) virt node)
        return node
      else Action.fail .missingTable : Action Recorded MapError PhysAddr) (m, record) := by
  have hslot : slot (frameBase table) (virt.tableIndex level) =
      .ok (entryBase table (virt.route level)) :=
    slot_frameBase (htable.lt hsound.memory) (virt.route level)
  have hread := readEntry_run (ε := MapError) hsound htable (virt.route level)
  rw [Port.child, hslot, Action.bind_ok (Action.lift_ok _ _), Port.readWord,
    Action.bind_ok (quiet_ok hread)]

/-- A table that is to be linked is cleared first, which leaves the space as it is. -/
theorem sameTables_clear {node : Nat} (hsound : m.view.Sound) (htree : m.view.Tree root)
    (hnode : node ∈ m.view.free) (hview : m'.view = (m.view.take node 1).clear node 1) :
    View.SameTables m.view m'.view root ∧ m'.view.Sound ∧ m'.view.Tree root := by
  have hsame : View.SameTables m.view m'.view root :=
    hview ▸ .take_clear fun hin => htree.taken node hin hnode
  refine ⟨hsame, hview ▸ (hsound.take node 1).write _ _, hsame.tree htree ?_⟩
  rw [hview]
  exact fun t ht hin => htree.taken t ht hin.1

/-- Neither clearing a new table nor entering it in a table above the lowest level writes a lowest
table. -/
theorem orderly_link {m₁ m₂ : Machine} {node : Nat} (hsound : m.view.Sound)
    (htree : m.view.Tree root) (hgap : View.Gap m.view root virt.route depth table)
    (hnode : node ∈ m.view.free) (hview₁ : m₁.view = m.view.take node 1)
    (hview₂ : m₂.view = (m.view.take node 1).clear node 1) :
    Orderly root [(m₁, .write (frameBase node) 4096),
      (m₂, .write (entryBase table (virt.route (m.layout.top - depth))) 8)] [] := by
  obtain ⟨hsame₂, hsound₂, htree₂⟩ := sameTables_clear hsound htree hnode hview₂
  have hsame₁ : View.SameTables m.view m₁.view root := hview₁ ▸ .take m.view node 1
  have hreach₂ : m₂.view.tableAt root virt.route depth = some table := by
    rw [hsame₂.tableAt_eq virt.route (lt_trans (Nat.lt_succ_self depth) hgap.above)]
    exact hgap.reached
  have habove₂ : depth + 1 < m₂.view.layout.top := by
    rw [hsame₂.layout]
    exact hgap.above
  have htable₂ : m₂.layout.Plain table :=
    htree₂.plain table (View.mem_tables (Nat.lt_of_succ_lt habove₂) hreach₂)
  refine .beside ?_ (.beside ?_ .nil)
  · apply beside_frame ((hsound.plain node hnode).lt hsound.memory)
    intro hin
    have htables := m₁.view.leafTables_subset root hin
    rw [hsame₁.tables_eq] at htables
    exact htree.taken node htables hnode
  · exact beside_entry hsound₂ htable₂ _ (htree₂.not_mem_leafTables hreach₂ habove₂)

/-- Where no table is entered, one is linked, or there is no frame for it. -/
theorem link_recorded (hsound : m.view.Sound) (htree : m.view.Tree root)
    (hgap : View.Gap m.view root virt.route depth table) :
    ∃ t, Tended root [] (m, record) t ∧
      ((∃ next, t.1.view.tableAt root virt.route (depth + 1) = some next ∧
          recording.child virt true (frameBase table) (m.layout.top - depth) (m, record) =
            .ok (frameBase next) t) ∨
        ∃ e, recording.child virt true (frameBase table) (m.layout.top - depth) (m, record) =
          .error (.error e) t) := by
  have htable : m.layout.Plain table := htree.plain table hgap.table_mem
  rw [child_recorded_apply hsound htable]
  simp only [show (m.view.entry table (virt.route (m.layout.top - depth))).isPresent = false from
    hgap.absent, Bool.false_eq_true, if_false, if_true]
  rcases newTable_recorded hsound with
    ⟨e, m', hnew, hview⟩ | ⟨node, m₁, m₂, hnode, hview₁, hnew, hview₂⟩
  · exact ⟨(m', record), .of_view_eq htree hview, .inr ⟨e, Action.bind_error hnew⟩⟩
  · have hlt := (hsound.plain node hnode).lt hsound.memory
    obtain ⟨hsame₂, hsound₂, _⟩ := sameTables_clear hsound htree hnode hview₂
    have hlayout₂ : m₂.layout = m.layout := hsame₂.layout
    have htable₂ : m₂.layout.Plain table := hlayout₂ ▸ htable
    obtain ⟨m₃, hwrite, hview₃⟩ := writeEntry_run (ε := MapError) hsound₂ htable₂
      (virt.route (m.layout.top - depth)) (TableEntry.make (frameBase node) .node)
    obtain ⟨m₄, hemit, hview₄⟩ := emit_run (ε := MapError)
      (.tableAdded (m.layout.top - depth - 1) virt (frameBase node)) m₃
    have hview : m₄.view = m.view.link table (virt.route (m.layout.top - depth)) node := by
      rw [hview₄, hview₃, hview₂, View.link]
    have hkept : View.PagesKept root m.view m₄.view := by
      rw [hview]
      exact ⟨hgap.grown_link htree hsound hnode, rfl, hgap.lookup_link htree hnode hlt⟩
    have hmade := orderly_link hsound htree hgap hnode hview₁ hview₂
    refine ⟨_, .of_pagesKept hkept hmade, .inl ⟨node, ?_, ?_⟩⟩
    · change m₄.view.tableAt root virt.route (depth + 1) = some node
      rw [hview]
      exact hgap.tableAt_link_node htree hnode hlt fun _ _ => rfl
    · rw [Action.bind_ok hnew, Port.writeWord, Action.bind_ok (touch_ok hwrite), Port.emit,
        Action.bind_ok (quiet_ok hemit), List.append_assoc]
      rfl

/-- A step of a walk comes to the next table on the route or fails. -/
theorem child_recorded (hsound : m.view.Sound) (htree : m.view.Tree root) (allocate : Bool)
    (hreach : m.view.tableAt root virt.route depth = some table)
    (habove : depth + 1 < m.layout.top) :
    ∃ t, Tended root [] (m, record) t ∧
      ((∃ next, t.1.view.tableAt root virt.route (depth + 1) = some next ∧
          recording.child virt allocate (frameBase table) (m.layout.top - depth) (m, record) =
            .ok (frameBase next) t) ∨
        ∃ e, recording.child virt allocate (frameBase table) (m.layout.top - depth) (m, record) =
          .error (.error e) t) := by
  have htable : m.layout.Plain table :=
    htree.plain table (View.mem_tables (Nat.lt_of_succ_lt habove) hreach)
  cases hpresent : (m.view.entry table (virt.route (m.layout.top - depth))).isPresent with
  | true =>
      refine ⟨(m, record), .refl htree, ?_⟩
      rw [child_recorded_apply hsound htable]
      simp only [hpresent, if_true]
      cases hlarge : (m.view.entry table (virt.route (m.layout.top - depth))).isLargePage with
      | true => exact .inr ⟨_, rfl⟩
      | false =>
          left
          refine ⟨_, ?_, congrArg (EStateM.Result.ok · _) (TableEntry.address_eq_frameBase _)⟩
          rw [View.tableAt, hreach, Option.bind_some, View.child]
          simp only [view_layout, hpresent, hlarge]
          rfl
  | false =>
      cases allocate with
      | true => exact link_recorded hsound htree ⟨habove, hreach, hpresent⟩
      | false =>
          refine ⟨(m, record), .refl htree, .inr ⟨.missingTable, ?_⟩⟩
          rw [child_recorded_apply hsound htable]
          simp only [hpresent, Bool.false_eq_true, if_false]
          rfl

theorem walk_recorded (hsound : m.view.Sound) (htree : m.view.Tree root) (allocate : Bool)
    {steps : Nat} (hreach : m.view.tableAt root virt.route depth = some table)
    (hdepth : depth + steps + 1 = m.layout.top) :
    ∃ t, Tended root [] (m, record) t ∧
      ((∃ next, t.1.view.tableAt root virt.route (m.layout.top - 1) = some next ∧
          recording.walk virt allocate 1 steps (frameBase table) (m, record) =
            .ok (frameBase next) t) ∨
        ∃ e, recording.walk virt allocate 1 steps (frameBase table) (m, record) =
          .error (.error e) t) := by
  induction steps generalizing m depth table record with
  | zero =>
      refine ⟨(m, record), .refl htree, .inl ⟨table, ?_, rfl⟩⟩
      rwa [show m.layout.top - 1 = depth by omega]
  | succ steps ih =>
      have hlevel : 1 + steps + 1 = m.layout.top - depth := by
        omega
      obtain ⟨⟨m₁, record₁⟩, htended, hresult⟩ := child_recorded hsound htree
        allocate hreach (by omega)
      rw [Port.walk, hlevel]
      rcases hresult with ⟨next, hnext, hrun⟩ | ⟨e, hrun⟩
      · have hlayout : m₁.layout = m.layout := htended.layout
        obtain ⟨t, hrest, hlast⟩ := ih (htended.sound hsound) htended.tree
          hnext (by rw [hlayout]; omega)
        rw [hlayout] at hlast
        rw [Action.bind_ok hrun]
        exact ⟨t, htended.trans hrest, hlast⟩
      · exact ⟨_, htended, .inr ⟨e, Action.bind_error hrun⟩⟩

/-- A walk to the lowest level writes no leaf entry. -/
theorem walkTo_recorded (hsound : m.view.Sound) (htree : m.view.Tree root) (virt : VirtAddr)
    (allocate : Bool) :
    ∃ t, Tended root [] (m, record) t ∧
      ((∃ next, t.1.view.tableAt root virt.route (t.1.layout.top - 1) = some next ∧
          recording.walkTo ⟨frameBase root⟩ virt 1 allocate (m, record) =
            .ok (frameBase next) t) ∨
        ∃ e, recording.walkTo ⟨frameBase root⟩ virt 1 allocate (m, record) =
          .error (.error e) t) := by
  have hlevels := m.levels_pos
  have hroot : m.view.tableAt root virt.route 0 = some root := rfl
  have hget : (recording.get : Action Recorded MapError Machine) (m, record) =
      .ok m (m, record) := quiet_ok (Action.get_apply m)
  rw [Port.walkTo, Action.bind_ok hget]
  simp only [show 1 ≤ m.levels.top from hlevels, le_refl, and_self, if_true]
  have hdepth : 0 + (m.layout.top - 1) + 1 = m.layout.top := by
    omega
  obtain ⟨t, htended, hresult⟩ :=
    walk_recorded hsound htree allocate hroot hdepth
  refine ⟨t, htended, ?_⟩
  rw [htended.layout]
  exact hresult

theorem slot_leaf (hsound : m.view.Sound) (htree : m.view.Tree root)
    (hleaf : m.view.tableAt root virt.route (m.layout.top - 1) = some table) :
    slot (frameBase table) (virt.tableIndex 1) = .ok (entryBase table (virt.route 1)) :=
  slot_frameBase ((htree.plain table (View.mem_tables (Nat.sub_one_lt_of_lt m.levels_pos)
    hleaf)).lt hsound.memory) (virt.route 1)

/-- A leaf entry is written and its page dropped. -/
theorem setLeaf_recorded (hsound : m.view.Sound) (htree : m.view.Tree root) {page : VirtAddr}
    (hpage : page.page ∈ canonicalPages) (hstart : page.startsPage = true)
    (hleaf : m.view.tableAt root page.route (m.layout.top - 1) = some table) (e : TableEntry)
    {next : Action Recorded ε α}
    (hnext : ∀ t : Recorded, t.1.view.Tree root → Tends root next t) :
    Tends root (do
      recording.writeWord (entryBase table (page.route 1)) e.bits
      recording.invalidate page
      next) (m, record) := by
  have hlast : m.layout.top - 1 < m.layout.top := Nat.sub_one_lt_of_lt m.levels_pos
  have htable := htree.plain table (View.mem_tables hlast hleaf)
  obtain ⟨m₁, m₂, hwrite, hdrop, _, hset⟩ := setLeaf_run (ε := ε) hsound htree page hleaf e
  have hentry := toNat_entryBase (htable.lt hsound.memory) (page.route 1)
  have hmade : Orderly root [(m, .write (entryBase table (page.route 1)) 8), (m₁, .drop page)]
      [page] := .leaf hleaf hentry hstart .nil
  refine (Tended.of_pageSet hset hpage hmade).andThen ?_ (hnext _ hset.grown.tree)
  rw [Port.writeWord, Action.bind_ok (touch_ok hwrite), Port.invalidate,
    Action.bind_ok (touch_ok hdrop), List.append_assoc]
  rfl

end Steps

/-! ## Work in a space -/

section Work

variable {ε : Type} {root : Nat} {s : Recorded}

theorem emit_tends (htree : s.1.view.Tree root) (event : LogEvent) :
    Tends root (recording.emit event : Action Recorded ε Unit) s := by
  obtain ⟨m', hemit, hview⟩ := emit_run (ε := ε) event s.1
  refine ⟨[], ?_⟩
  rw [Port.emit, quiet_ok hemit]
  exact .of_view_eq htree hview

theorem mapPage_tends (hsound : s.1.view.Sound) (htree : s.1.view.Tree root) {virt : VirtAddr}
    (hvirt : virt.page ∈ canonicalPages) (phys : PhysAddr) (rights : AccessRights)
    (size : PageSize) :
    Tends root (recording.mapPage ⟨frameBase root⟩ virt phys rights size) s := by
  rw [Port.mapPage]
  by_cases hsize : size = .size4KiB
  · rw [if_neg (not_not.mpr hsize)]
    obtain ⟨t, htended, hresult⟩ := walkTo_recorded hsound htree virt.pageFloor true
    rcases hresult with ⟨table, hleaf, hwalk⟩ | ⟨e, hwalk⟩
    · refine htended.andThen (Action.bind_ok hwalk) ?_
      rw [slot_leaf (htended.sound hsound) htended.tree hleaf]
      refine tends_lift htended.tree _ fun _ haddr => ?_
      cases haddr
      exact setLeaf_recorded (htended.sound hsound) htended.tree (by rwa [Addr.page_pageFloor])
        virt.startsPage_pageFloor hleaf _ fun _ htree' => emit_tends htree' _
    · exact ⟨[], by rw [Action.bind_error hwalk]; exact htended⟩
  · rw [if_pos hsize]
    exact ⟨[], .refl htree⟩

/-- Looking for a leaf entry writes nothing. -/
theorem leaf_recorded (hsound : s.1.view.Sound) (htree : s.1.view.Tree root) (virt : VirtAddr) :
    ∃ t, Tended root [] s t ∧
      ((recording.leaf ⟨frameBase root⟩ virt : Action Recorded ε _) s = .ok none t ∨
        ∃ table e, t.1.view.tableAt root virt.route (t.1.layout.top - 1) = some table ∧
          (recording.leaf ⟨frameBase root⟩ virt : Action Recorded ε _) s =
            .ok (some (entryBase table (virt.route 1), e)) t) := by
  obtain ⟨t, htended, hresult⟩ := walkTo_recorded hsound htree virt false
  refine ⟨t, htended, ?_⟩
  rw [Port.leaf]
  rcases hresult with ⟨table, hleaf, hwalk⟩ | ⟨e, hwalk⟩
  · have hsound' := htended.sound hsound
    have htable := htended.tree.plain table
      (View.mem_tables (Nat.sub_one_lt_of_lt t.1.levels_pos) hleaf)
    have hread := readEntry_run (ε := ε) hsound' htable (virt.route 1)
    refine .inr ⟨table, t.1.view.entry table (virt.route 1), hleaf, ?_⟩
    rw [Action.bind_ok (Action.attempt_ok hwalk)]
    simp only [slot_leaf hsound' htended.tree hleaf]
    rw [Action.bind_ok (Action.lift_ok _ t), Port.readWord, Action.bind_ok (quiet_ok hread)]
    rfl
  · exact .inl (Action.bind_ok (Action.attempt_error hwalk))

theorem unmapPage_tends (hsound : s.1.view.Sound) (htree : s.1.view.Tree root) {virt : VirtAddr}
    (hvirt : virt.page ∈ canonicalPages) :
    Tends root (recording.unmapPage ⟨frameBase root⟩ virt : Action Recorded ε _) s := by
  obtain ⟨t, htended, hleaf⟩ := leaf_recorded (ε := ε) hsound htree virt.pageFloor
  rw [Port.unmapPage]
  rcases hleaf with hnone | ⟨table, e, hreach, hsome⟩
  · exact htended.andThen (Action.bind_ok hnone) ⟨[], .refl htended.tree⟩
  · refine htended.andThen (Action.bind_ok hsome) ?_
    cases hpresent : e.isPresent with
    | false =>
        simp only [hpresent, Bool.false_eq_true, if_false]
        exact ⟨[], .refl htended.tree⟩
    | true =>
        simp only [hpresent, if_true]
        exact setLeaf_recorded (htended.sound hsound) htended.tree
          (by rwa [Addr.page_pageFloor]) virt.startsPage_pageFloor hreach ⟨0⟩
          fun _ htree' => ⟨[], .refl htree'⟩

theorem mapPages_tends (hsound : s.1.view.Sound) (htree : s.1.view.Tree root) {virt : VirtAddr}
    {phys : PhysAddr} {rights : AccessRights} {count first : Nat} (hcount : first + count < 2 ^ 64)
    (hcanonical : ∀ i, i < first + count → (virt.afterPages i).page ∈ canonicalPages) :
    Tends root (recording.mapPages ⟨frameBase root⟩ virt phys rights count first) s := by
  induction count generalizing s first with
  | zero => exact ⟨[], .refl htree⟩
  | succ count ih =>
      rw [Port.mapPages]
      refine tends_lift htree _ fun offset hoffset => tends_lift htree _ fun page hpage => ?_
      refine tends_lift htree _ fun frame _ => ?_
      have hafter : page = virt.afterPages first := by
        rcases pageOffset_cases (show first < 2 ^ 64 by omega) virt with
          hmul | ⟨offset', hmul, hadd | hadd⟩
        · cases hoffset.symm.trans hmul
        · cases hoffset.symm.trans hmul
          cases hpage.symm.trans hadd
        · cases hoffset.symm.trans hmul
          exact Except.ok.inj (hpage.symm.trans hadd)
      have hfirst : page.page ∈ canonicalPages := hafter ▸ hcanonical first (by omega)
      refine (mapPage_tends hsound htree hfirst frame rights .size4KiB).bind hsound ?_
      intro _ t _ hsound' htree'
      exact ih hsound' htree' (by omega) fun i hi => hcanonical i (by omega)

theorem mapRange_tends (hsound : s.1.view.Sound) (htree : s.1.view.Tree root)
    {request : MapRequest} {rights : AccessRights}
    (hcanonical : ∀ count, Word.pageCount request.length = .ok count → ∀ i < count.toNat,
      (request.virt.pageFloor.afterPages i).page ∈ canonicalPages) :
    Tends root (recording.mapRange ⟨frameBase root⟩ request rights) s := by
  rw [Port.mapRange]
  refine tends_lift htree _ fun count hcount => (emit_tends htree _).bind hsound ?_
  intro _ t _ hsound' htree'
  have hlt := count.toNat_lt
  apply mapPages_tends hsound' htree' (by omega)
  intro i hi
  exact hcanonical count hcount i (by omega)

/-- Bytes are written beside the tables of the space. -/
theorem write_recorded {m m' : Machine} {record : List (Machine × Touch)}
    (htree : m.view.Tree root) {addr : PhysAddr} {values : List UInt8}
    (hview : m'.view = m.view.write addr.word.toNat values)
    (hout : Beside (m.view.tables root) addr values.length) :
    Tended root [] (m, record) (m', record ++ [(m, .write addr values.length)]) := by
  have hsame : View.SameTables m.view m'.view root := by
    rw [hview]
    refine .of_bytes rfl fun a ha => View.byte_write_of_outside ?_
    by_contra hin
    exact hout a (by omega) (by omega) ha
  apply Tended.of_sameTables hsame htree
  · rw [hview]
    rfl
  · exact congrArg View.invalidated hview
  · refine .beside (fun a hlow hhigh hin => ?_) .nil
    exact hout a hlow hhigh (m.view.leafTables_subset root hin)

/-- Frames beside the tables of the space are cleared. -/
theorem zeroFrames_recorded {m : Machine} (record : List (Machine × Touch))
    (hsound : m.view.Sound) (htree : m.view.Tree root) {f : Nat} {count : Word}
    (hsome : 0 < count.toNat) (hplain : ∀ g, f ≤ g → g < f + count.toNat → m.layout.Plain g)
    (hout : ∀ g, f ≤ g → g < f + count.toNat → g ∉ m.view.tables root) :
    ∃ m', zeroPages (frameBase f) count m =
        (.ok ⟨⟩ m' : EStateM.Result (Failure MapError) Machine _) ∧
      Tended root [] (m, record)
        (m', record ++ [(m, .write (frameBase f) (count.toNat * 4096))]) := by
  have hlt : f < 2 ^ 40 := (hplain f (le_refl f) (by omega)).lt hsound.memory
  have hbase : (frameBase f).word.toNat = f * 4096 := toNat_frameBase (lt_trans hlt (by decide))
  have hlength : (List.replicate (count.toNat * 4096) (0 : UInt8)).length = count.toNat * 4096 :=
    List.length_replicate
  obtain ⟨m', hzero, hview⟩ := zeroFrames_plain (ε := MapError) hsound hsome hplain
  refine ⟨m', hzero, ?_⟩
  rw [← hlength]
  apply write_recorded htree
  · rw [hview, hbase, View.clear]
  · intro a hlow hhigh
    rw [hbase] at hlow hhigh
    exact hout (a / 4096) (by omega) (by omega)

theorem fillFrames_tends {m : Machine} {record : List (Machine × Touch)}
    (hsound : m.view.Sound) (htree : m.view.Tree root) {f : Nat} {count : Word} (offset : Word)
    (contents : List UInt8) (hfits : offset.toNat + contents.length ≤ count.toNat * 4096)
    (hstart : offset.toNat < count.toNat * 4096)
    (hplain : ∀ g, f ≤ g → g < f + count.toNat → m.layout.Plain g)
    (hout : ∀ g, f ≤ g → g < f + count.toNat → g ∉ m.view.tables root ∪ m.view.free) :
    Tends root (do
      recording.zeroPages (frameBase f) count
      recording.copyIn (← (frameBase f).add offset) contents : Action Recorded MapError Unit)
      (m, record) := by
  have hlt : f < 2 ^ 40 := (hplain f (le_refl f) (by omega)).lt hsound.memory
  obtain ⟨m₁, hzero, hcleared⟩ := zeroFrames_recorded record hsound htree (by omega) hplain
    fun g hlow hhigh hin => hout g hlow hhigh (.inl hin)
  have hlayout : m₁.layout = m.layout := hcleared.layout
  have hbelow := (hplain (f + offset.toNat / 4096) (by omega) (by omega)).lt hsound.memory
  obtain ⟨hadd, haddr⟩ := add_frameBase hlt (show offset.toNat < 2 ^ 52 by omega)
  refine hcleared.andThen (Action.bind_ok (touch_ok hzero)) ?_
  rw [hadd]
  refine tends_lift hcleared.tree _ fun addr hsum => ?_
  cases hsum
  have hinside : ∀ k, offset.toNat + k < count.toNat * 4096 →
      m₁.layout.Plain ((((frameBase f).word + offset).toNat + k) / 4096) := by
    intro k hk
    rw [hlayout, haddr]
    exact hplain _ (by omega) (by omega)
  have hbytes : ∀ k < contents.length,
      m₁.layout.Plain ((((frameBase f).word + offset).toNat + k) / 4096) :=
    fun k hk => hinside k (by omega)
  have hfirst : m₁.layout.Plain (⟨(frameBase f).word + offset⟩ : PhysAddr).page :=
    hinside 0 hstart
  obtain ⟨m₂, hcopy, hview₂⟩ := copyIn_run (ε := MapError) hfirst hbytes
  refine ⟨[], ?_⟩
  rw [Port.copyIn, touch_ok hcopy]
  apply write_recorded hcleared.tree hview₂
  intro a hlow hhigh hin
  rw [haddr] at hlow hhigh
  exact hout (a / 4096) (by omega) (by omega) (hcleared.fresh hin)

theorem mapSegment_tends {file : ByteArray} {h : Elf.ProgramHeader} {segment : Segment}
    (hsound : s.1.view.Sound) (htree : s.1.view.Tree root) (hdescribes : h.Describes file segment)
    {length count : Word} (hpages : Word.pageCount length = .ok count)
    (hcount : count.toNat = h.pageCount) (f : Nat) :
    Tends root (recording.mapRange ⟨frameBase root⟩
      ⟨segment.virt.pageFloor, frameBase f, length⟩ segment.rights) s := by
  apply mapRange_tends hsound htree
  intro pages hlength i hi
  obtain rfl : pages = count := Except.ok.inj (hlength.symm.trans hpages)
  have hpage := hdescribes.start_canonical (le_refl _) i (hcount ▸ hi)
  rwa [Addr.page_afterPages _ (lt_of_mem_canonicalPages hpage)]

/-- The frames of a segment are filled after its pages are mapped; by then they are neither free
nor tables of the space. -/
theorem placeSegment_tends {file : ByteArray} {h : Elf.ProgramHeader} {segment : Segment}
    (hsound : s.1.view.Sound) (htree : s.1.view.Tree root) (hdescribes : h.Describes file segment) :
    Tends root (recording.placeSegment ⟨frameBase root⟩ segment) s := by
  obtain ⟨span, length, hspan, hlength, hpages, hcount⟩ := segment_length hdescribes
  rw [Port.placeSegment]
  refine tends_lift htree _ fun sum hsum => ?_
  obtain rfl : sum = span := Except.ok.inj (hsum.symm.trans hspan)
  refine tends_lift htree _ fun rounded hrounded => ?_
  obtain rfl : rounded = length := Except.ok.inj (hrounded.symm.trans hlength)
  rcases alloc_run hsound (rounded / pageSize) with
    ⟨e, m₁, halloc, hview₁, _⟩ | ⟨f, m₁, _, hfree, halloc, hview₁⟩
  · exact Tended.tends (.of_view_eq htree hview₁)
      (Action.bind_error (Action.mapError_error (quiet_error halloc)))
  · obtain ⟨m₂, hemit, hview₂⟩ := emit_run (ε := MapError)
      (.loadingSegment segment.index segment.virt segment.memorySize (frameBase f)
        segment.rights) m₁
    have hview := hview₂.trans hview₁
    have htaken : Tended root [] s (m₂, s.2) := .take htree hview
    refine htaken.andThen ((Action.bind_ok (Action.mapError_ok (quiet_ok halloc))).trans
      (Action.bind_ok (quiet_ok hemit))) ?_
    obtain ⟨pages, hmapped⟩ :=
      mapSegment_tends (htaken.sound hsound) htaken.tree hdescribes hpages hcount f
    refine Tends.bind (htaken.sound hsound) ⟨pages, hmapped⟩ fun _ t hrun hsound' htree' => ?_
    rw [hrun] at hmapped
    obtain ⟨hfits, hstart⟩ := hdescribes.fill_fits hcount
    apply fillFrames_tends hsound' htree' _ _ hfits hstart
    · intro g hlow hhigh
      rw [show t.1.layout = m₂.layout from hmapped.layout,
        show m₂.layout = s.1.layout from htaken.layout]
      exact hsound.plain g (hfree ⟨hlow, hhigh⟩)
    · exact fun g hlow hhigh => hmapped.taken_unused htree hview hfree ⟨hlow, hhigh⟩

theorem placeSegments_tends {file : ByteArray} {headers : List Elf.ProgramHeader}
    {segments : List Segment} (hsound : s.1.view.Sound) (htree : s.1.view.Tree root)
    (hall : List.Forall₂ (fun h segment => h.Describes file segment) headers segments) :
    Tends root (segments.forM fun segment => Action.mapError LoadError.unmappable
      (recording.placeSegment ⟨frameBase root⟩ segment)) s := by
  induction hall generalizing s with
  | nil => exact ⟨[], .refl htree⟩
  | cons hdescribes _ ih =>
      refine (placeSegment_tends hsound htree hdescribes).mapError.bind hsound ?_
      intro _ t _ hsound' htree'
      exact ih hsound' htree'

theorem load_tends (hsound : s.1.view.Sound) (htree : s.1.view.Tree root) (parse : Elf.Parser)
    (file : ByteArray) : Tends root (recording.load parse ⟨frameBase root⟩ file) s := by
  rw [Port.load]
  cases himage : Executable.ofImage parse file with
  | error e =>
      rw [loadBy_of_ofImage_error _ himage]
      exact ⟨[], .refl htree⟩
  | ok image =>
      obtain ⟨_, _, _, hall, hplaces⟩ := loadBy_of_ofImage_ok himage
      rw [hplaces]
      refine (placeSegments_tends hsound htree hall).bind hsound ?_
      intro _ t _ _ htree'
      exact ⟨[], .refl htree'⟩

end Work

/-- The addresses of the work are canonical with four levels.  The addresses of an image are checked
when it is loaded. -/
def SpaceWork.IsCanonical : SpaceWork → Prop
  | .map virt _ _ _ => virt.isCanonical = true
  | .unmap virt => virt.isCanonical = true
  | .mapRange request _ =>
      ∀ count, Word.pageCount request.length = .ok count → ∀ i < count.toNat,
        (request.virt.pageFloor.afterPages i).isCanonical = true
  | .load _ _ => True

/-- Looked-up addresses with what they were looked up to, all of them canonical and as a look-up
finds them now. -/
def Caches (m : Machine) (root : Nat)
    (cache : Set (VirtAddr × Option (PhysAddr × EntryFlags))) : Prop :=
  ∀ pair ∈ cache, pair.1.isCanonical = true ∧
    translate ⟨frameBase root⟩ pair.1 m =
      (.ok pair.2 m : EStateM.Result (Failure MapError) Machine _)

theorem SpaceWork.tended {root : Nat} {m : Machine} (hsound : m.view.Sound)
    (htree : m.view.Tree root) (work : SpaceWork) (hcanonical : work.IsCanonical) :
    ∃ dropped, Tended root dropped (m, []) (recording.after ⟨frameBase root⟩ work (m, [])) := by
  cases work with
  | map virt phys rights size =>
      rw [Port.after]
      exact mapPage_tends hsound htree ((Addr.isCanonical_iff virt).mp hcanonical) phys rights size
  | unmap virt =>
      rw [Port.after]
      exact unmapPage_tends hsound htree ((Addr.isCanonical_iff virt).mp hcanonical)
  | mapRange request rights =>
      rw [Port.after]
      apply mapRange_tends hsound htree
      exact fun count hcount i hi => (Addr.isCanonical_iff _).mp (hcanonical count hcount i hi)
  | load parse file =>
      rw [Port.after]
      exact load_tends hsound htree parse file

/-- What was kept and not dropped is still what a look-up finds. -/
theorem Caches.tended {root : Nat} {s t : Recorded} {pages : List VirtAddr}
    (htended : Tended root pages s t) (hsound : s.1.view.Sound) (htree : s.1.view.Tree root)
    {cache : Set (VirtAddr × Option (PhysAddr × EntryFlags))} (hcache : s.1.Caches root cache)
    (hstart : ∀ page ∈ pages, page.startsPage = true) :
    t.1.Caches root {pair ∈ cache | pair.1.pageFloor ∉ pages} := by
  rintro ⟨virt, target⟩ ⟨hmem, hkept⟩
  obtain ⟨hcanonical, htranslate⟩ := hcache _ hmem
  refine ⟨hcanonical, ?_⟩
  have hsame : t.1.view.lookup root virt.route = s.1.view.lookup root virt.route := by
    apply htended.lookup virt ((Addr.isCanonical_iff virt).mp hcanonical)
    intro page hpage heq
    exact hkept (Addr.eq_pageFloor (hstart page hpage) heq ▸ hpage)
  rw [translate_run hsound htree] at htranslate
  rw [translate_run (htended.sound hsound) htended.tree, hsame]
  exact congrArg (EStateM.Result.ok · t.1) (EStateM.Result.ok.inj htranslate).1

/-- No stale translation survives work in a space, whether it succeeds or fails on the way: what
was kept from before and is not of a dropped page is still what a look-up finds.  Dropped are the
pages whose leaf entries the work wrote, once for each write and in the order of the writes, so
work that writes no leaf entry drops nothing. -/
theorem no_stale_translation {m : Machine} (hwell : m.WellFormed) {root : Nat}
    (htree : m.view.Tree root) (work : SpaceWork) (hcanonical : work.IsCanonical) :
    Port.plain.after = SpaceWork.after ∧
      ∃ record dropped,
        recording.after ⟨frameBase root⟩ work (m, []) =
          (work.after ⟨frameBase root⟩ m, record) ∧
        (work.after ⟨frameBase root⟩ m).invalidated = m.invalidated ++ dropped.toArray ∧
        (∀ cache, m.Caches root cache →
          (work.after ⟨frameBase root⟩ m).Caches root
            {pair ∈ cache | pair.1.pageFloor ∉ dropped}) ∧
        Orderly root record dropped ∧
        (∀ page ∈ dropped, page.startsPage = true) ∧
        ((∀ m' addr length, (m', Touch.write addr length) ∈ record →
          Beside (m'.view.leafTables root) addr length) → dropped = []) := by
  obtain ⟨dropped, htended⟩ := work.tended hwell.sound htree hcanonical
  obtain ⟨record, hrecord, horderly⟩ := htended.record
  have hafter : (recording.after ⟨frameBase root⟩ work (m, [])).1 =
      work.after ⟨frameBase root⟩ m := Port.faithful_recording.after _ work (m, [])
  refine ⟨Port.after_plain, record, dropped, ?_, ?_, ?_, horderly, horderly.startsPage,
    horderly.eq_nil⟩
  · rw [List.nil_append] at hrecord
    rw [← hafter, ← hrecord]
  · rw [← hafter]
    exact htended.invalidated
  · intro cache hcache
    rw [← hafter]
    exact Caches.tended htended hwell.sound htree hcache horderly.startsPage

/-- A page is mapped in an empty space, and its neighbour is still found not to be mapped. -/
theorem no_stale_translation_tightMachine :
    (tightMachine 0xff).WellFormed ∧ (tightMachine 0xff).view.Tree 1 ∧
      ∃ m', mapPage ⟨frameBase 1⟩ ⟨0x400000⟩ ⟨0x5000⟩ .read .size4KiB (tightMachine 0xff) =
          .ok ⟨⟩ m' ∧
        m'.invalidated = #[⟨0x400000⟩] ∧
        translate ⟨frameBase 1⟩ ⟨0x401000⟩ m' =
          (.ok none m' : EStateM.Result (Failure MapError) Machine _) := by
  have hwell := wellFormed_tightMachine 0xff
  have htree := tree_tightMachine 0xff
  obtain ⟨m', hmap, _⟩ := mapPage_supplied (n := 2) hwell.sound htree (allSmall_tightMachine 0xff)
    ⟨0x400000⟩ ⟨0x5000⟩ .read ((supplied_tightMachine 0xff).mono (by decide))
  have hinvalidated : m'.invalidated = #[⟨0x400000⟩] := by
    rcases mapPage_run hwell.sound htree ⟨0x400000⟩ ⟨0x5000⟩ .read .size4KiB with
      ⟨_, _, m₁, _, _, hrun, _, hset⟩ | ⟨e, m₁, hfail, _⟩
    · cases hmap.symm.trans hrun
      exact hset.invalidated
    · cases hmap.symm.trans hfail
  obtain ⟨_, record, dropped, _, hdropped, hcaches, _⟩ :=
    no_stale_translation hwell htree (.map ⟨0x400000⟩ ⟨0x5000⟩ .read .size4KiB)
      (show Addr.isCanonical ⟨0x400000⟩ = true by decide)
  have hafter : SpaceWork.after ⟨frameBase 1⟩ (.map ⟨0x400000⟩ ⟨0x5000⟩ .read .size4KiB)
      (tightMachine 0xff) = m' := by
    rw [SpaceWork.after, hmap, final]
  rw [hafter] at hdropped hcaches
  have hpages : dropped = [⟨0x400000⟩] := by
    rw [hinvalidated, show (tightMachine 0xff).invalidated = #[] from rfl] at hdropped
    simpa using hdropped.symm
  have hbefore : (tightMachine 0xff).Caches 1 {(⟨0x401000⟩, none)} := by
    rintro pair rfl
    refine ⟨by decide, ?_⟩
    rw [translate_run hwell.sound htree, lookup_tightMachine]
    rfl
  refine ⟨hwell, htree, m', hmap, hinvalidated, ?_⟩
  refine (hcaches _ hbefore (⟨0x401000⟩, none) ⟨rfl, ?_⟩).2
  rw [hpages]
  decide

end Machine

end BootMemory
