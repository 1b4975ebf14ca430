import BootMemory.Proofs.ActiveRoot
import BootMemory.Proofs.TwinLoads

/-!
# How far a load comes

A load takes a run of frames for each part of an image, maps the pages of the part in order, and
fills the frames.  It ends after the last part, before a part for which there is no run of frames,
or at a page that cannot be mapped; the pages before that one stay mapped.  Nothing else goes
wrong: the checks of the image are strong enough for every sum, and what is written lies in frames
that were free or in tables of the space.
-/

namespace BootMemory

open Elf (ProgramHeader)

/-- A part of an image with the frames from `first` on, to which its first `mapped` pages were
mapped. -/
structure TakenPart where
  header : ProgramHeader
  first : Nat
  mapped : Nat

namespace TakenPart

variable (part : TakenPart)

def frames : Set Nat :=
  part.header.frames part.first

def pages : Set Nat :=
  part.header.firstPages part.mapped

def IsWhole : Prop :=
  part.mapped = part.header.pageCount

/-- The page of the part that a frame was taken for. -/
def pageOf (frame : Nat) : Nat :=
  part.header.virtualAddress / 4096 + (frame - part.first)

def frameOf (page : Nat) : Nat :=
  part.first + (page - part.header.virtualAddress / 4096)

variable {part} {frame page : Nat}

theorem frameOf_mem_frames (hbound : part.mapped ≤ part.header.pageCount)
    (hpage : page ∈ part.pages) : part.frameOf page ∈ part.frames := by
  simp only [pages, ProgramHeader.firstPages, Set.mem_Ico] at hpage
  simp only [frames, frameOf, ProgramHeader.frames, Set.mem_Ico]
  omega

theorem frameOf_pageOf (hframe : frame ∈ part.frames) :
    part.frameOf (part.pageOf frame) = frame := by
  simp only [frames, ProgramHeader.frames, Set.mem_Ico] at hframe
  simp only [frameOf, pageOf]
  omega

theorem pageOf_frameOf (hpage : page ∈ part.pages) : part.pageOf (part.frameOf page) = page := by
  simp only [pages, ProgramHeader.firstPages, Set.mem_Ico] at hpage
  simp only [frameOf, pageOf]
  omega

end TakenPart

def takenFrames (parts : List TakenPart) : Set Nat :=
  {frame | ∃ part ∈ parts, frame ∈ part.frames}

@[simp] theorem takenFrames_nil : takenFrames [] = ∅ := by
  simp [takenFrames]

@[simp] theorem takenFrames_cons (part : TakenPart) (parts : List TakenPart) :
    takenFrames (part :: parts) = part.frames ∪ takenFrames parts := by
  ext frame
  simp [takenFrames]

/-- What the work for one part leaves as it is, and where its pages lead after it. -/
structure PartTaken (root : Nat) (part : TakenPart) (v w : View) : Prop where
  layout : w.layout = v.layout
  bound : part.mapped ≤ part.header.pageCount
  frames : part.frames ⊆ v.free
  free : w.free ⊆ v.free \ part.frames
  tables : v.tables root ⊆ w.tables root
  fresh : w.tables root ⊆ v.tables root ∪ (v.free \ part.frames)
  spent : v.free ⊆ w.free ∪ w.tables root ∪ part.frames
  kept : ∀ a, a / 4096 ∉ v.free → a / 4096 ∉ v.tables root → w.byte a = v.byte a
  tree : w.Tree root
  moved : ∀ virt : VirtAddr, virt.page ∈ part.pages → w.lookup root virt.route =
    some (frameBase (part.frameOf virt.page), part.header.entryFlags)
  unmoved : ∀ virt : VirtAddr, virt.page ∈ canonicalPages → virt.page ∉ part.pages →
    w.lookup root virt.route = v.lookup root virt.route
  aside : ∀ virt : VirtAddr, virt.IsAside v.layout.top →
    w.lookup root virt.route = v.lookup root virt.route

/-- Work for some parts, one after the other.  Of the parts that map a page the last decides where
it leads. -/
structure PartsTaken (root : Nat) (parts : List TakenPart) (v w : View) : Prop where
  layout : w.layout = v.layout
  bound : ∀ part ∈ parts, part.mapped ≤ part.header.pageCount
  canonical : ∀ part ∈ parts, part.pages ⊆ canonicalPages
  frames : takenFrames parts ⊆ v.free
  apart : parts.Pairwise fun part later => Disjoint part.frames later.frames
  free : w.free ⊆ v.free \ takenFrames parts
  tables : v.tables root ⊆ w.tables root
  fresh : w.tables root ⊆ v.tables root ∪ (v.free \ takenFrames parts)
  spent : v.free ⊆ w.free ∪ w.tables root ∪ takenFrames parts
  kept : ∀ a, a / 4096 ∉ v.free → a / 4096 ∉ v.tables root → w.byte a = v.byte a
  tree : w.Tree root
  moved : ∀ before part after, parts = before ++ part :: after → ∀ virt : VirtAddr,
    virt.page ∈ part.pages → (∀ later ∈ after, virt.page ∉ later.pages) →
      w.lookup root virt.route =
        some (frameBase (part.frameOf virt.page), part.header.entryFlags)
  unmoved : ∀ virt : VirtAddr, virt.page ∈ canonicalPages →
    (∀ part ∈ parts, virt.page ∉ part.pages) → w.lookup root virt.route = v.lookup root virt.route
  aside : ∀ virt : VirtAddr, virt.IsAside v.layout.top →
    w.lookup root virt.route = v.lookup root virt.route

section Steps

variable {root f k : Nat} {h : ProgramHeader} {part : TakenPart} {parts : List TakenPart}
  {u v w : View}

/-- Mapping a part and then writing in its frames is work for the part. -/
theorem PartMapped.partTaken (hmapped : PartMapped root h f k u v) (htree : u.Tree root)
    (hlayout : w.layout = v.layout) (hfree : w.free = v.free)
    (hbytes : ∀ a, a / 4096 ∉ h.frames f → w.byte a = v.byte a) :
    PartTaken root ⟨h, f, k⟩ u w := by
  have hgrown := hmapped.grown
  have htables : (u.take f h.pageCount).tables root = u.tables root :=
    (View.SameTables.take u f h.pageCount).tables_eq
  have hsame : View.SameTables v w root :=
    .of_bytes hlayout fun a ha => hbytes a fun hin => hmapped.not_mem_tables htree hin ha
  constructor
  · exact hlayout.trans hgrown.layout
  · exact hmapped.bound
  · exact hmapped.frames
  · rw [hfree]
    exact hgrown.free
  · rw [hsame.tables_eq, ← htables]
    exact hgrown.tables
  · rw [hsame.tables_eq, ← htables]
    exact hgrown.fresh
  · intro g hg
    by_cases hin : g ∈ h.frames f
    · exact .inr hin
    · rw [hsame.tables_eq, hfree]
      exact .inl (hgrown.taken ⟨hg, hin⟩)
  · intro a hnotFree hnotTable
    rw [hbytes a fun hin => hnotFree (hmapped.frames hin)]
    exact hgrown.byte_eq (htables ▸ hnotTable) fun hin => hnotFree hin.1
  · exact hsame.tree hgrown.tree (hfree ▸ hgrown.tree.taken)
  · intro virt hvirt
    rw [hsame.lookup_eq]
    exact hmapped.moved virt hvirt
  · intro virt hcanonical hvirt
    rw [hsame.lookup_eq]
    exact hmapped.unmoved virt hcanonical hvirt
  · intro virt haside
    rw [hsame.lookup_eq]
    exact hmapped.aside virt haside

theorem PartTaken.confined (htaken : PartTaken root part v w) : View.Confined root v w where
  layout := htaken.layout
  free := htaken.free.trans Set.sdiff_subset
  fresh := htaken.fresh.trans (Set.union_subset_union_right _ Set.sdiff_subset)
  kept := htaken.kept
  tree := htaken.tree

theorem PartsTaken.confined (htaken : PartsTaken root parts v w) : View.Confined root v w where
  layout := htaken.layout
  free := htaken.free.trans Set.sdiff_subset
  fresh := htaken.fresh.trans (Set.union_subset_union_right _ Set.sdiff_subset)
  kept := htaken.kept
  tree := htaken.tree

namespace PartsTaken

theorem nil (htree : v.Tree root) : PartsTaken root [] v v := by
  constructor <;> simp [htree]

/-- The frames of a part are not free when the parts after it are begun, so these take other frames
and write in none of its frames. -/
theorem cons (hpart : PartTaken root part u v) (hcanonical : part.pages ⊆ canonicalPages)
    (hrest : PartsTaken root parts v w) : PartsTaken root (part :: parts) u w := by
  have hlater : takenFrames parts ⊆ u.free \ part.frames := hrest.frames.trans hpart.free
  have hconfined := hpart.confined.trans hrest.confined
  constructor
  · exact hconfined.layout
  · simpa using ⟨hpart.bound, hrest.bound⟩
  · simpa using ⟨hcanonical, hrest.canonical⟩
  · simpa using ⟨hpart.frames, hlater.trans Set.sdiff_subset⟩
  · refine List.pairwise_cons.mpr ⟨fun later hin => ?_, hrest.apart⟩
    refine Set.disjoint_right.mpr fun g hg => ?_
    exact (hlater ⟨later, hin, hg⟩).2
  · intro g hg
    have hleft := hrest.free hg
    have hfirst := hpart.free hleft.1
    simpa using ⟨hfirst.1, hfirst.2, hleft.2⟩
  · exact hpart.tables.trans hrest.tables
  · intro t ht
    rcases hrest.fresh ht with hold | ⟨hin, hout⟩
    · refine (hpart.fresh hold).imp_right fun hnew => ?_
      -- a table of this part is no longer free when the rest is begun
      have hbeside : t ∉ takenFrames parts := fun hmem =>
        hpart.tree.taken t hold (hrest.frames hmem)
      simpa using ⟨hnew.1, hnew.2, hbeside⟩
    · have hfirst := hpart.free hin
      right
      simpa using ⟨hfirst.1, hfirst.2, hout⟩
  · intro g hg
    rcases hpart.spent hg with (hleft | htable) | hin
    · rcases hrest.spent hleft with hrest | hin
      · exact .inl hrest
      · simp [hin]
    · exact .inl (.inr (hrest.tables htable))
    · simp [hin]
  · exact hconfined.kept
  · exact hconfined.tree
  · intro before part' after hsplit virt hvirt hbeyond
    cases before with
    | nil =>
        obtain ⟨rfl, rfl⟩ := List.cons.inj hsplit
        rw [hrest.unmoved virt (hcanonical hvirt) hbeyond]
        exact hpart.moved virt hvirt
    | cons _ before =>
        exact hrest.moved before part' after (List.cons.inj hsplit).2 virt hvirt hbeyond
  · intro virt hvirt hnone
    obtain ⟨hfirst, hothers⟩ := List.forall_mem_cons.mp hnone
    rw [hrest.unmoved virt hvirt hothers]
    exact hpart.unmoved virt hvirt hfirst
  · intro virt haside
    rw [hrest.aside virt (hpart.layout ▸ haside)]
    exact hpart.aside virt haside

end PartsTaken

end Steps

namespace Machine

section Ranges

variable {m : Machine} {root : Nat} {virt : VirtAddr} {phys : PhysAddr} {rights : AccessRights}

/-- Where the addresses do not leave the word, a range is mapped or fails with an error, and then
some page was not mapped. -/
theorem mapPages_ends (hsound : m.view.Sound) (htree : m.view.Tree root) {count first : Nat}
    (hvirt : virt.page + first + count ≤ 2 ^ 52) (hphys : phys.page + first + count ≤ 2 ^ 52) :
    (∃ m', mapPages ⟨frameBase root⟩ virt.pageFloor phys.pageFloor rights count first m =
        .ok ⟨⟩ m') ∨
      ∃ e m', mapPages ⟨frameBase root⟩ virt.pageFloor phys.pageFloor rights count first m =
          .error (.error e) m' ∧ m'.invalidated.size < m.invalidated.size + count := by
  induction count generalizing m first with
  | zero => exact .inl ⟨m, rfl⟩
  | succ count ih =>
      rw [mapPages_succ_of_fits _ rights (by omega) (by omega)]
      rcases mapPage_run hsound htree (virt.pageFloor.afterPages first)
        (phys.pageFloor.afterPages first) rights .size4KiB with
        ⟨_, _, m₁, _, _, hrun, _, hset⟩ | ⟨e, m₁, hrun, _, hkept⟩
      · have hpush : m₁.invalidated.size = m.invalidated.size + 1 :=
          (congrArg Array.size hset.invalidated).trans (Array.size_push _)
        rw [Action.bind_ok hrun]
        rcases ih (hset.grown.sound hsound) hset.grown.tree
          (show virt.page + (first + 1) + count ≤ 2 ^ 52 by omega) (by omega) with
          hdone | ⟨e, m', hfail, hsize⟩
        · exact .inl hdone
        · exact .inr ⟨e, m', hfail, by omega⟩
      · have hsame : m₁.invalidated = m.invalidated := hkept.invalidated
        rw [Action.bind_error hrun]
        exact .inr ⟨e, m₁, rfl, by simp [hsame]⟩

theorem mapRange_ends (hsound : m.view.Sound) (htree : m.view.Tree root) (request : MapRequest)
    {count : Word} (hcount : Word.pageCount request.length = .ok count) (rights : AccessRights)
    (hvirt : request.virt.page + count.toNat ≤ 2 ^ 52)
    (hphys : request.phys.page + count.toNat ≤ 2 ^ 52) :
    (∃ m', mapRange ⟨frameBase root⟩ request rights m = .ok ⟨⟩ m') ∨
      ∃ e m', mapRange ⟨frameBase root⟩ request rights m = .error (.error e) m' ∧
        m'.invalidated.size < m.invalidated.size + count.toNat := by
  obtain ⟨m₁, hemit, hview⟩ := emit_run (ε := MapError)
    (.mappingPages count request.virt.pageFloor request.phys.pageFloor) m
  have hsame : m₁.invalidated = m.invalidated := congrArg View.invalidated hview
  rw [mapRange, hcount, Action.bind_ok (Action.lift_ok _ m), Action.bind_ok hemit, ← hsame]
  exact mapPages_ends (hview ▸ hsound) (hview ▸ htree)
    (show request.virt.page + 0 + count.toNat ≤ 2 ^ 52 from hvirt) hphys

end Ranges

section Segments

variable {m : Machine} {root : Nat} {file : ByteArray} {h : ProgramHeader} {s : Segment}

/-- Mapping a part maps all its pages, or it fails with an error and leaves some of them out. -/
theorem mapPart_ends {m₁ : Machine} {f : Nat} {length pages : Word} (hsound : m.view.Sound)
    (htree : m.view.Tree root) (hdescribes : h.Describes file s)
    (hpages : Word.pageCount length = .ok pages) (hcount : pages.toNat = h.pageCount)
    (hfree : h.frames f ⊆ m.view.free) (hview : m₁.view = m.view.take f h.pageCount) :
    (∃ m₂, mapRange ⟨frameBase root⟩ ⟨s.virt.pageFloor, frameBase f, length⟩ s.rights m₁ =
        .ok ⟨⟩ m₂ ∧ PartMapped root h f h.pageCount m.view m₂.view) ∨
      ∃ e k m₂, mapRange ⟨frameBase root⟩ ⟨s.virt.pageFloor, frameBase f, length⟩ s.rights m₁ =
          .error (.error e) m₂ ∧ k < h.pageCount ∧ PartMapped root h f k m.view m₂.view := by
  obtain ⟨k, m₂, hmapped, hcalls, hresult⟩ :=
    mapPart_run hsound htree hdescribes hpages hcount hfree hview
  rcases hresult with ⟨rfl, hdone⟩ | ⟨failure, hfail⟩
  · exact .inl ⟨m₂, hdone, hmapped⟩
  · have hends := mapRange_ends (hview ▸ hsound.take f h.pageCount)
      (hview ▸ htree.take f h.pageCount) ⟨s.virt.pageFloor, frameBase f, length⟩ hpages s.rights
      (hcount ▸ hdescribes.pages_fit) (hcount ▸ hdescribes.frames_fit hsound hfree)
    rcases hends with ⟨_, hdone⟩ | ⟨e, m', hstop, hsize⟩
    · cases hfail.symm.trans hdone
    · cases hfail.symm.trans hstop
      exact .inr ⟨e, k, m₂, hfail, by omega, hmapped⟩

/-- Placing a segment finds no run of frames, or stops at one of its pages, or takes the whole
part in. -/
theorem placeSegment_ends (hsound : m.view.Sound) (htree : m.view.Tree root)
    (hdescribes : h.Describes file s) :
    (∃ e m', placeSegment ⟨frameBase root⟩ s m = .error (.error (.noFrame e)) m' ∧
        m'.view = m.view ∧ ∀ f, ¬h.frames f ⊆ m.view.free) ∨
      (∃ e f k m', placeSegment ⟨frameBase root⟩ s m = .error (.error e) m' ∧
        k < h.pageCount ∧ PartTaken root ⟨h, f, k⟩ m.view m'.view) ∨
      ∃ f m', placeSegment ⟨frameBase root⟩ s m = .ok ⟨⟩ m' ∧
        PartTaken root ⟨h, f, h.pageCount⟩ m.view m'.view := by
  obtain ⟨length, pages, hpages, hcount, hplace⟩ := placeSegment_eq hdescribes
  rw [hplace]
  rcases alloc_run hsound pages with
    ⟨e, m₁, halloc, hview, hnone⟩ | ⟨f, m₁, _, hfree, halloc, hview₁⟩
  · rw [hcount] at hnone
    exact .inl ⟨e, m₁, Action.bind_error (Action.mapError_error halloc), hview,
      hnone hdescribes.pageCount_pos⟩
  · rw [hcount] at hfree hview₁
    obtain ⟨m₂, hemit, hview₂⟩ := emit_run (ε := MapError)
      (.loadingSegment s.index s.virt s.memorySize (frameBase f) s.rights) m₁
    rw [Action.bind_ok (Action.mapError_ok halloc), Action.bind_ok hemit]
    rcases mapPart_ends hsound htree hdescribes hpages hcount hfree (hview₂.trans hview₁) with
      ⟨m₃, hmap, hmapped⟩ | ⟨e, k, m₃, hmap, hk, hmapped⟩
    · obtain ⟨m', hfill, hview'⟩ := fillPart_run hsound hdescribes hcount hmapped
      have htaken : PartTaken root ⟨h, f, h.pageCount⟩ m.view m'.view := by
        rw [hview']
        exact hmapped.partTaken htree rfl rfl fun a ha =>
          View.byte_fill_of_outside hdescribes.contents_fit ha
      exact .inr (.inr ⟨f, m', (Action.bind_ok hmap).trans hfill, htaken⟩)
    · exact .inr (.inl ⟨e, f, k, m₃, Action.bind_error hmap, hk,
        hmapped.partTaken htree rfl rfl fun _ _ => rfl⟩)

end Segments

/-- How work for some parts in a row ends.  Only the last part that was begun can be torn, and then
at least one of its pages is left out. -/
inductive PartsEnd {α : Type} (root : Nat) (headers : List ProgramHeader) (m : Machine) :
    EStateM.Result (Failure LoadError) Machine α → List TakenPart → Prop
  | all {a : α} {m' : Machine} {parts : List TakenPart} (hwhole : ∀ part ∈ parts, part.IsWhole)
      (hheaders : parts.map TakenPart.header = headers)
      (htaken : PartsTaken root parts m.view m'.view) : PartsEnd root headers m (.ok a m') parts
  | noRun {e : AllocError} {m' : Machine} {parts : List TakenPart} {h : ProgramHeader}
      (hwhole : ∀ part ∈ parts, part.IsWhole)
      (hheaders : parts.map TakenPart.header ++ [h] <+: headers)
      (htaken : PartsTaken root parts m.view m'.view) (hnone : ∀ f, ¬h.frames f ⊆ m'.view.free) :
      PartsEnd root headers m (.error (.error (.unmappable (.noFrame e))) m') parts
  | torn {e : MapError} {m' : Machine} {parts : List TakenPart} {last : TakenPart}
      (hwhole : ∀ part ∈ parts, part.IsWhole)
      (hheaders : (parts ++ [last]).map TakenPart.header <+: headers)
      (htorn : last.mapped < last.header.pageCount)
      (htaken : PartsTaken root (parts ++ [last]) m.view m'.view) :
      PartsEnd root headers m (.error (.error (.unmappable e)) m') (parts ++ [last])

section Loading

variable {α : Type} {m : Machine} {root : Nat} {file : ByteArray} {headers : List ProgramHeader}
  {parts : List TakenPart} {result : EStateM.Result (Failure LoadError) Machine α}

theorem PartsEnd.ne_fault (hend : PartsEnd root headers m result parts) (fault : Fault)
    (m' : Machine) : result ≠ .error (.fault fault) m' := by
  cases hend <;> simp

theorem PartsEnd.taken (hend : PartsEnd root headers m result parts) :
    PartsTaken root parts m.view (Action.final result).view := by
  cases hend <;> assumption

theorem PartsEnd.cons {m₁ : Machine} {h : ProgramHeader} {f : Nat}
    (hpart : PartTaken root ⟨h, f, h.pageCount⟩ m.view m₁.view)
    (hcanonical : h.pages ⊆ canonicalPages) (hrest : PartsEnd root headers m₁ result parts) :
    PartsEnd root (h :: headers) m result (⟨h, f, h.pageCount⟩ :: parts) := by
  have hpages : (⟨h, f, h.pageCount⟩ : TakenPart).pages ⊆ canonicalPages :=
    h.firstPages_pageCount.subset.trans hcanonical
  cases hrest with
  | all hwhole hheaders htaken =>
      refine .all ?_ ?_ (htaken.cons hpart hpages)
      · simpa [TakenPart.IsWhole] using hwhole
      · simpa using hheaders
  | noRun hwhole hheaders htaken hnone =>
      refine .noRun ?_ ?_ (htaken.cons hpart hpages) hnone
      · simpa [TakenPart.IsWhole] using hwhole
      · simpa using hheaders
  | torn hwhole hheaders htorn htaken =>
      rw [← List.cons_append]
      refine .torn ?_ ?_ htorn (htaken.cons hpart hpages)
      · simpa [TakenPart.IsWhole] using hwhole
      · simpa using hheaders

theorem PartsEnd.andThen {x : MachineM LoadError Unit}
    (hend : PartsEnd root headers m (x m) parts) (a : α) :
    PartsEnd root headers m ((x >>= fun _ => pure a) m) parts := by
  rw [Action.bind_apply]
  generalize x m = result at hend ⊢
  cases hend with
  | all hwhole hheaders htaken => exact .all hwhole hheaders htaken
  | noRun hwhole hheaders htaken hnone => exact .noRun hwhole hheaders htaken hnone
  | torn hwhole hheaders htorn htaken => exact .torn hwhole hheaders htorn htaken

theorem placeSegments_ends {segments : List Segment}
    (hall : List.Forall₂ (fun h s => h.Describes file s) headers segments)
    (hsound : m.view.Sound) (htree : m.view.Tree root) :
    ∃ parts, PartsEnd root headers m ((segments.forM fun s =>
      Action.mapError LoadError.unmappable (placeSegment ⟨frameBase root⟩ s)) m) parts := by
  induction hall generalizing m with
  | nil => exact ⟨[], .all (by simp) rfl (.nil htree)⟩
  | @cons h s headers segments hdescribes _ ih =>
      have hcanonical : h.pages ⊆ canonicalPages := fun p hp => hdescribes.canonical hp
      change ∃ parts, PartsEnd root (h :: headers) m
        ((Action.mapError LoadError.unmappable (placeSegment ⟨frameBase root⟩ s) >>= fun _ =>
          segments.forM fun s =>
            Action.mapError LoadError.unmappable (placeSegment ⟨frameBase root⟩ s)) m) parts
      rcases placeSegment_ends hsound htree hdescribes with
        ⟨e, m', hplace, hview, hnone⟩ | ⟨e, f, k, m', hplace, hk, hpart⟩ | ⟨f, m₁, hplace, hpart⟩
      · rw [Action.bind_error (Action.mapError_error hplace)]
        refine ⟨[], .noRun (h := h) (by simp) (by simp) ?_ (hview ▸ hnone)⟩
        rw [hview]
        exact .nil htree
      · rw [Action.bind_error (Action.mapError_error hplace)]
        have hpages : (⟨h, f, k⟩ : TakenPart).pages ⊆ canonicalPages :=
          (h.firstPages_subset hk.le).trans hcanonical
        refine ⟨[] ++ [⟨h, f, k⟩], .torn (by simp) (by simp) hk ?_⟩
        exact (PartsTaken.nil hpart.tree).cons hpart hpages
      · rw [Action.bind_ok (Action.mapError_ok hplace)]
        obtain ⟨parts, hrest⟩ := ih (hpart.confined.sound hsound) hpart.tree
        exact ⟨_, hrest.cons hpart hcanonical⟩

/-- A load turns the image down and leaves everything as it was, or it works through its parts. -/
theorem load_ends (hsound : m.view.Sound) (htree : m.view.Tree root) (parse : Elf.Parser)
    (file : ByteArray) :
    (∃ e, load parse ⟨frameBase root⟩ file m = .error (.error (.rejected e)) m) ∨
      ∃ parts,
        PartsEnd root (Elf.parts parse file) m (load parse ⟨frameBase root⟩ file m) parts := by
  cases himage : Executable.ofImage parse file with
  | error e =>
      left
      rw [load, loadBy_of_ofImage_error _ himage]
      exact ⟨e, rfl⟩
  | ok image =>
      right
      obtain ⟨parsed, _, hparse, hall, hplaces⟩ := loadBy_of_ofImage_ok himage
      have hparts : Elf.parts parse file = parsed.loadable := by
        rw [Elf.parts, hparse]
      obtain ⟨parts, hend⟩ := placeSegments_ends hall hsound htree
      refine ⟨parts, ?_⟩
      rw [load, hplaces, hparts]
      exact hend.andThen image.entry

theorem load_ends_taken (hsound : m.view.Sound) (htree : m.view.Tree root) (parse : Elf.Parser)
    (file : ByteArray) :
    ∃ parts,
      ((∃ e, load parse ⟨frameBase root⟩ file m = .error (.error (.rejected e)) m ∧ parts = []) ∨
        PartsEnd root (Elf.parts parse file) m (load parse ⟨frameBase root⟩ file m) parts) ∧
      PartsTaken root parts m.view (Action.final (load parse ⟨frameBase root⟩ file m)).view := by
  rcases load_ends hsound htree parse file with ⟨e, hreject⟩ | ⟨parts, hend⟩
  · refine ⟨[], .inl ⟨e, hreject, rfl⟩, ?_⟩
    rw [hreject]
    exact .nil htree
  · exact ⟨parts, .inr hend, hend.taken⟩

end Loading

/-! ## No large pages -/

section Small

variable {m : Machine} {root : Nat} {file : ByteArray} {h : ProgramHeader} {s : Segment}

theorem placeSegment_small (hsound : m.view.Sound) (htree : m.view.Tree root)
    (hsmall : m.view.AllSmall root) (hdescribes : h.Describes file s) :
    (Action.final (placeSegment ⟨frameBase root⟩ s m)).view.AllSmall root := by
  obtain ⟨length, pages, hpages, hcount, hcases⟩ := placeSegment_run hsound htree hdescribes
  rcases hcases with
    ⟨e, m', hrun, hview, _⟩ | ⟨f, m₁, hview, hfree, ⟨failure, m', hmap, hrun⟩ | hplaced⟩
  · rw [hrun]
    exact hview ▸ hsmall
  · obtain ⟨k, m₂, hmapped, _, hresult⟩ :=
      mapPart_run hsound htree hdescribes hpages hcount hfree hview
    have hend : m' = m₂ := by
      rcases hresult with ⟨_, hdone⟩ | ⟨_, hfail⟩
      · cases hmap.symm.trans hdone
      · exact (EStateM.Result.error.inj (hmap.symm.trans hfail)).2
    rw [hrun, hend]
    exact hmapped.grown.small ((View.SameTables.take m.view f h.pageCount).allSmall hsmall)
  · obtain ⟨_, m', _, hrun, _, hplaced⟩ := hplaced
    rw [hrun]
    exact hplaced.small hsmall

theorem placeSegments_small {headers : List ProgramHeader} {segments : List Segment}
    (hall : List.Forall₂ (fun h s => h.Describes file s) headers segments)
    (hsound : m.view.Sound) (htree : m.view.Tree root) (hsmall : m.view.AllSmall root) :
    (Action.final ((segments.forM fun s =>
      Action.mapError LoadError.unmappable (placeSegment ⟨frameBase root⟩ s)) m)).view.AllSmall
        root := by
  induction hall generalizing m with
  | nil => exact hsmall
  | cons hdescribes _ ih =>
      apply Action.final_bind (p := fun m' : Machine => m'.view.AllSmall root)
      · rw [Action.final_mapError]
        exact placeSegment_small hsound htree hsmall hdescribes
      · intro _ m₁ hrun hsmall₁
        obtain ⟨f, hplaced⟩ :=
          placeSegment_eq_ok hsound htree hdescribes (Action.mapError_eq_ok hrun)
        exact ih (hplaced.confined.sound hsound) hplaced.tree hsmall₁

/-- However far a load comes, it enters no large pages. -/
theorem load_small (hsound : m.view.Sound) (htree : m.view.Tree root)
    (hsmall : m.view.AllSmall root) (parse : Elf.Parser) (file : ByteArray) :
    (Action.final (load parse ⟨frameBase root⟩ file m)).view.AllSmall root := by
  rw [load]
  cases himage : Executable.ofImage parse file with
  | error e =>
      rw [loadBy_of_ofImage_error _ himage]
      exact hsmall
  | ok image =>
      obtain ⟨_, _, _, hall, hplaces⟩ := loadBy_of_ofImage_ok himage
      rw [hplaces]
      exact Action.final_bind (p := fun m' : Machine => m'.view.AllSmall root)
        (placeSegments_small hall hsound htree hsmall) fun _ _ _ => id

end Small

end Machine

end BootMemory
