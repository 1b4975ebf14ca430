import BootMemory.Proofs.Confinement

/-!
# Frames that a load loses

A load takes all frames of a part before it maps the first page of the part, and it never gives a
frame back.  So where it stops inside a part, the frames of the pages left out stay taken and
nothing in the space leads to them.  The same happens, also in a load that succeeds, to the frame
of a page that a later part maps again.  All other frames that a load takes are tables of the space
or have a page that leads to them.
-/

namespace BootMemory

open Elf (ProgramHeader)

/-- The frames of parts whose page was not mapped, or was mapped again by a later part. -/
def lostFrames (parts : List TakenPart) : Set Nat :=
  {frame | ∃ before part after, parts = before ++ part :: after ∧ frame ∈ part.frames ∧
    (part.pageOf frame ∉ part.pages ∨ ∃ later ∈ after, part.pageOf frame ∈ later.pages)}

theorem lostFrames_subset (parts : List TakenPart) : lostFrames parts ⊆ takenFrames parts := by
  rintro frame ⟨before, part, after, rfl, hin, _⟩
  exact ⟨part, by simp, hin⟩

/-- In a list without two items that go together, a property that no two such items share singles
out one place. -/
theorem split_unique {α : Type} {r : α → α → Prop} {p : α → Prop}
    (happart : ∀ x y, r x y → p x → ¬p y) {before before' after after' : List α} {x y : α}
    (hpairwise : (before ++ x :: after).Pairwise r)
    (hsame : before ++ x :: after = before' ++ y :: after') (hx : p x) (hy : p y) :
    x = y ∧ after = after' := by
  induction before generalizing before' with
  | nil =>
      cases before' with
      | nil => simpa using hsame
      | cons z before' =>
          obtain ⟨rfl, rfl⟩ : x = z ∧ after = before' ++ y :: after' := by simpa using hsame
          have hlater := (List.pairwise_cons.mp hpairwise).1 y (by simp)
          exact absurd hy (happart x y hlater hx)
  | cons z before ih =>
      cases before' with
      | nil =>
          obtain ⟨rfl, rfl⟩ : z = y ∧ before ++ x :: after = after' := by simpa using hsame
          have hlater := (List.pairwise_cons.mp hpairwise).1 x (by simp)
          exact absurd hx (happart z x hlater hy)
      | cons _ before' =>
          exact ih (List.pairwise_cons.mp hpairwise).2 (List.cons.inj hsame).2

/-- The frame of the first page that was left out. -/
theorem mem_lostFrames_of_torn {parts : List TakenPart} {last : TakenPart}
    (htorn : last.mapped < last.header.pageCount) :
    last.first + last.mapped ∈ lostFrames (parts ++ [last]) := by
  refine ⟨parts, last, [], rfl, ?_, .inl ?_⟩
  · simpa [TakenPart.frames, ProgramHeader.frames] using htorn
  · simp [TakenPart.pages, TakenPart.pageOf, ProgramHeader.firstPages]

namespace PartsTaken

variable {root frame : Nat} {parts : List TakenPart} {v w : View}

theorem lookup_lost_of_canonical (htaken : PartsTaken root parts v w) (hsound : v.Sound)
    (hlost : frame ∈ lostFrames parts) {virt : VirtAddr} (hvirt : virt.page ∈ canonicalPages)
    {flags : EntryFlags} (hlookup : w.lookup root virt.route = some (frameBase frame, flags)) :
    v.lookup root virt.route = some (frameBase frame, flags) := by
  have hlt : ∀ g ∈ takenFrames parts, g < 2 ^ 52 := fun g hg =>
    lt_trans ((hsound.plain g (htaken.frames hg)).lt hsound.memory) (by decide)
  by_cases hcovered : ∃ part ∈ parts, virt.page ∈ part.pages
  · exfalso
    obtain ⟨before, last, after, hsplit, hpage, hafter⟩ := exists_last hcovered
    have hmem : last ∈ parts := by simp [hsplit]
    have hin := TakenPart.frameOf_mem_frames (htaken.bound last hmem) hpage
    rw [htaken.moved before last after hsplit virt hpage hafter] at hlookup
    have hframe : last.frameOf virt.page = frame :=
      frameBase_injOn (hlt _ ⟨last, hmem, hin⟩) (hlt _ (lostFrames_subset parts hlost))
        (congrArg Prod.fst (Option.some.inj hlookup))
    obtain ⟨before', part, after', hsplit', hpart, hwhy⟩ := hlost
    -- the frames of the parts are disjoint, so the part that lost the frame is the last one
    have happart : ∀ p q : TakenPart, Disjoint p.frames q.frames → frame ∈ p.frames →
        frame ∉ q.frames := fun _ _ hdisjoint hin => Set.disjoint_left.mp hdisjoint hin
    obtain ⟨rfl, rfl⟩ := split_unique happart (hsplit ▸ htaken.apart) (hsplit ▸ hsplit')
      (hframe ▸ hin) hpart
    rw [← hframe, TakenPart.pageOf_frameOf hpage] at hwhy
    rcases hwhy with hout | ⟨later, hlater, hmapped⟩
    · exact hout hpage
    · exact hafter later hlater hmapped
  · rwa [htaken.unmoved virt hvirt (by simpa using hcovered)] at hlookup

/-- A page that leads to a lost frame is one that the parts did not move. -/
theorem lookup_lost (htaken : PartsTaken root parts v w) (hsound : v.Sound)
    (hlost : frame ∈ lostFrames parts) {virt : VirtAddr} {flags : EntryFlags}
    (hlookup : w.lookup root virt.route = some (frameBase frame, flags)) :
    v.lookup root virt.route = some (frameBase frame, flags) := by
  have htop : v.layout.top ≤ 5 := by
    rcases v.layout.top_eq with htop | htop <;> omega
  by_cases haside : virt.IsAside v.layout.top
  · rwa [htaken.aside virt haside] at hlookup
  · simp only [Addr.IsAside, not_forall, not_not] at haside
    obtain ⟨page, hpage, hkey⟩ := haside
    have hagree := (Addr.agree_route_iff htop page virt).mpr hkey
    rw [← View.lookup_congr (htaken.layout ▸ hagree)] at hlookup
    rw [← View.lookup_congr hagree]
    exact htaken.lookup_lost_of_canonical hsound hlost hpage hlookup

theorem not_mem_tables (htaken : PartsTaken root parts v w) (htree : v.Tree root)
    (hframe : frame ∈ takenFrames parts) : frame ∉ w.tables root := by
  intro htable
  rcases htaken.fresh htable with hold | hnew
  · exact htree.taken frame hold (htaken.frames hframe)
  · exact hnew.2 hframe

theorem exists_page (htaken : PartsTaken root parts v w) (hframe : frame ∈ takenFrames parts)
    (hkept : frame ∉ lostFrames parts) :
    ∃ virt flags, w.lookup root (Addr.route virt) = some (frameBase frame, flags) := by
  obtain ⟨part, hmem, hin⟩ := hframe
  obtain ⟨before, after, rfl⟩ := List.append_of_mem hmem
  have hpage : part.pageOf frame ∈ part.pages := by
    by_contra hout
    exact hkept ⟨before, part, after, rfl, hin, .inl hout⟩
  have hafter : ∀ later ∈ after, part.pageOf frame ∉ later.pages := by
    intro later hlater hmapped
    exact hkept ⟨before, part, after, rfl, hin, .inr ⟨later, hlater, hmapped⟩⟩
  have hlt : part.pageOf frame < 2 ^ 52 := by
    have hcanonical := htaken.canonical part hmem hpage
    change _ < 2 ^ 35 ∨ _ ∧ _ < 2 ^ 52 at hcanonical
    omega
  have hvirt : Addr.page (⟨UInt64.ofNat (part.pageOf frame * 4096)⟩ : VirtAddr) =
      part.pageOf frame := page_frameBase hlt
  refine ⟨⟨UInt64.ofNat (part.pageOf frame * 4096)⟩, part.header.entryFlags, ?_⟩
  rw [htaken.moved before part after rfl _ (by rwa [hvirt]) (by rwa [hvirt]), hvirt,
    TakenPart.frameOf_pageOf hin]

end PartsTaken

namespace Machine

/-- A frame is a table of the space, or some page leads to it. -/
def References (m : Machine) (root frame : Nat) : Prop :=
  frame ∈ m.view.tables root ∨ ∃ virt flags, m.LeadsTo ⟨frameBase root⟩ virt frame flags

theorem leadsTo_iff {m : Machine} {root frame : Nat} {virt : VirtAddr} {flags : EntryFlags}
    (hsound : m.view.Sound) (htree : m.view.Tree root) :
    m.LeadsTo ⟨frameBase root⟩ virt frame flags ↔
      m.view.lookup root virt.route = some (frameBase frame, flags) := by
  constructor
  · intro hleads
    have hrun := hleads MapError
    rw [translate_run hsound htree virt] at hrun
    injection hrun with hresult
    obtain ⟨⟨phys, flags'⟩, hlookup, htarget⟩ := Option.map_eq_some_iff.mp hresult
    obtain ⟨hphys, rfl⟩ := Prod.mk.inj htarget
    have hword : phys.word = (frameBase frame).word := by
      simpa using congrArg Addr.word hphys
    obtain rfl : phys = frameBase frame := congrArg Addr.mk hword
    exact hlookup
  · intro hlookup ε
    rw [translate_run hsound htree virt, hlookup]
    rfl

/-- The frames that a load takes are tables of the space or led to by a page, but for those that it
loses.  A lost frame is no table, and the load has made no page lead to it. -/
theorem load_loses_frames {m : Machine} (hwell : m.WellFormed) {root : Nat}
    (htree : m.view.Tree root) (parse : Elf.Parser) (file : ByteArray) :
    ∃ parts m', Action.final (load parse ⟨frameBase root⟩ file m) = m' ∧
      ((∃ e, load parse ⟨frameBase root⟩ file m = .error (.error (.rejected e)) m ∧ parts = []) ∨
        PartsEnd root (Elf.parts parse file) m (load parse ⟨frameBase root⟩ file m) parts) ∧
      (∀ frame ∈ lostFrames parts,
        frame ∈ m.allocator.freeFrames ∧ frame ∉ m'.allocator.freeFrames ∧
          frame ∉ m'.view.tables root ∧
          ∀ virt flags, m'.LeadsTo ⟨frameBase root⟩ virt frame flags →
            m.LeadsTo ⟨frameBase root⟩ virt frame flags) ∧
      ∀ frame ∈ m.allocator.freeFrames, frame ∉ m'.allocator.freeFrames →
        frame ∉ lostFrames parts → m'.References root frame := by
  have hsound := hwell.sound
  obtain ⟨parts, hend, htaken⟩ := load_ends_taken hsound htree parse file
  have hsound' := htaken.confined.sound hsound
  refine ⟨parts, _, rfl, hend, ?_, ?_⟩
  · intro frame hlost
    have hin := lostFrames_subset parts hlost
    refine ⟨htaken.frames hin, fun hfree => (htaken.free hfree).2 hin,
      htaken.not_mem_tables htree hin, ?_⟩
    intro virt flags hleads
    rw [leadsTo_iff hsound' htaken.tree] at hleads
    exact (leadsTo_iff hsound htree).mpr (htaken.lookup_lost hsound hlost hleads)
  · intro frame hfree hgone hkept
    rcases htaken.spent hfree with (hleft | htable) | hin
    · exact absurd hleft hgone
    · exact .inl htable
    · obtain ⟨virt, flags, hlookup⟩ := htaken.exists_page hin hkept
      exact .inr ⟨virt, flags, (leadsTo_iff hsound' htaken.tree).mpr hlookup⟩

end Machine

/-- The load stops at the second page of the part, and the frame of that page is lost. -/
theorem load_loses_frames_partingPages :
    (tightMachine 0xff).WellFormed ∧ (tightMachine 0xff).view.Tree 1 ∧
      ∃ failure m' frame,
        Machine.load Elf.parse ⟨frameBase 1⟩ partingPages (tightMachine 0xff) = .error failure m' ∧
          frame ∈ (tightMachine 0xff).allocator.freeFrames ∧ frame ∉ m'.allocator.freeFrames ∧
          ¬m'.References 1 frame := by
  have hwell := wellFormed_tightMachine 0xff
  have htree := tree_tightMachine 0xff
  refine ⟨hwell, htree, ?_⟩
  obtain ⟨failure, f, k, m₁, hload, hk, hmapped⟩ := load_partingPages 0xff
  obtain ⟨parts, m', hfinal, hend, hlost, hkept⟩ :=
    Machine.load_loses_frames hwell htree Elf.parse partingPages
  rw [hload] at hfinal hend
  obtain rfl : m₁ = m' := hfinal
  have hfirst : f ∈ parting.frames f := by
    simp [ProgramHeader.frames, pageCount_parting]
  have htaken : f ∉ m₁.view.free := fun hin => (hmapped.grown.free hin).2 hfirst
  have hlast : ∃ last, last ∈ lostFrames parts := by
    rcases hend with ⟨e, hreject, _⟩ | hend
    · -- the image is not turned down, for a frame was taken
      obtain rfl : m₁ = tightMachine 0xff := (EStateM.Result.error.inj hreject).2
      exact absurd (hmapped.frames hfirst) htaken
    · cases hend with
      | noRun _ hheaders hnothing _ =>
          have hnil := eq_nil_of_parts_partingPages hheaders
          rw [List.map_eq_nil_iff] at hnil
          subst hnil
          have hspent := hnothing.spent (hmapped.frames hfirst)
          have htable := hmapped.not_mem_tables htree hfirst
          rw [takenFrames_nil, Set.union_empty] at hspent
          exact absurd hspent (not_or.mpr ⟨htaken, htable⟩)
      | torn _ _ htorn _ => exact ⟨_, mem_lostFrames_of_torn htorn⟩
  obtain ⟨frame, hframe⟩ := hlast
  obtain ⟨hfree, hgone, htable, hpages⟩ := hlost frame hframe
  refine ⟨failure, m₁, frame, hload, hfree, hgone, ?_⟩
  rintro (hin | ⟨virt, flags, hleads⟩)
  · exact htable hin
  · have hbefore := hpages virt flags hleads
    rw [Machine.leadsTo_iff hwell.sound htree, lookup_tightMachine] at hbefore
    cases hbefore

end BootMemory
