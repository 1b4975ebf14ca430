import BootMemory.Image.Parsing
import BootMemory.Proofs.Ownership
import BootMemory.Proofs.Placing

/-!
# What loading leaves in memory

Segments are placed one after the other.  A later segment takes other frames than an earlier one
and writes in none of its frames, but it moves the pages that both cover.  So a page shows the last
segment that covers it, and where segments with disjoint bytes meet inside a page, those of the
earlier one are lost.
-/

namespace BootMemory

open Elf (ProgramHeader)

/-- Parts were placed one after the other, each from the frame on that stands beside it. -/
structure Loaded (root : Nat) (file : ByteArray) (placed : List (ProgramHeader × Nat))
    (v w : View) : Prop where
  layout : w.layout = v.layout
  free : w.free ⊆ v.free
  tables : w.tables root ⊆ v.tables root ∪ v.free
  tree : w.Tree root
  frames : ∀ part ∈ placed, part.1.frames part.2 ⊆ v.free
  bytes : ∀ part ∈ placed, ∀ a, a / 4096 ∈ part.1.frames part.2 →
    w.byte a = part.1.imageByte file (part.1.virtualAddress / 4096 * 4096 + (a - part.2 * 4096))
  kept : ∀ a, a / 4096 ∉ v.free → a / 4096 ∉ v.tables root → w.byte a = v.byte a
  moved : ∀ before h f after, placed = before ++ (h, f) :: after → ∀ virt : VirtAddr,
    virt.page ∈ h.pages → (∀ later ∈ after, virt.page ∉ later.1.pages) →
      w.lookup root virt.route =
        some (frameBase (f + (virt.page - h.virtualAddress / 4096)), h.entryFlags)
  unmoved : ∀ virt : VirtAddr, virt.page ∈ canonicalPages →
    (∀ part ∈ placed, virt.page ∉ part.1.pages) → w.lookup root virt.route = v.lookup root virt.route

namespace Loaded

variable {root f : Nat} {file : ByteArray} {h : ProgramHeader}
  {placed : List (ProgramHeader × Nat)} {u v w : View}

theorem nil (htree : v.Tree root) : Loaded root file [] v v where
  layout := rfl
  free := subset_rfl
  tables := Set.subset_union_left
  tree := htree
  frames := fun _ hpart => nomatch hpart
  bytes := fun _ hpart => nomatch hpart
  kept := fun _ _ _ => rfl
  moved := by
    intro before h f after hsplit
    exact absurd hsplit.symm (List.append_ne_nil_of_right_ne_nil before (List.cons_ne_nil _ _))
  unmoved := fun _ _ _ => rfl

theorem confined (hloaded : Loaded root file placed v w) : View.Confined root v w :=
  ⟨hloaded.layout, hloaded.free, hloaded.tables, hloaded.kept, hloaded.tree⟩

/-- Later parts leave the frames of a part alone, and move its pages only where they cover them. -/
theorem cons (htree : u.Tree root) (hcanonical : h.pages ⊆ canonicalPages)
    (hplaced : Placed root file h f u v) (hrest : Loaded root file placed v w) :
    Loaded root file ((h, f) :: placed) u w := by
  have hconfined := hplaced.confined.trans hrest.confined
  constructor
  · exact hconfined.layout
  · exact hconfined.free
  · exact hconfined.fresh
  · exact hconfined.tree
  · intro part hpart
    rcases List.mem_cons.mp hpart with rfl | hin
    · exact hplaced.frames
    · exact (hrest.frames part hin).trans hplaced.confined.free
  · intro part hpart a ha
    -- the frames of this part are neither free nor tables when the rest is placed
    rcases List.mem_cons.mp hpart with rfl | hin
    · rw [hrest.kept a (fun hin => (hplaced.free hin).2 ha)]
      · exact hplaced.bytes a ha
      · intro hin
        rcases hplaced.tables hin with hold | hnew
        · exact htree.taken _ hold (hplaced.frames ha)
        · exact hnew.2 ha
    · exact hrest.bytes part hin a ha
  · exact hconfined.kept
  · intro before h' f' after hsplit virt hvirt hlater
    cases before with
    | nil =>
        obtain ⟨hhead, rfl⟩ := List.cons.inj hsplit
        obtain ⟨rfl, rfl⟩ := Prod.mk.inj hhead
        rw [hrest.unmoved virt (hcanonical hvirt) hlater]
        exact hplaced.moved virt hvirt
    | cons first before =>
        obtain ⟨_, hsplit⟩ := List.cons.inj hsplit
        exact hrest.moved before h' f' after hsplit virt hvirt hlater
  · intro virt hvirt hnone
    rw [hrest.unmoved virt hvirt fun part hpart => hnone part (List.mem_cons_of_mem _ hpart)]
    exact hplaced.unmoved virt hvirt (hnone (h, f) List.mem_cons_self)

end Loaded

namespace Machine

variable {m m' : Machine} {root : Nat} {file : ByteArray}

theorem placeSegments_eq_ok {headers : List ProgramHeader} {segments : List Segment}
    (hall : List.Forall₂ (fun h s => h.Describes file s) headers segments)
    (hsound : m.view.Sound) (htree : m.view.Tree root)
    (hrun : (segments.forM fun s =>
      Action.mapError LoadError.unmappable (placeSegment ⟨frameBase root⟩ s)) m = .ok ⟨⟩ m') :
    ∃ placed, placed.map Prod.fst = headers ∧ Loaded root file placed m.view m'.view := by
  induction hall generalizing m with
  | nil =>
      cases hrun
      exact ⟨[], rfl, .nil htree⟩
  | cons hdescribes _ ih =>
      obtain ⟨_, m₁, hfirst, hrest⟩ := Action.bind_eq_ok.mp hrun
      obtain ⟨f, hplaced⟩ :=
        placeSegment_eq_ok hsound htree hdescribes (Action.mapError_eq_ok hfirst)
      obtain ⟨placed, rfl, hloaded⟩ := ih (hplaced.confined.sound hsound) hplaced.tree hrest
      exact ⟨(_, f) :: placed, rfl,
        .cons htree (fun p hp => hdescribes.canonical hp) hplaced hloaded⟩

theorem load_eq_ok {parse : Elf.Parser} {entry : VirtAddr} (hsound : m.view.Sound)
    (htree : m.view.Tree root) (hload : load parse ⟨frameBase root⟩ file m = .ok entry m') :
    ∃ parsed placed, parse file = .ok parsed ∧ placed.map Prod.fst = parsed.loadable ∧
      (∀ h ∈ parsed.loadable, ∃ s, h.Describes file s) ∧
      Loaded root file placed m.view m'.view := by
  cases himage : Executable.ofImage parse file with
  | error e =>
      rw [load, loadBy_of_ofImage_error _ himage] at hload
      cases hload
  | ok image =>
      obtain ⟨parsed, segments, hparse, hall, hplaces⟩ := loadBy_of_ofImage_ok himage
      rw [load, hplaces] at hload
      obtain ⟨_, m₁, hplace, hentry⟩ := Action.bind_eq_ok.mp hload
      cases hentry
      obtain ⟨placed, hplaced, hloaded⟩ := placeSegments_eq_ok hall hsound htree hplace
      refine ⟨parsed, placed, hparse, hplaced, ?_, hloaded⟩
      intro h hh
      obtain ⟨i, hi, rfl⟩ := List.mem_iff_getElem.mp hh
      exact ⟨_, hall.get hi (hall.length_eq ▸ hi)⟩

/-- The tables of the space are frames of memory that are not free, and they form a tree. -/
def HasSpace (m : Machine) (space : AddressSpace) : Prop :=
  ∃ root, space = ⟨frameBase root⟩ ∧ m.view.Tree root

end Machine

/-! ## Images that are loaded -/

namespace Machine

variable {m : Machine} {root : Nat} {file : ByteArray}

theorem placeSegments_supplied {headers : List ProgramHeader} {segments : List Segment}
    (hall : List.Forall₂ (fun h s => h.Describes file s) headers segments)
    (hone : ∀ h ∈ headers, h.pageCount = 1) (hsound : m.view.Sound) (htree : m.view.Tree root)
    (hsmall : m.view.AllSmall root) (hsupplied : m.view.Supplied (headers.length * m.layout.top)) :
    ∃ m', (segments.forM fun s =>
      Action.mapError LoadError.unmappable (placeSegment ⟨frameBase root⟩ s)) m = .ok ⟨⟩ m' := by
  induction hall generalizing m with
  | nil => exact ⟨m, rfl⟩
  | @cons h s headers segments hdescribes _ ih =>
      have hpage : h.pageCount = 1 := hone h List.mem_cons_self
      rw [List.length_cons, Nat.succ_mul, Nat.add_comm] at hsupplied
      have hroom : ∃ f, h.frames f ⊆ m.view.free := by
        have hpos := m.levels_pos
        have hsome : m.view.Supplied (0 + 1) := hsupplied.mono (by omega)
        obtain ⟨f, hf⟩ := Set.nonempty_iff_ne_empty.mpr hsome.free_ne_empty
        refine ⟨f, ?_⟩
        intro g hg
        have hhigh : g < f + h.pageCount := hg.2
        have hlow : f ≤ g := hg.1
        rwa [show g = f by omega]
      obtain ⟨f, m₁, hrun, hplaced, hleft⟩ :=
        placeSegment_supplied hsound htree hsmall hdescribes hroom (by rwa [hpage, Nat.one_mul])
      have hlayout : m₁.layout = m.layout := hplaced.layout
      obtain ⟨m', hrest⟩ := ih (fun h hh => hone h (List.mem_cons_of_mem _ hh))
        (hplaced.confined.sound hsound) hplaced.tree (hplaced.small hsmall) (by rwa [hlayout])
      exact ⟨m', (Action.bind_ok (Action.mapError_ok hrun)).trans hrest⟩

/-- An image whose parts have one page each is loaded if there is a frame for each part and for
each table on the way to it. -/
theorem load_supplied {parse : Elf.Parser} {parsed : Elf.File} {image : Executable}
    (hparse : parse file = .ok parsed) (himage : Executable.ofImage parse file = .ok image)
    (hone : ∀ h ∈ parsed.loadable, h.pageCount = 1) (hsound : m.view.Sound)
    (htree : m.view.Tree root) (hsmall : m.view.AllSmall root)
    (hsupplied : m.view.Supplied (parsed.loadable.length * m.layout.top)) :
    ∃ m', load parse ⟨frameBase root⟩ file m = .ok image.entry m' := by
  obtain ⟨parsed', segments, hparse', hall, hplaces⟩ := loadBy_of_ofImage_ok himage
  obtain rfl : parsed = parsed' := Except.ok.inj (hparse.symm.trans hparse')
  obtain ⟨m', hplace⟩ := placeSegments_supplied hall hone hsound htree hsmall hsupplied
  refine ⟨m', ?_⟩
  rw [load, hplaces]
  exact Action.bind_ok hplace

/-- Where the segment of the first part of an image is not placed, the load stops there. -/
theorem load_stops {m' : Machine} {parse : Elf.Parser} {space : AddressSpace} {entry : VirtAddr}
    {part : ProgramHeader × Nat} {rest : List (ProgramHeader × Nat)} {s : Segment}
    {failure : Failure MapError} (himage : Executable.ofImage parse file = .ok ⟨entry, part :: rest⟩)
    (hsegment : part.1.segment file part.2 = .ok s)
    (hstop : placeSegment space s m = .error failure m') :
    load parse space file m = .error (failure.mapError .unmappable) m' := by
  have hfirst : loadPart (placeSegment space) file part m =
      .error (failure.mapError .unmappable) m' := by
    rw [loadPart, hsegment]
    exact Action.mapError_error hstop
  rw [load, loadBy, himage]
  exact Action.bind_error (Action.bind_error hfirst)

end Machine

def firstPart : ProgramHeader := ⟨1, 4, 0xe8, 0x400000, 4, 4⟩

def secondPart : ProgramHeader := ⟨1, 6, 0xec, 0x400010, 4, 4⟩

def codePart : ProgramHeader := ⟨1, 5, 0xf0, 0x401000, 4, 4⟩

/-- An executable with three parts of four bytes each.  The first one, which is only read, and the
second one, which can be written, lie in one page; the third one is code and lies in the next. -/
def meetingParts : ByteArray :=
  ⟨#[0x7f, 0x45, 0x4c, 0x46, 2, 1, 1, 0, 0, 0, 0, 0, 0, 0, 0, 0,
    2, 0, 0x3e, 0, 1, 0, 0, 0, 0, 0x10, 0x40, 0, 0, 0, 0, 0,
    64, 0, 0, 0, 0, 0, 0, 0, 0, 0, 0, 0, 0, 0, 0, 0,
    0, 0, 0, 0, 64, 0, 56, 0, 3, 0, 0, 0, 0, 0, 0, 0,
    1, 0, 0, 0, 4, 0, 0, 0, 0xe8, 0, 0, 0, 0, 0, 0, 0,
    0, 0, 0x40, 0, 0, 0, 0, 0, 0, 0, 0x40, 0, 0, 0, 0, 0,
    4, 0, 0, 0, 0, 0, 0, 0, 4, 0, 0, 0, 0, 0, 0, 0,
    0, 0x10, 0, 0, 0, 0, 0, 0,
    1, 0, 0, 0, 6, 0, 0, 0, 0xec, 0, 0, 0, 0, 0, 0, 0,
    0x10, 0, 0x40, 0, 0, 0, 0, 0, 0x10, 0, 0x40, 0, 0, 0, 0, 0,
    4, 0, 0, 0, 0, 0, 0, 0, 4, 0, 0, 0, 0, 0, 0, 0,
    0, 0x10, 0, 0, 0, 0, 0, 0,
    1, 0, 0, 0, 5, 0, 0, 0, 0xf0, 0, 0, 0, 0, 0, 0, 0,
    0, 0x10, 0x40, 0, 0, 0, 0, 0, 0, 0x10, 0x40, 0, 0, 0, 0, 0,
    4, 0, 0, 0, 0, 0, 0, 0, 4, 0, 0, 0, 0, 0, 0, 0,
    0, 0x10, 0, 0, 0, 0, 0, 0,
    0xaa, 0xbb, 0xcc, 0xdd, 0x11, 0x22, 0x33, 0x44, 0x90, 0x90, 0xeb, 0xfe]⟩

theorem parse_meetingParts :
    Elf.parse meetingParts = .ok ⟨2, 1, 0x401000, [firstPart, secondPart, codePart]⟩ := by
  decide +kernel

theorem ofImage_meetingParts :
    Executable.ofImage Elf.parse meetingParts =
      .ok ⟨⟨0x401000⟩, [(firstPart, 0), (secondPart, 1), (codePart, 2)]⟩ := by
  decide +kernel

theorem exists_load_meetingParts :
    ∃ m space m', m.WellFormed ∧ m.HasSpace space ∧
      Machine.load Elf.parse space meetingParts m = .ok ⟨0x401000⟩ m' := by
  have hsize : (⟨⟨0⟩, ⟨Array.replicate 0x10000 0xFF⟩⟩ : Memory).size = 0x10000 :=
    Array.size_replicate
  have hbase : (⟨⟨0⟩, ⟨Array.replicate 0x10000 0xFF⟩⟩ : Memory).base = ⟨0⟩ := rfl
  obtain ⟨log, root, m, hwell, _, hnew, htree, hsmall, hsupplied⟩ :=
    exists_newRoot_sixteenFrameMachine hbase hsize
  have htop : m.layout.top = 4 := congrArg (fun v : View => v.layout.top) hnew
  obtain ⟨m', hload⟩ := Machine.load_supplied parse_meetingParts ofImage_meetingParts
    (by decide) hwell.sound htree hsmall (by
      rw [htop]
      exact hsupplied.mono (show 3 * 4 ≤ 14 by decide))
  exact ⟨m, ⟨frameBase root⟩, m', hwell, ⟨root, rfl, htree⟩, hload⟩

section Pages

variable {root f : Nat} {file : ByteArray} {h : ProgramHeader}
  {placed before after : List (ProgramHeader × Nat)} {m m' : Machine} {virt : VirtAddr}

theorem Loaded.memory_byteAt (hloaded : Loaded root file placed m.view m'.view)
    (hsound : m.view.Sound) (hpart : (h, f) ∈ placed) {a : Nat} (ha : a / 4096 ∈ h.frames f) :
    m'.memory.byteAt a =
      h.imageByte file (h.virtualAddress / 4096 * 4096 + (a - f * 4096)) := by
  have hlayout : m'.layout = m.layout := hloaded.layout
  have hplain := hsound.plain _ (hloaded.frames _ hpart ha)
  have hbits : m'.layout.holdsBits a = false := by
    rw [hlayout]
    exact hplain.noBits a rfl
  rw [← Machine.byte_view_of_noBits hbits]
  exact hloaded.bytes _ hpart a ha

theorem Loaded.shows {ε : Type} (hloaded : Loaded root file placed m.view m'.view)
    (hsound : m.view.Sound) (hsplit : placed = before ++ (h, f) :: after)
    (hvirt : virt.page ∈ h.pages) (hlater : ∀ later ∈ after, virt.page ∉ later.1.pages) :
    ∃ frame, frame = f + (virt.page - h.virtualAddress / 4096) ∧
      frame ∈ m.allocator.freeFrames ∧
      Machine.translate ⟨frameBase root⟩ virt m' =
        (.ok (some (⟨(frameBase frame).word + virt.pageOffset⟩, h.entryFlags)) m' :
          EStateM.Result (Failure ε) _ _) ∧
      ∀ k < 4096, m'.memory.byteAt (frame * 4096 + k) =
        h.imageByte file (virt.page * 4096 + k) := by
  have hpart : (h, f) ∈ placed := by
    rw [hsplit]
    exact List.mem_append_right before List.mem_cons_self
  obtain ⟨hlow, hhigh⟩ := (h.mem_pages_iff virt.page).mp hvirt
  refine ⟨_, rfl, ?_⟩
  generalize hframe : f + (virt.page - h.virtualAddress / 4096) = frame
  have hin : frame ∈ h.frames f := Set.mem_Ico.mpr ⟨by omega, by omega⟩
  refine ⟨hloaded.frames _ hpart hin, ?_, ?_⟩
  · rw [Machine.translate_run (hloaded.confined.sound hsound) hloaded.tree virt,
      hloaded.moved before h f after hsplit virt hvirt hlater, hframe]
    rfl
  · intro k hk
    have hbyte : (frame * 4096 + k) / 4096 ∈ h.frames f := by
      rwa [show (frame * 4096 + k) / 4096 = frame by omega]
    have hoffset : h.virtualAddress / 4096 * 4096 + (frame * 4096 + k - f * 4096) =
        virt.page * 4096 + k := by
      omega
    rw [hloaded.memory_byteAt hsound hpart hbyte, hoffset]

theorem Loaded.shows_byte {ε : Type} (hloaded : Loaded root file placed m.view m'.view)
    (hsound : m.view.Sound) (hsplit : placed = before ++ (h, f) :: after)
    (hvirt : virt.page ∈ h.pages) (hlater : ∀ later ∈ after, virt.page ∉ later.1.pages) :
    ∃ phys, Machine.translate ⟨frameBase root⟩ virt m' =
        (.ok (some (phys, h.entryFlags)) m' : EStateM.Result (Failure ε) _ _) ∧
      m'.memory.byteAt phys.word.toNat = h.imageByte file virt.word.toNat := by
  obtain ⟨frame, _, hfree, hrun, hbytes⟩ := hloaded.shows hsound hsplit hvirt hlater
  have hlt : frame < 2 ^ 40 := (hsound.plain frame hfree).lt hsound.memory
  have hbase : (frameBase frame).word.toNat = frame * 4096 :=
    toNat_frameBase (lt_trans hlt (by decide))
  have hoffset := virt.toNat_pageOffset
  have hphys : ((frameBase frame).word + virt.pageOffset).toNat =
      frame * 4096 + virt.word.toNat % 4096 := by
    rw [Word.toNat_add (by omega), hbase, hoffset]
  refine ⟨_, hrun, ?_⟩
  rw [hphys, hbytes _ (Nat.mod_lt _ (by decide)), Addr.page, Nat.div_add_mod']

end Pages

/-- After a load, a page leads to a frame of the last part that covers it.  The frame was free
before, its flags are those of the part, and its bytes are those of the part in the file and zero
beside them.  The pages of a part lead to frames in a row.  Canonical pages that no part covers lead
to where they led before. -/
theorem load_materializes {ε : Type} {m m' : Machine} (hwell : m.WellFormed)
    {parse : Elf.Parser} {space : AddressSpace} (hspace : m.HasSpace space) {file : ByteArray}
    {entry : VirtAddr}
    (hload : Machine.load parse space file m = .ok entry m') :
    ∃ parsed placed, parse file = .ok parsed ∧ placed.map Prod.fst = parsed.loadable ∧
      (∀ before h f after, placed = before ++ (h, f) :: after →
        ∀ virt : VirtAddr, virt.page ∈ h.pages → (∀ later ∈ after, virt.page ∉ later.1.pages) →
          ∃ frame, frame = f + (virt.page - h.virtualAddress / 4096) ∧
            frame ∈ m.allocator.freeFrames ∧
            Machine.translate space virt m' =
              (.ok (some (⟨(frameBase frame).word + virt.pageOffset⟩, h.entryFlags)) m' :
                EStateM.Result (Failure ε) _ _) ∧
            ∀ k < 4096, m'.memory.byteAt (frame * 4096 + k) =
              h.imageByte file (virt.page * 4096 + k)) ∧
      ∀ virt : VirtAddr, virt.isCanonical = true → (∀ h ∈ parsed.loadable, virt.page ∉ h.pages) →
        ∃ result,
          Machine.translate space virt m = (.ok result m : EStateM.Result (Failure ε) _ _) ∧
            Machine.translate space virt m' = (.ok result m' : EStateM.Result (Failure ε) _ _) := by
  obtain ⟨root, rfl, htree⟩ := hspace
  have hsound := hwell.sound
  obtain ⟨parsed, placed, hparse, hheaders, _, hloaded⟩ := Machine.load_eq_ok hsound htree hload
  refine ⟨parsed, placed, hparse, hheaders, ?_, ?_⟩
  · intro before h f after hsplit virt hvirt hlater
    exact hloaded.shows hsound hsplit hvirt hlater
  · intro virt hvirt hnone
    have hkept := hloaded.unmoved virt (virt.isCanonical_iff.mp hvirt) fun part hpart =>
      hnone part.1 (hheaders ▸ List.mem_map_of_mem hpart)
    refine ⟨_, Machine.translate_run hsound htree virt, ?_⟩
    rw [Machine.translate_run (hloaded.confined.sound hsound) hloaded.tree virt, hkept]

/-- The first page of the executable shows its second part and can be written.  The second page
shows the code and can be run. -/
theorem load_materializes_meetingParts :
    ∃ m space m' data code, Machine.load Elf.parse space meetingParts m = .ok ⟨0x401000⟩ m' ∧
      data ∈ m.allocator.freeFrames ∧ code ∈ m.allocator.freeFrames ∧
      Machine.translate space ⟨0x400000⟩ m' =
        (.ok (some (⟨(frameBase data).word⟩, ⟨0x8000000000000007⟩)) m' :
          EStateM.Result (Failure MapError) _ _) ∧
      Machine.translate space ⟨0x401000⟩ m' =
        (.ok (some (⟨(frameBase code).word⟩, ⟨5⟩)) m' :
          EStateM.Result (Failure MapError) _ _) ∧
      m'.memory.byteAt (data * 4096) = 0 ∧ m'.memory.byteAt (data * 4096 + 0x10) = 0x11 ∧
      m'.memory.byteAt (code * 4096) = 0x90 := by
  obtain ⟨m, space, m', hwell, hspace, hload⟩ := exists_load_meetingParts
  obtain ⟨parsed, placed, hparse, hplaced, hpages, _⟩ :=
    load_materializes (ε := MapError) hwell hspace hload
  obtain rfl := Except.ok.inj (hparse.symm.trans parse_meetingParts)
  have hloadable : Elf.File.loadable ⟨2, 1, 0x401000, [firstPart, secondPart, codePart]⟩ =
      [firstPart, secondPart, codePart] := rfl
  rw [hloadable] at hplaced
  obtain ⟨⟨_, _⟩, _, rfl, _, hsecond⟩ := List.map_eq_cons_iff.mp hplaced
  obtain ⟨⟨_, g⟩, _, rfl, rfl, hthird⟩ := List.map_eq_cons_iff.mp hsecond
  obtain ⟨⟨_, last⟩, _, rfl, rfl, hnone⟩ := List.map_eq_cons_iff.mp hthird
  obtain rfl := List.map_eq_nil_iff.mp hnone
  have hstart : ∀ page : VirtAddr, page.pageOffset = 0 → ∀ frame,
      (frameBase frame).word + page.pageOffset = (frameBase frame).word := by
    intro page hoffset frame
    rw [hoffset, UInt64.add_zero]
  have hbeyond : (⟨0x400000⟩ : VirtAddr).page ∉ codePart.pages := by
    rw [ProgramHeader.mem_pages_iff]
    decide +kernel
  obtain ⟨data, _, hdata, hwritable, hbytes⟩ := hpages [_] secondPart g [(codePart, last)] rfl
    ⟨0x400000⟩ ((secondPart.mem_pages_iff _).mpr (by decide +kernel)) (by simpa using hbeyond)
  obtain ⟨code, _, hcode, hrunnable, hcodeBytes⟩ := hpages [_, _] codePart last [] rfl
    ⟨0x401000⟩ ((codePart.mem_pages_iff _).mpr (by decide +kernel)) fun _ hlater => nomatch hlater
  have hdataFlags : secondPart.entryFlags = ⟨0x8000000000000007⟩ := by
    decide +kernel
  have hcodeFlags : codePart.entryFlags = ⟨5⟩ := by
    decide +kernel
  rw [hstart _ (by decide +kernel), hdataFlags] at hwritable
  rw [hstart _ (by decide +kernel), hcodeFlags] at hrunnable
  have hzero := hbytes 0 (by decide)
  have hshown := hbytes 0x10 (by decide)
  have hrun := hcodeBytes 0 (by decide)
  rw [show secondPart.imageByte meetingParts _ = 0 by decide +kernel, Nat.add_zero] at hzero
  rw [show secondPart.imageByte meetingParts _ = 0x11 by decide +kernel] at hshown
  rw [show codePart.imageByte meetingParts _ = 0x90 by decide +kernel, Nat.add_zero] at hrun
  exact ⟨m, space, m', data, code, hload, hdata, hcode, hwritable, hrunnable, hzero, hshown, hrun⟩

/-! ## Parts that meet inside a page -/

def Elf.ProgramHeader.bytes (h : ProgramHeader) : Set Nat :=
  Set.Ico h.virtualAddress (h.virtualAddress + h.memorySize)

theorem Elf.ProgramHeader.imageByte_of_not_mem {h : ProgramHeader} {a : Nat} (ha : a ∉ h.bytes)
    (file : ByteArray) : h.imageByte file a = 0 := by
  apply if_neg
  rintro ⟨hlow, hhigh⟩
  exact ha ⟨hlow, by omega⟩

theorem exists_last {α : Type} {p : α → Prop} {l : List α} (hsome : ∃ x ∈ l, p x) :
    ∃ before x after, l = before ++ x :: after ∧ p x ∧ ∀ y ∈ after, ¬p y := by
  induction l with
  | nil => exact absurd hsome (by simp)
  | cons head rest ih =>
      by_cases hrest : ∃ x ∈ rest, p x
      · obtain ⟨before, x, after, rfl, hx, hafter⟩ := ih hrest
        exact ⟨head :: before, x, after, rfl, hx, hafter⟩
      · obtain ⟨x, hmem, hx⟩ := hsome
        have hnone : ∀ y ∈ rest, ¬p y := fun y hy hp => hrest ⟨y, hy, hp⟩
        rcases List.mem_cons.mp hmem with rfl | hin
        · exact ⟨[], x, rest, rfl, hx, hnone⟩
        · exact absurd hx (hnone x hin)

section Bytes

variable {ε : Type} {root f : Nat} {file : ByteArray} {h : ProgramHeader}
  {placed before after : List (ProgramHeader × Nat)} {m m' : Machine} {virt : VirtAddr}

/-- Where a later part covers the page of a byte but not the byte, the byte is lost. -/
theorem Loaded.loses_byte (hloaded : Loaded root file placed m.view m'.view)
    (hsound : m.view.Sound) (hsplit : placed = before ++ (h, f) :: after)
    (hbyte : virt.word.toNat ∈ h.bytes) (hapart : ∀ later ∈ after, Disjoint h.bytes later.1.bytes)
    (hcovered : ∃ later ∈ after, virt.page ∈ later.1.pages) :
    ∃ phys flags, Machine.translate ⟨frameBase root⟩ virt m' =
        (.ok (some (phys, flags)) m' : EStateM.Result (Failure ε) _ _) ∧
      m'.memory.byteAt phys.word.toNat = 0 := by
  obtain ⟨between, ⟨last, g⟩, beyond, rfl, hlast, hbeyond⟩ := exists_last hcovered
  have hin : (last, g) ∈ between ++ (last, g) :: beyond :=
    List.mem_append_right between List.mem_cons_self
  have hlastSplit : placed = (before ++ (h, f) :: between) ++ (last, g) :: beyond := by
    rw [hsplit, List.append_assoc, List.cons_append]
  obtain ⟨phys, hrun, hshown⟩ := hloaded.shows_byte hsound hlastSplit hlast hbeyond
  have hbeside : virt.word.toNat ∉ last.bytes :=
    Set.disjoint_left.mp (hapart _ hin) hbyte
  rw [ProgramHeader.imageByte_of_not_mem hbeside] at hshown
  exact ⟨phys, _, hrun, hshown⟩

theorem Elf.ProgramHeader.page_mem_pages (hbyte : virt.word.toNat ∈ h.bytes) :
    virt.page ∈ h.pages := by
  obtain ⟨hlow, hhigh⟩ := hbyte
  unfold Addr.page
  exact Set.mem_Ico.mpr ⟨by omega, by omega⟩

theorem Loaded.shows_byte_iff (hloaded : Loaded root file placed m.view m'.view)
    (hsound : m.view.Sound) (hsplit : placed = before ++ (h, f) :: after)
    (hbyte : virt.word.toNat ∈ h.bytes)
    (hapart : ∀ later ∈ after, Disjoint h.bytes later.1.bytes) :
    ∃ phys flags, Machine.translate ⟨frameBase root⟩ virt m' =
        (.ok (some (phys, flags)) m' : EStateM.Result (Failure ε) _ _) ∧
      (m'.memory.byteAt phys.word.toNat = h.imageByte file virt.word.toNat ↔
        (∀ later ∈ after, virt.page ∉ later.1.pages) ∨ h.imageByte file virt.word.toNat = 0) ∧
      ((∃ later ∈ after, virt.page ∈ later.1.pages) → m'.memory.byteAt phys.word.toNat = 0) := by
  by_cases hlater : ∃ later ∈ after, virt.page ∈ later.1.pages
  · obtain ⟨phys, flags, hrun, hzero⟩ := hloaded.loses_byte hsound hsplit hbyte hapart hlater
    refine ⟨phys, flags, hrun, ?_, fun _ => hzero⟩
    rw [hzero]
    constructor
    · exact fun heq => .inr heq.symm
    · rintro (hnone | heq)
      · obtain ⟨later, hin, hcovers⟩ := hlater
        exact absurd hcovers (hnone later hin)
      · exact heq.symm
  · have hnone : ∀ later ∈ after, virt.page ∉ later.1.pages :=
      fun later hin hcovers => hlater ⟨later, hin, hcovers⟩
    obtain ⟨phys, hrun, hshown⟩ :=
      hloaded.shows_byte hsound hsplit (ProgramHeader.page_mem_pages hbyte) hnone
    exact ⟨phys, _, hrun, ⟨fun _ => .inl hnone, fun _ => hshown⟩,
      fun hcovers => absurd hcovers hlater⟩

end Bytes

/-- Where the bytes of the parts are disjoint, every address of a part leads somewhere after a load.
It shows the byte of the part exactly if no later part covers its page or the byte is zero anyway:
a later part that meets the page leaves zero in the place of the byte. -/
theorem load_shows_byte_iff {ε : Type} {m m' : Machine} (hwell : m.WellFormed)
    {parse : Elf.Parser} {space : AddressSpace} (hspace : m.HasSpace space) {file : ByteArray}
    {entry : VirtAddr}
    (hload : Machine.load parse space file m = .ok entry m') :
    ∃ parsed, parse file = .ok parsed ∧
      (parsed.loadable.Pairwise (fun h later => Disjoint h.bytes later.bytes) →
        ∀ before h after, parsed.loadable = before ++ h :: after → ∀ i < h.memorySize,
          ∃ phys flags,
            Machine.translate space ⟨UInt64.ofNat (h.virtualAddress + i)⟩ m' =
              (.ok (some (phys, flags)) m' : EStateM.Result (Failure ε) _ _) ∧
            (m'.memory.byteAt phys.word.toNat = h.imageByte file (h.virtualAddress + i) ↔
              (∀ later ∈ after, (h.virtualAddress + i) / 4096 ∉ later.pages) ∨
                h.imageByte file (h.virtualAddress + i) = 0) ∧
            ((∃ later ∈ after, (h.virtualAddress + i) / 4096 ∈ later.pages) →
              m'.memory.byteAt phys.word.toNat = 0)) := by
  obtain ⟨root, rfl, htree⟩ := hspace
  have hsound := hwell.sound
  obtain ⟨parsed, placed, hparse, hheaders, hdescribes, hloaded⟩ :=
    Machine.load_eq_ok hsound htree hload
  refine ⟨parsed, hparse, ?_⟩
  intro hdisjoint before h after hsplit i hi
  rw [hsplit] at hheaders hdisjoint hdescribes
  obtain ⟨_, hheader⟩ := hdescribes h (List.mem_append_right before List.mem_cons_self)
  have hhalf := hheader.half
  have hapart := (List.pairwise_cons.mp (List.pairwise_append.mp hdisjoint).2.1).1
  obtain ⟨placedBefore, rest, rfl, _, hrest⟩ := List.map_eq_append_iff.mp hheaders
  obtain ⟨⟨header, f⟩, placedAfter, rfl, hsame, rfl⟩ := List.map_eq_cons_iff.mp hrest
  obtain rfl : header = h := hsame
  generalize hvirt : (⟨UInt64.ofNat (header.virtualAddress + i)⟩ : VirtAddr) = virt
  have hword : virt.word.toNat = header.virtualAddress + i := by
    rw [← hvirt]
    apply UInt64.toNat_ofNat_of_lt'
    simp only [UInt64.size]
    omega
  have hbyte : virt.word.toNat ∈ header.bytes := Set.mem_Ico.mpr ⟨by omega, by omega⟩
  have hshown := hloaded.shows_byte_iff (ε := ε) hsound rfl hbyte
    fun later hin => hapart later.1 (List.mem_map_of_mem hin)
  rw [Addr.page, hword] at hshown
  simpa using hshown

/-- The first byte of the executable is lost: its page is moved to the frame of the second part. -/
theorem load_shows_byte_iff_meetingParts :
    ∃ m space m' phys flags, Machine.load Elf.parse space meetingParts m = .ok ⟨0x401000⟩ m' ∧
      Machine.translate space ⟨0x400000⟩ m' =
        (.ok (some (phys, flags)) m' : EStateM.Result (Failure MapError) _ _) ∧
      firstPart.imageByte meetingParts 0x400000 = 0xaa ∧
      m'.memory.byteAt phys.word.toNat = 0 := by
  obtain ⟨m, space, m', hwell, hspace, hload⟩ := exists_load_meetingParts
  obtain ⟨parsed, hparse, hbytes⟩ := load_shows_byte_iff (ε := MapError) hwell hspace hload
  obtain rfl := Except.ok.inj (hparse.symm.trans parse_meetingParts)
  have hloadable : Elf.File.loadable ⟨2, 1, 0x401000, [firstPart, secondPart, codePart]⟩ =
      [firstPart, secondPart, codePart] := rfl
  rw [hloadable] at hbytes
  have hdisjoint : [firstPart, secondPart, codePart].Pairwise
      (fun h later => Disjoint h.bytes later.bytes) := by
    have happart : [firstPart, secondPart, codePart].Pairwise
        (fun h later => h.virtualAddress + h.memorySize ≤ later.virtualAddress) := by
      decide
    exact happart.imp fun hle => Set.Ico_disjoint_Ico.mpr (by omega)
  have hmeets : ∃ later ∈ [secondPart, codePart], (0x400000 + 0) / 4096 ∈ later.pages :=
    ⟨secondPart, List.mem_cons_self, Set.mem_Ico.mpr (by decide +kernel)⟩
  obtain ⟨phys, flags, hrun, _, hlost⟩ := hbytes hdisjoint [] firstPart [secondPart, codePart] rfl
    0 (by decide)
  exact ⟨m, space, m', phys, flags, hload, hrun, by decide +kernel, hlost hmeets⟩

end BootMemory
