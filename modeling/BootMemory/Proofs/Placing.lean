import BootMemory.Proofs.Images
import BootMemory.Proofs.Supply

/-!
# Placing a segment

A segment gets free frames in a row, which are mapped, cleared and filled.  So each of its pages
leads to a frame that holds what the image says, whatever was in it before.  The frames are no
tables of the space, and tables that are added on the way are other frames still.
-/

namespace BootMemory

open Elf (ProgramHeader)

namespace View

section PageMap

variable {v : View} {root : Nat}

/-- The map of a space, read off its lookups. -/
def pageMap (v : View) (root : Nat) : PageMap := fun key =>
  v.lookup root (Addr.route ⟨UInt64.ofNat (key * 4096)⟩)

theorem maps_pageMap (v : View) (root : Nat) : v.Maps root (v.pageMap root) := by
  have htop : v.layout.top ≤ 5 := by
    rcases v.layout.top_eq with htop | htop <;> omega
  intro virt
  apply lookup_congr
  rw [Addr.agree_route_iff htop]
  have hkey : virt.pageKey v.layout.top < 2 ^ 52 :=
    (Nat.mod_le _ _).trans_lt virt.page_lt
  have hpage : Addr.page (⟨UInt64.ofNat (virt.pageKey v.layout.top * 4096)⟩ : VirtAddr) =
      virt.pageKey v.layout.top := by
    rw [Addr.page, UInt64.toNat_ofNat_of_lt' (by simp only [UInt64.size]; omega)]
    omega
  change virt.pageKey v.layout.top = Addr.page _ % 512 ^ v.layout.top
  rw [hpage, Addr.pageKey, Nat.mod_mod]

theorem pageMap_take (v : View) (f count root : Nat) :
    (v.take f count).pageMap root = v.pageMap root := by
  funext key
  exact (SameTables.take v f count).lookup_eq _

end PageMap

/-! ## Filling frames -/

section Fill

variable {v : View} {f count offset a : Nat} {contents : List UInt8}

/-- Clears `count` frames from `f` on and puts some bytes at an offset in them. -/
def fill (v : View) (f count offset : Nat) (contents : List UInt8) : View :=
  (v.clear f count).write (f * 4096 + offset) contents

theorem byte_fill_of_outside (hfits : offset + contents.length ≤ count * 4096)
    (houtside : a / 4096 ∉ Set.Ico f (f + count)) :
    (v.fill f count offset contents).byte a = v.byte a := by
  rw [Set.mem_Ico] at houtside
  rw [fill, byte_write_of_outside (by omega), byte_clear, if_neg houtside]

theorem byte_fill_of_contents {k : Nat} (hk : k < contents.length) :
    (v.fill f count offset contents).byte (f * 4096 + offset + k) = contents[k] :=
  byte_write_of_inside hk

theorem byte_fill_of_rest (hinside : a / 4096 ∈ Set.Ico f (f + count))
    (hrest : a < f * 4096 + offset ∨ f * 4096 + offset + contents.length ≤ a) :
    (v.fill f count offset contents).byte a = 0 := by
  rw [Set.mem_Ico] at hinside
  rw [fill, byte_write_of_outside hrest, byte_clear, if_pos hinside]

end Fill

end View

def Elf.ProgramHeader.frames (h : ProgramHeader) (f : Nat) : Set Nat :=
  Set.Ico f (f + h.pageCount)

def Elf.ProgramHeader.firstPages (h : ProgramHeader) (k : Nat) : Set Nat :=
  Set.Ico (h.virtualAddress / 4096) (h.virtualAddress / 4096 + k)

theorem Elf.ProgramHeader.firstPages_pageCount (h : ProgramHeader) :
    h.firstPages h.pageCount = h.pages :=
  Set.ext fun p => (h.mem_pages_iff p).symm

theorem Elf.ProgramHeader.firstPages_zero (h : ProgramHeader) : h.firstPages 0 = ∅ :=
  Set.Ico_self _

theorem Elf.ProgramHeader.firstPages_subset (h : ProgramHeader) {k : Nat} (hk : k ≤ h.pageCount) :
    h.firstPages k ⊆ h.pages :=
  h.firstPages_pageCount ▸ Set.Ico_subset_Ico_right (Nat.add_le_add_left hk _)

/-- Frames were taken for a part, and its first `k` pages were mapped to them.  The frames hold what
they held before. -/
structure PartMapped (root : Nat) (h : ProgramHeader) (f k : Nat) (v w : View) : Prop where
  bound : k ≤ h.pageCount
  frames : h.frames f ⊆ v.free
  grown : View.Grown root (v.take f h.pageCount) w
  moved : ∀ virt : VirtAddr, virt.page ∈ h.firstPages k → w.lookup root virt.route =
    some (frameBase (f + (virt.page - h.virtualAddress / 4096)), h.entryFlags)
  unmoved : ∀ virt : VirtAddr, virt.page ∈ canonicalPages → virt.page ∉ h.firstPages k →
    w.lookup root virt.route = v.lookup root virt.route
  aside : ∀ virt : VirtAddr, virt.IsAside v.layout.top →
    w.lookup root virt.route = v.lookup root virt.route

/-- A part of an image was put in the frames from `f` on and mapped there. -/
structure Placed (root : Nat) (file : ByteArray) (h : ProgramHeader) (f : Nat) (v w : View) :
    Prop where
  layout : w.layout = v.layout
  frames : h.frames f ⊆ v.free
  free : w.free ⊆ v.free \ h.frames f
  tables : w.tables root ⊆ v.tables root ∪ (v.free \ h.frames f)
  tree : w.Tree root
  bytes : ∀ a, a / 4096 ∈ h.frames f →
    w.byte a = h.imageByte file (h.virtualAddress / 4096 * 4096 + (a - f * 4096))
  kept : ∀ a, a / 4096 ∉ v.free → a / 4096 ∉ v.tables root → w.byte a = v.byte a
  moved : ∀ virt : VirtAddr, virt.page ∈ h.pages → w.lookup root virt.route =
    some (frameBase (f + (virt.page - h.virtualAddress / 4096)), h.entryFlags)
  unmoved : ∀ virt : VirtAddr, virt.page ∈ canonicalPages → virt.page ∉ h.pages →
    w.lookup root virt.route = v.lookup root virt.route
  small : v.AllSmall root → w.AllSmall root

section Placing

variable {root f : Nat} {file : ByteArray} {h : ProgramHeader} {s : Segment} {v w : View}

theorem Placed.confined (hplaced : Placed root file h f v w) : View.Confined root v w where
  layout := hplaced.layout
  free := hplaced.free.trans Set.sdiff_subset
  fresh := hplaced.tables.trans (Set.union_subset_union_right _ Set.sdiff_subset)
  kept := hplaced.kept
  tree := hplaced.tree

theorem Elf.ProgramHeader.Describes.length_contents (hdescribes : h.Describes file s) :
    s.contents.length = min h.fileSize h.memorySize := by
  rw [hdescribes.contents, Bytes.length_slice, ProgramHeader.contentsSize]

theorem Elf.ProgramHeader.Describes.contents_fit (hdescribes : h.Describes file s) :
    h.virtualAddress % 4096 + s.contents.length ≤ h.pageCount * 4096 := by
  rw [hdescribes.length_contents, ProgramHeader.pageCount]
  omega

theorem Elf.ProgramHeader.Describes.pageCount_pos (hdescribes : h.Describes file s) :
    0 < h.pageCount := by
  have hsome := hdescribes.some
  unfold ProgramHeader.pageCount
  omega

theorem Elf.ProgramHeader.Describes.page_pageFloor (hdescribes : h.Describes file s) :
    s.virt.pageFloor.page = h.virtualAddress / 4096 := by
  rw [Addr.page_pageFloor, Addr.page, hdescribes.virt]

theorem Elf.ProgramHeader.Describes.pages_fit (hdescribes : h.Describes file s) :
    s.virt.pageFloor.page + h.pageCount ≤ 2 ^ 52 := by
  have hhalf := hdescribes.half
  rw [hdescribes.page_pageFloor, ProgramHeader.pageCount]
  omega

theorem Elf.ProgramHeader.Describes.frames_fit {v : View} {f : Nat}
    (hdescribes : h.Describes file s) (hsound : v.Sound) (hfree : h.frames f ⊆ v.free) :
    (frameBase f).page + h.pageCount ≤ 2 ^ 52 := by
  have hhalf := hdescribes.half
  have hsome := hdescribes.pageCount_pos
  have hfirst : f < 2 ^ 40 :=
    (hsound.plain f (hfree (Set.mem_Ico.mpr ⟨le_refl f, by omega⟩))).lt hsound.memory
  rw [page_frameBase (lt_trans hfirst (by decide)), ProgramHeader.pageCount]
  omega

theorem Elf.ProgramHeader.Describes.toNat_pageOffset (hdescribes : h.Describes file s) :
    s.virt.pageOffset.toNat = h.virtualAddress % 4096 := by
  rw [Addr.toNat_pageOffset, hdescribes.virt]

/-- What is written of a segment fits into its frames. -/
theorem Elf.ProgramHeader.Describes.fill_fits (hdescribes : h.Describes file s) {pages : Word}
    (hcount : pages.toNat = h.pageCount) :
    s.virt.pageOffset.toNat + s.contents.length ≤ pages.toNat * 4096 ∧
      s.virt.pageOffset.toNat < pages.toNat * 4096 := by
  have hfits := hdescribes.contents_fit
  have hsome := hdescribes.pageCount_pos
  rw [hdescribes.toNat_pageOffset, hcount]
  omega

section Mapped

variable {pages : PageMap} {top k : Nat} {virt : VirtAddr}

theorem Elf.ProgramHeader.Describes.page_start (hdescribes : h.Describes file s) :
    s.virt.pageFloor.pageFloor.page = h.virtualAddress / 4096 := by
  rw [Addr.page_pageFloor, hdescribes.page_pageFloor]

theorem Elf.ProgramHeader.Describes.start_canonical (hdescribes : h.Describes file s)
    (hk : k ≤ h.pageCount) :
    ∀ i < k, s.virt.pageFloor.pageFloor.page + i ∈ canonicalPages := by
  intro i hi
  apply hdescribes.canonical
  rw [hdescribes.page_start, ProgramHeader.mem_pages_iff]
  omega

theorem setRange_segment (hdescribes : h.Describes file s) (hk : k ≤ h.pageCount)
    (htop : top = 4 ∨ top = 5) (hvirt : virt.page ∈ canonicalPages) :
    pages.setRange top s.virt.pageFloor.pageFloor (frameBase f).pageFloor s.rights k
        (virt.pageKey top) =
      if h.virtualAddress / 4096 ≤ virt.page ∧ virt.page < h.virtualAddress / 4096 + k then
        some (pageTarget ((frameBase f).pageFloor.afterPages
          (virt.page - h.virtualAddress / 4096)) s.rights)
      else pages (virt.pageKey top) := by
  rw [PageMap.setRange_pageKey htop (hdescribes.start_canonical hk) hvirt, hdescribes.page_start]

theorem setRange_of_mem_firstPages (hdescribes : h.Describes file s) (hk : k ≤ h.pageCount)
    (htop : top = 4 ∨ top = 5) (hframes : ∀ g ∈ h.frames f, g < 2 ^ 40)
    (hvirt : virt.page ∈ h.firstPages k) :
    pages.setRange top s.virt.pageFloor.pageFloor (frameBase f).pageFloor s.rights k
        (virt.pageKey top) =
      some (frameBase (f + (virt.page - h.virtualAddress / 4096)), h.entryFlags) := by
  obtain ⟨hlow, hhigh⟩ := hvirt
  have hfirst := hframes f (Set.mem_Ico.mpr ⟨le_refl f, by omega⟩)
  have hthis := hframes (f + (virt.page - h.virtualAddress / 4096))
    (Set.mem_Ico.mpr ⟨by omega, by omega⟩)
  have hcanonical := hdescribes.canonical (h.firstPages_subset hk ⟨hlow, hhigh⟩)
  rw [setRange_segment hdescribes hk htop hcanonical, if_pos ⟨hlow, hhigh⟩,
    pageTarget_frameBase hfirst _ hthis, hdescribes.rights]

end Mapped

/-- The frames hold the bytes of the part, which start where its address lies in its page. -/
theorem byte_fill_eq_imageByte (hdescribes : h.Describes file s) {a : Nat}
    (ha : a / 4096 ∈ h.frames f) :
    (w.fill f h.pageCount (h.virtualAddress % 4096) s.contents).byte a =
      h.imageByte file (h.virtualAddress / 4096 * 4096 + (a - f * 4096)) := by
  have hlength := hdescribes.length_contents
  have hlow : f * 4096 ≤ a := by
    have hstart := ha.1
    omega
  by_cases hin : f * 4096 + h.virtualAddress % 4096 ≤ a ∧
      a < f * 4096 + h.virtualAddress % 4096 + s.contents.length
  · obtain ⟨k, rfl⟩ := Nat.exists_eq_add_of_le hin.1
    have hk : k < s.contents.length := by
      omega
    have hbyte : s.contents[k] = Bytes.byteAt file (h.offset + k) := by
      simp only [hdescribes.contents, Bytes.slice, List.getElem_map, List.getElem_range]
    rw [View.byte_fill_of_contents hk, hbyte, ProgramHeader.imageByte, if_pos (by omega)]
    congr 2
    omega
  · rw [View.byte_fill_of_rest ha (by omega), ProgramHeader.imageByte, if_neg (by omega)]

theorem partMapped_of_grown {k : Nat} (hsound : v.Sound) (hdescribes : h.Describes file s)
    (hframes : h.frames f ⊆ v.free) (hk : k ≤ h.pageCount)
    (hgrown : View.Grown root (v.take f h.pageCount) w)
    (hmaps : w.Maps root ((v.pageMap root).setRange v.layout.top s.virt.pageFloor.pageFloor
      (frameBase f).pageFloor s.rights k)) : PartMapped root h f k v w := by
  have hlookup : ∀ virt : VirtAddr, w.lookup root virt.route =
      (v.pageMap root).setRange v.layout.top s.virt.pageFloor.pageFloor (frameBase f).pageFloor
        s.rights k (virt.pageKey v.layout.top) := by
    intro virt
    rw [hmaps virt, hgrown.layout]
    rfl
  refine ⟨hk, hframes, hgrown, ?_, ?_, ?_⟩
  · intro virt hvirt
    have hlt : ∀ g ∈ h.frames f, g < 2 ^ 40 := fun g hg =>
      (hsound.plain g (hframes hg)).lt hsound.memory
    rw [hlookup, setRange_of_mem_firstPages hdescribes hk v.layout.top_eq hlt hvirt]
  · intro virt hvirt hout
    rw [hlookup, setRange_segment hdescribes hk v.layout.top_eq hvirt]
    exact (if_neg hout).trans (v.maps_pageMap root virt).symm
  · intro virt haside
    rw [hlookup, PageMap.setRange_of_isAside (hdescribes.start_canonical hk) haside]
    exact (v.maps_pageMap root virt).symm

theorem PartMapped.plain {k : Nat} (hmapped : PartMapped root h f k v w) (hsound : v.Sound)
    {g : Nat} (hg : g ∈ h.frames f) : w.layout.Plain g := by
  rw [show w.layout = v.layout from hmapped.grown.layout]
  exact hsound.plain g (hmapped.frames hg)

theorem PartMapped.not_mem_tables {k : Nat} (hmapped : PartMapped root h f k v w)
    (htree : v.Tree root) {g : Nat} (hg : g ∈ h.frames f) : g ∉ w.tables root := by
  apply hmapped.grown.not_mem_tables
  · rw [(View.SameTables.take v f h.pageCount).tables_eq]
    exact fun hin => htree.taken g hin (hmapped.frames hg)
  · exact fun hfree => hfree.2 hg

theorem PartMapped.sameTables_fill {k : Nat} (hmapped : PartMapped root h f k v w)
    (htree : v.Tree root) (hdescribes : h.Describes file s) :
    View.SameTables w (w.fill f h.pageCount (h.virtualAddress % 4096) s.contents) root := by
  refine .of_bytes rfl fun a ha => ?_
  exact View.byte_fill_of_outside hdescribes.contents_fit
    fun hin => hmapped.not_mem_tables htree hin ha

theorem PartMapped.placed (hmapped : PartMapped root h f h.pageCount v w) (htree : v.Tree root)
    (hdescribes : h.Describes file s) :
    Placed root file h f v (w.fill f h.pageCount (h.virtualAddress % 4096) s.contents) := by
  have hgrown := hmapped.grown
  have houtside : ∀ a, a / 4096 ∉ h.frames f →
      (w.fill f h.pageCount (h.virtualAddress % 4096) s.contents).byte a = w.byte a :=
    fun a ha => View.byte_fill_of_outside hdescribes.contents_fit ha
  have htables : (v.take f h.pageCount).tables root = v.tables root :=
    (View.SameTables.take v f h.pageCount).tables_eq
  have hsame := hmapped.sameTables_fill htree hdescribes
  constructor
  · exact hgrown.layout
  · exact hmapped.frames
  · exact hgrown.free
  · rw [hsame.tables_eq, ← htables]
    exact hgrown.fresh
  · exact hsame.tree hgrown.tree hgrown.tree.taken
  · exact fun a ha => byte_fill_eq_imageByte hdescribes ha
  · intro a hfree htable
    rw [houtside a fun hin => hfree (hmapped.frames hin), hgrown.byte_eq]
    · rfl
    · rwa [htables]
    · exact fun hin => hfree hin.1
  · intro virt hvirt
    rw [hsame.lookup_eq, hmapped.moved virt (h.firstPages_pageCount ▸ hvirt)]
  · intro virt hvirt hout
    rw [hsame.lookup_eq, hmapped.unmoved virt hvirt (h.firstPages_pageCount ▸ hout)]
  · intro hsmall
    apply hsame.allSmall
    exact hgrown.small ((View.SameTables.take v f h.pageCount).allSmall hsmall)

end Placing

namespace Machine

section Segments

variable {m m' : Machine} {root : Nat} {file : ByteArray} {h : ProgramHeader} {s : Segment}

/-- The pages of a segment are counted without leaving the word. -/
theorem segment_length (hdescribes : h.Describes file s) :
    ∃ span length, Word.add s.memorySize s.virt.pageOffset = .ok span ∧
      Word.alignUp span pageSize = .ok length ∧
      Word.pageCount length = .ok (length / pageSize) ∧
      (length / pageSize).toNat = h.pageCount := by
  have hhalf := hdescribes.half
  have hoffset := hdescribes.toNat_pageOffset
  have hmemory := hdescribes.memorySize
  have hsum : s.memorySize.toNat + s.virt.pageOffset.toNat < 2 ^ 64 := by
    omega
  have hspan : (s.memorySize + s.virt.pageOffset).toNat =
      h.virtualAddress % 4096 + h.memorySize := by
    rw [Word.toNat_add hsum]
    omega
  have hcount : h.pageCount * 4096 + 4096 < 2 ^ 64 := by
    unfold ProgramHeader.pageCount
    omega
  have hlength : (UInt64.ofNat (h.pageCount * 4096)).toNat = h.pageCount * 4096 :=
    UInt64.toNat_ofNat_of_lt' (lt_of_le_of_lt (Nat.le_add_right _ 4096) hcount)
  have hpages : (UInt64.ofNat (h.pageCount * 4096) / pageSize).toNat = h.pageCount := by
    rw [UInt64.toNat_div, hlength, toNat_pageSize]
    omega
  have hrounded : Word.alignUp (s.memorySize + s.virt.pageOffset) pageSize =
      .ok (UInt64.ofNat (h.pageCount * 4096)) := by
    have hround : (h.virtualAddress % 4096 + h.memorySize + 4095) / 4096 * 4096 =
        h.pageCount * 4096 := by
      rw [ProgramHeader.pageCount]
    have hfits : h.virtualAddress % 4096 + h.memorySize + 4096 < 2 ^ 64 := by
      omega
    rw [Word.alignUp_pageSize, hspan, if_pos hfits, hround]
  refine ⟨_, UInt64.ofNat (h.pageCount * 4096), Word.add_eq_ok hsum, hrounded, ?_, hpages⟩
  rw [Word.pageCount_eq, hlength, if_pos hcount]
  apply congrArg Except.ok
  apply UInt64.toNat_inj.mp
  rw [hpages, UInt64.toNat_ofNat_of_lt' (by simp only [UInt64.size]; omega)]
  omega

/-- Placing a segment starts with taking as many frames as it has pages. -/
theorem placeSegment_eq (hdescribes : h.Describes file s) :
    ∃ length pages, Word.pageCount length = .ok pages ∧ pages.toNat = h.pageCount ∧
      ∀ space, placeSegment space s = (do
        let frames ← Action.mapError .noFrame (alloc pages)
        emit (.loadingSegment s.index s.virt s.memorySize frames s.rights)
        mapRange space ⟨s.virt.pageFloor, frames, length⟩ s.rights
        zeroPages frames pages
        copyIn (← frames.add s.virt.pageOffset) s.contents) := by
  obtain ⟨span, length, hspan, hlength, hpages, hcount⟩ := segment_length hdescribes
  refine ⟨length, _, hpages, hcount, ?_⟩
  intro space
  funext m
  rw [placeSegment, hspan, Action.bind_ok (Action.lift_ok _ m), hlength,
    Action.bind_ok (Action.lift_ok _ m)]

theorem add_frameBase {f : Nat} {offset : Word} (hlow : f < 2 ^ 40)
    (hoffset : offset.toNat < 2 ^ 52) :
    (frameBase f).add offset = .ok ⟨(frameBase f).word + offset⟩ ∧
      ((frameBase f).word + offset).toNat = f * 4096 + offset.toNat := by
  have hbase : (frameBase f).word.toNat = f * 4096 :=
    toNat_frameBase (lt_trans hlow (by decide))
  have hsum : (frameBase f).word.toNat + offset.toNat < 2 ^ 64 := by
    omega
  constructor
  · rw [Addr.add, Word.add_eq_ok hsum]
    rfl
  · rw [Word.toNat_add hsum, hbase]

theorem fillFrames_run {f : Nat} {count : Word} (offset : Word) (contents : List UInt8)
    (hsound : m.view.Sound) (hfits : offset.toNat + contents.length ≤ count.toNat * 4096)
    (hstart : offset.toNat < count.toNat * 4096)
    (hplain : ∀ g, f ≤ g → g < f + count.toNat → m.layout.Plain g) :
    ∃ m', (do
        zeroPages (frameBase f) count
        copyIn (← (frameBase f).add offset) contents) m =
          (.ok ⟨⟩ m' : EStateM.Result (Failure MapError) _ _) ∧
      m'.view = m.view.fill f count.toNat offset.toNat contents := by
  obtain ⟨m₁, hzero, hview₁⟩ := zeroFrames_plain (ε := MapError) hsound (by omega) hplain
  have hlayout : m₁.layout = m.layout := congrArg View.layout hview₁
  have hlt : f < 2 ^ 40 := (hplain f (le_refl f) (by omega)).lt hsound.memory
  have hbelow := (hplain (f + offset.toNat / 4096) (by omega) (by omega)).lt hsound.memory
  obtain ⟨hadd, haddr⟩ := add_frameBase hlt (show offset.toNat < 2 ^ 52 by omega)
  have hcopy : ∃ m', copyIn ⟨(frameBase f).word + offset⟩ contents m₁ =
      (.ok ⟨⟩ m' : EStateM.Result (Failure MapError) _ _) ∧
        m'.view = m₁.view.write (f * 4096 + offset.toNat) contents := by
    rw [← haddr]
    apply copyIn_run
    · rw [hlayout, Addr.page, haddr]
      exact hplain _ (by omega) (by omega)
    · intro k hk
      rw [hlayout, haddr]
      exact hplain _ (by omega) (by omega)
  obtain ⟨m', hcopy, hview'⟩ := hcopy
  refine ⟨m', ?_, ?_⟩
  · rw [Action.bind_ok hzero, hadd, Action.bind_ok (Action.lift_ok _ m₁)]
    exact hcopy
  · rw [hview', hview₁, View.fill]

theorem RangeMapped.partMapped {m₁ : Machine} {f k : Nat} (hsound : m.view.Sound)
    (hdescribes : h.Describes file s) (hfree : h.frames f ⊆ m.view.free)
    (hview : m₁.view = m.view.take f h.pageCount) (hk : k ≤ h.pageCount)
    (hrange : RangeMapped root (m₁.view.pageMap root) s.virt.pageFloor.pageFloor
      (frameBase f).pageFloor s.rights 0 k m₁ m') : PartMapped root h f k m.view m'.view := by
  have hmaps := hrange.maps
  rw [Nat.zero_add, hview, View.pageMap_take,
    show m₁.layout = m.view.layout from congrArg View.layout hview] at hmaps
  exact partMapped_of_grown hsound hdescribes hfree hk (hview ▸ hrange.grown) hmaps

/-- Mapping a part maps its first pages and drops them from the cache, all of them if it
succeeds. -/
theorem mapPart_run {m₁ : Machine} {f : Nat} {length pages : Word} (hsound : m.view.Sound)
    (htree : m.view.Tree root) (hdescribes : h.Describes file s)
    (hpages : Word.pageCount length = .ok pages) (hcount : pages.toNat = h.pageCount)
    (hfree : h.frames f ⊆ m.view.free) (hview : m₁.view = m.view.take f h.pageCount) :
    ∃ k m₂, PartMapped root h f k m.view m₂.view ∧
      m₂.invalidated.size = m₁.invalidated.size + k ∧
      ((k = h.pageCount ∧ mapRange ⟨frameBase root⟩ ⟨s.virt.pageFloor, frameBase f, length⟩
          s.rights m₁ = .ok ⟨⟩ m₂) ∨
        ∃ failure, mapRange ⟨frameBase root⟩ ⟨s.virt.pageFloor, frameBase f, length⟩ s.rights m₁ =
          .error failure m₂) := by
  obtain ⟨k, m₂, hrange, hle, hresult⟩ := mapRange_run (hview ▸ hsound.take f h.pageCount)
    (hview ▸ htree.take f h.pageCount) (m₁.view.maps_pageMap root)
    ⟨s.virt.pageFloor, frameBase f, length⟩ s.rights
  refine ⟨k, m₂, hrange.partMapped hsound hdescribes hfree hview (hcount ▸ hle pages hpages),
    hrange.invalidated, ?_⟩
  rcases hresult with ⟨count, hcount', rfl, hmap⟩ | hfail
  · obtain rfl : pages = count := Except.ok.inj (hpages.symm.trans hcount')
    exact .inl ⟨hcount, hmap⟩
  · exact .inr hfail

/-- A part whose pages are all mapped is put into its frames. -/
theorem fillPart_run {m₂ : Machine} {f : Nat} {pages : Word} (hsound : m.view.Sound)
    (hdescribes : h.Describes file s) (hcount : pages.toNat = h.pageCount)
    (hmapped : PartMapped root h f h.pageCount m.view m₂.view) :
    ∃ m', (do
        zeroPages (frameBase f) pages
        copyIn (← (frameBase f).add s.virt.pageOffset) s.contents) m₂ =
          (.ok ⟨⟩ m' : EStateM.Result (Failure MapError) _ _) ∧
      m'.view = m₂.view.fill f h.pageCount (h.virtualAddress % 4096) s.contents := by
  obtain ⟨hfits, hstart⟩ := hdescribes.fill_fits hcount
  have hplain : ∀ g, f ≤ g → g < f + pages.toNat → m₂.layout.Plain g :=
    fun g hlow hhigh => hmapped.plain hsound ⟨hlow, hcount ▸ hhigh⟩
  obtain ⟨m', hfill, hview⟩ := fillFrames_run s.virt.pageOffset s.contents
    (hmapped.grown.sound (hsound.take f h.pageCount)) hfits hstart hplain
  refine ⟨m', hfill, ?_⟩
  rw [hview, hdescribes.toNat_pageOffset, hcount]

/-- A segment is placed, or there is no run of frames for it, or it cannot be mapped. -/
theorem placeSegment_run (hsound : m.view.Sound) (htree : m.view.Tree root)
    (hdescribes : h.Describes file s) :
    ∃ length pages, Word.pageCount length = .ok pages ∧ pages.toNat = h.pageCount ∧
      ((∃ e m₁, placeSegment ⟨frameBase root⟩ s m = .error (.error (.noFrame e)) m₁ ∧
          m₁.view = m.view ∧ ∀ f, ¬h.frames f ⊆ m.view.free) ∨
        ∃ f m₁, m₁.view = m.view.take f h.pageCount ∧ h.frames f ⊆ m.view.free ∧
          ((∃ failure m₂, mapRange ⟨frameBase root⟩
              ⟨s.virt.pageFloor, frameBase f, length⟩ s.rights m₁ = .error failure m₂ ∧
              placeSegment ⟨frameBase root⟩ s m = .error failure m₂) ∨
            ∃ m₂ m', mapRange ⟨frameBase root⟩
              ⟨s.virt.pageFloor, frameBase f, length⟩ s.rights m₁ = .ok ⟨⟩ m₂ ∧
              placeSegment ⟨frameBase root⟩ s m = .ok ⟨⟩ m' ∧ m'.view.free = m₂.view.free ∧
              Placed root file h f m.view m'.view)) := by
  obtain ⟨length, pages, hpages, hcount, hplace⟩ := placeSegment_eq hdescribes
  refine ⟨length, pages, hpages, hcount, ?_⟩
  rw [hplace]
  rcases alloc_run hsound pages with
    ⟨e, m₁, halloc, hview₁, hnone⟩ | ⟨f, m₁, _, hfree, halloc, hview₁⟩
  · left
    rw [hcount] at hnone
    exact ⟨e, m₁, Action.bind_error (Action.mapError_error halloc), hview₁,
      hnone hdescribes.pageCount_pos⟩
  · right
    rw [hcount] at hfree hview₁
    obtain ⟨m₂, hemit, hview₂⟩ := emit_run (ε := MapError)
      (.loadingSegment s.index s.virt s.memorySize (frameBase f) s.rights) m₁
    have hview := hview₂.trans hview₁
    rw [Action.bind_ok (Action.mapError_ok halloc), Action.bind_ok hemit]
    refine ⟨f, m₂, hview, hfree, ?_⟩
    obtain ⟨k, m₃, hmapped, _, hresult⟩ :=
      mapPart_run hsound htree hdescribes hpages hcount hfree hview
    rcases hresult with ⟨rfl, hmap⟩ | ⟨failure, hmap⟩
    · right
      obtain ⟨m', hfill, hview'⟩ := fillPart_run hsound hdescribes hcount hmapped
      refine ⟨m₃, m', hmap, (Action.bind_ok hmap).trans hfill, ?_, ?_⟩
      · rw [hview']
        rfl
      · exact hview' ▸ hmapped.placed htree hdescribes
    · exact .inl ⟨failure, m₃, hmap, Action.bind_error hmap⟩

theorem placeSegment_eq_ok (hsound : m.view.Sound) (htree : m.view.Tree root)
    (hdescribes : h.Describes file s)
    (hrun : placeSegment ⟨frameBase root⟩ s m = .ok ⟨⟩ m') :
    ∃ f, Placed root file h f m.view m'.view := by
  obtain ⟨_, _, _, _, hcases⟩ := placeSegment_run hsound htree hdescribes
  rcases hcases with ⟨e, m₁, hfail, _⟩ | ⟨f, m₁, _, _, ⟨failure, m₂, _, hfail⟩ | hplaced⟩
  · rw [hrun] at hfail
    cases hfail
  · rw [hrun] at hfail
    cases hfail
  · obtain ⟨m₂, m₃, _, hdone, _, hplaced⟩ := hplaced
    rw [hrun] at hdone
    cases hdone
    exact ⟨f, hplaced⟩

/-- A segment is placed if there is a run of frames for it, and frames for the tables of its
pages. -/
theorem placeSegment_supplied {n : Nat} (hsound : m.view.Sound) (htree : m.view.Tree root)
    (hsmall : m.view.AllSmall root) (hdescribes : h.Describes file s)
    (hroom : ∃ f, h.frames f ⊆ m.view.free)
    (hsupplied : m.view.Supplied (h.pageCount * m.layout.top + n)) :
    ∃ f m', placeSegment ⟨frameBase root⟩ s m = .ok ⟨⟩ m' ∧
      Placed root file h f m.view m'.view ∧ m'.view.Supplied n := by
  obtain ⟨length, pages, hpages, hcount, hcases⟩ := placeSegment_run hsound htree hdescribes
  rcases hcases with ⟨_, _, _, _, hnone⟩ | ⟨f, m₁, hview₁, hfree, hmapped⟩
  · obtain ⟨f, hf⟩ := hroom
    exact absurd hf (hnone f)
  · have hlayout : m₁.layout = m.layout := congrArg View.layout hview₁
    have htop : h.pageCount * m.layout.top =
        h.pageCount + h.pageCount * (m.layout.top - 1) := by
      obtain ⟨lower, hlower⟩ := Nat.exists_eq_add_of_le' m.levels_pos
      rw [hlower, Nat.add_sub_cancel, Nat.mul_succ, Nat.add_comm]
    have hrest : m₁.view.Supplied (pages.toNat * (m₁.layout.top - 1) + n) := by
      rw [htop, Nat.add_assoc] at hsupplied
      rw [hview₁, hlayout, hcount]
      exact hsupplied.take f
    obtain ⟨m₂, hmap, hleft⟩ := mapRange_supplied (hview₁ ▸ hsound.take f h.pageCount)
      (hview₁ ▸ htree.take f h.pageCount)
      (hview₁ ▸ (View.SameTables.take m.view f h.pageCount).allSmall hsmall)
      ⟨s.virt.pageFloor, frameBase f, length⟩ hpages s.rights
      (hcount ▸ hdescribes.pages_fit) (hcount ▸ hdescribes.frames_fit hsound hfree) hrest
    rcases hmapped with ⟨_, _, hfail, _⟩ | ⟨m₃, m', hdone, hrun, hsame, hplaced⟩
    · rw [hmap] at hfail
      cases hfail
    · rw [hmap] at hdone
      cases hdone
      exact ⟨f, m', hrun, hplaced, hleft.of_free_eq hsame⟩

/-- Where there are frames for a part and for the tables of one page, at least its first page is
mapped, even if the part is not placed. -/
theorem placeSegment_starts (hsound : m.view.Sound) (htree : m.view.Tree root)
    (hsmall : m.view.AllSmall root) (hdescribes : h.Describes file s)
    (hroom : ∃ f, h.frames f ⊆ m.view.free)
    (hsupplied : m.view.Supplied (h.pageCount + (m.layout.top - 1))) :
    (∃ f m', placeSegment ⟨frameBase root⟩ s m = .ok ⟨⟩ m' ∧
        Placed root file h f m.view m'.view) ∨
      ∃ failure f k m', placeSegment ⟨frameBase root⟩ s m = .error failure m' ∧ 0 < k ∧
        PartMapped root h f k m.view m'.view := by
  obtain ⟨length, pages, hpages, hcount, hcases⟩ := placeSegment_run hsound htree hdescribes
  rcases hcases with ⟨_, _, _, _, hnone⟩ | ⟨f, m₁, hview, hfree, hmapped⟩
  · obtain ⟨f, hf⟩ := hroom
    exact absurd hf (hnone f)
  · rcases hmapped with ⟨failure, m', hfail, hplace⟩ | ⟨_, m', _, hplace, _, hplaced⟩
    · right
      have hlayout : m₁.layout = m.layout := congrArg View.layout hview
      obtain ⟨k, m₂, hk, hle, hrange, hresult⟩ := mapRange_starts
        (hview ▸ hsound.take f h.pageCount) (hview ▸ htree.take f h.pageCount)
        (hview ▸ (View.SameTables.take m.view f h.pageCount).allSmall hsmall)
        (m₁.view.maps_pageMap root) ⟨s.virt.pageFloor, frameBase f, length⟩ hpages
        (hcount ▸ hdescribes.pageCount_pos) s.rights (by
          rw [hview, hlayout]
          exact hsupplied.take f)
      rcases hresult with hdone | ⟨_, hsame⟩
      · cases hfail.symm.trans hdone
      · cases hfail.symm.trans hsame
        exact ⟨failure, f, k, m', hplace, hk,
          hrange.partMapped hsound hdescribes hfree hview (hcount ▸ hle)⟩
    · exact .inl ⟨f, m', hplace, hplaced⟩

end Segments

end Machine

end BootMemory
