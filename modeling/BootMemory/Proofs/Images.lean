import BootMemory.Image.Loader
import BootMemory.Proofs.Mapping

/-!
# Parts of an image in pages

A part of an image that passed its checks lies in one half of the canonical addresses.  It covers
some pages in a row, it fixes a byte for each address of these pages, and it says which flags they
get.  Canonical pages have keys of their own with four and with five levels, so a range of
canonical pages is mapped page by page without one page getting in the way of another.
-/

namespace BootMemory

/-! ## Canonical pages -/

/-- The numbers of the pages that four levels can reach. -/
def canonicalPages : Set Nat :=
  {p | p < 2 ^ 35 ∨ 2 ^ 52 - 2 ^ 35 ≤ p ∧ p < 2 ^ 52}

theorem lt_of_mem_canonicalPages {page : Nat} (hpage : page ∈ canonicalPages) : page < 2 ^ 52 := by
  change page < 2 ^ 35 ∨ 2 ^ 52 - 2 ^ 35 ≤ page ∧ page < 2 ^ 52 at hpage
  omega

theorem Addr.isCanonical_iff (a : VirtAddr) : a.isCanonical = true ↔ a.page ∈ canonicalPages := by
  have hlt := a.word.toNat_lt
  have hshift : (a.word >>> 47).toNat = a.word.toNat / 2 ^ 47 := by
    rw [UInt64.toNat_shiftRight]
    exact Nat.shiftRight_eq_div_pow _ _
  have hlow : (0 : Word).toNat = 0 := rfl
  have hhigh : ((~~~0 : Word) >>> 47).toNat = 2 ^ 17 - 1 := rfl
  rw [isCanonical, Bool.or_eq_true, beq_iff_eq, beq_iff_eq, ← UInt64.toNat_inj, hlow,
    ← UInt64.toNat_inj (b := (~~~0 : Word) >>> 47), hhigh, hshift]
  change _ ↔ a.page < 2 ^ 35 ∨ 2 ^ 52 - 2 ^ 35 ≤ a.page ∧ a.page < 2 ^ 52
  unfold page
  omega

theorem Addr.page_eq_of_pageKey_eq {top : Nat} (htop : top = 4 ∨ top = 5) {a b : VirtAddr}
    (ha : a.page ∈ canonicalPages) (hb : b.page ∈ canonicalPages)
    (hkey : a.pageKey top = b.pageKey top) : a.page = b.page := by
  change a.page < 2 ^ 35 ∨ 2 ^ 52 - 2 ^ 35 ≤ a.page ∧ a.page < 2 ^ 52 at ha
  change b.page < 2 ^ 35 ∨ 2 ^ 52 - 2 ^ 35 ≤ b.page ∧ b.page < 2 ^ 52 at hb
  unfold pageKey at hkey
  rcases htop with rfl | rfl
  · have hpower : 512 ^ 4 = 2 ^ 36 := by norm_num
    rw [hpower] at hkey
    omega
  · have hpower : 512 ^ 5 = 2 ^ 45 := by norm_num
    rw [hpower] at hkey
    omega

theorem Addr.page_afterPages {kind : AddrKind} (a : Addr kind) {count : Nat}
    (hfits : a.page + count < 2 ^ 52) : (a.afterPages count).page = a.page + count := by
  have hcount : (UInt64.ofNat (count * 4096)).toNat = count * 4096 := by
    apply UInt64.toNat_ofNat_of_lt'
    simp only [UInt64.size]
    omega
  unfold page at hfits ⊢
  rw [afterPages, Word.toNat_add, hcount]
  · omega
  · rw [hcount]
    omega

/-- A range of canonical pages: each of them gets its own frame, and no other canonical page is
moved. -/
theorem PageMap.setRange_pageKey {pages : PageMap} {top : Nat} (htop : top = 4 ∨ top = 5)
    {virt : VirtAddr} {phys : PhysAddr} {rights : AccessRights} {count : Nat}
    (hcanonical : ∀ i < count, virt.page + i ∈ canonicalPages) {a : VirtAddr}
    (ha : a.page ∈ canonicalPages) :
    pages.setRange top virt phys rights count (a.pageKey top) =
      if virt.page ≤ a.page ∧ a.page < virt.page + count then
        some (pageTarget (phys.afterPages (a.page - virt.page)) rights)
      else pages (a.pageKey top) := by
  induction count with
  | zero =>
      rw [if_neg (by omega)]
      rfl
  | succ count ih =>
      have hlast := hcanonical count (Nat.lt_succ_self count)
      have hlt := lt_of_mem_canonicalPages hlast
      have hpage := virt.page_afterPages hlt
      rw [setRange, Function.update_apply, ih fun i hi => hcanonical i (Nat.lt_succ_of_lt hi)]
      by_cases hsame : a.page = virt.page + count
      · have hkey : a.pageKey top = (virt.afterPages count).pageKey top := by
          rw [Addr.pageKey, Addr.pageKey, hpage, hsame]
        rw [if_pos hkey, if_pos (by omega), hsame, Nat.add_sub_cancel_left]
      · have hkey : a.pageKey top ≠ (virt.afterPages count).pageKey top := by
          intro heq
          apply hsame
          rw [← hpage]
          exact Addr.page_eq_of_pageKey_eq htop ha (hpage ▸ hlast) heq
        rw [if_neg hkey]
        by_cases hin : virt.page ≤ a.page ∧ a.page < virt.page + count
        · rw [if_pos hin, if_pos (by omega)]
        · rw [if_neg hin, if_neg (by omega)]

/-- A key that a range of canonical pages cannot set, because no canonical page has it. -/
def Addr.IsAside (top : Nat) (virt : VirtAddr) : Prop :=
  ∀ page : VirtAddr, page.page ∈ canonicalPages → page.pageKey top ≠ virt.pageKey top

theorem PageMap.setRange_of_isAside {pages : PageMap} {top : Nat} {virt : VirtAddr}
    {phys : PhysAddr} {rights : AccessRights} {count : Nat}
    (hcanonical : ∀ i < count, virt.page + i ∈ canonicalPages) {a : VirtAddr}
    (ha : a.IsAside top) :
    pages.setRange top virt phys rights count (a.pageKey top) = pages (a.pageKey top) := by
  induction count with
  | zero => rfl
  | succ count ih =>
      have hlast := hcanonical count (Nat.lt_succ_self count)
      have hlt := lt_of_mem_canonicalPages hlast
      have hkey := ha (virt.afterPages count) (virt.page_afterPages hlt ▸ hlast)
      rw [setRange, Function.update_of_ne hkey.symm]
      exact ih fun i hi => hcanonical i (Nat.lt_succ_of_lt hi)

theorem pageTarget_frameBase {f : Nat} (hf : f < 2 ^ 40) (count : Nat) (hcount : f + count < 2 ^ 40)
    (rights : AccessRights) :
    pageTarget ((frameBase f).pageFloor.afterPages count) rights =
      (frameBase (f + count), .ofRights rights) := by
  have hlow : f < 2 ^ 52 := lt_trans hf (by decide)
  have hhigh : f + count < 2 ^ 52 := lt_trans hcount (by decide)
  have hpage : (frameBase f).pageFloor.page = f := by
    rw [Addr.page_pageFloor, page_frameBase hlow]
  have hframe : ((frameBase f).pageFloor.afterPages count).page = f + count := by
    rw [Addr.page_afterPages _ (by rw [hpage]; exact hhigh), hpage]
  have hword : ((frameBase f).pageFloor.afterPages count).word &&& frameMask =
      (frameBase (f + count)).word := by
    apply UInt64.toNat_inj.mp
    unfold Addr.page at hframe
    rw [toNat_and_frameMask, toNat_frameBase hhigh]
    omega
  rw [pageTarget, hword]

/-! ## Parts -/

namespace Elf

namespace ProgramHeader

/-- The header describes a part that goes into memory. -/
def IsPart (h : ProgramHeader) : Prop :=
  h.kind = 1 ∧ h.memorySize ≠ 0

instance : DecidablePred IsPart :=
  fun h => inferInstanceAs (Decidable (h.kind = 1 ∧ h.memorySize ≠ 0))

theorem isLoadable_iff (h : ProgramHeader) : h.isLoadable = true ↔ h.IsPart := by
  simp [isLoadable, IsPart]

/-- The pages that hold some byte of the part. -/
def pages (h : ProgramHeader) : Set Nat :=
  Set.Ico (h.virtualAddress / 4096) ((h.virtualAddress + h.memorySize + 4095) / 4096)

def pageCount (h : ProgramHeader) : Nat :=
  (h.virtualAddress % 4096 + h.memorySize + 4095) / 4096

/-- The byte that the part has at an address: from the file as far as that goes, else zero. -/
def imageByte (h : ProgramHeader) (file : ByteArray) (a : Nat) : UInt8 :=
  if h.virtualAddress ≤ a ∧ a < h.virtualAddress + min h.fileSize h.memorySize then
    Bytes.byteAt file (h.offset + (a - h.virtualAddress))
  else 0

/-- Pages of the part are always open to user mode.  Bit 1 of the flags in the header makes them
writable, and bit 0 lets code on them run. -/
def entryFlags (h : ProgramHeader) : EntryFlags :=
  let flags := EntryFlags.present.union .user
  let flags := if h.flags.testBit 1 then flags.union .writable else flags
  if h.flags.testBit 0 then flags else flags.union .executeDisabled

theorem mem_pages_iff (h : ProgramHeader) (p : Nat) :
    p ∈ h.pages ↔
      h.virtualAddress / 4096 ≤ p ∧ p < h.virtualAddress / 4096 + h.pageCount := by
  have hend : (h.virtualAddress + h.memorySize + 4095) / 4096 =
      h.virtualAddress / 4096 + h.pageCount := by
    unfold pageCount
    omega
  rw [pages, hend, Set.mem_Ico]

/-- A segment is the part that a header describes, which lies in one half of the addresses. -/
structure Describes (h : ProgramHeader) (file : ByteArray) (s : Segment) : Prop where
  virt : s.virt.word.toNat = h.virtualAddress
  memorySize : s.memorySize.toNat = h.memorySize
  rights : EntryFlags.ofRights s.rights = h.entryFlags
  contents : s.contents = Bytes.slice file h.offset h.contentsSize
  some : 0 < h.memorySize
  half : h.virtualAddress + h.memorySize ≤ 2 ^ 47 ∨
    2 ^ 64 - 2 ^ 47 ≤ h.virtualAddress ∧ h.virtualAddress + h.memorySize ≤ 2 ^ 64

theorem liesInOneHalf_iff {h : ProgramHeader} (hsome : 0 < h.memorySize) :
    h.liesInOneHalf = true ↔
      h.virtualAddress + h.memorySize ≤ 2 ^ 47 ∨
        2 ^ 64 - 2 ^ 47 ≤ h.virtualAddress ∧ h.virtualAddress + h.memorySize ≤ 2 ^ 64 := by
  have hlastEq : h.lastAddress = h.virtualAddress + h.memorySize - 1 := rfl
  have hsize : UInt64.size = 2 ^ 64 := rfl
  have hcanonical : ∀ a < 2 ^ 64, Addr.isCanonical ⟨UInt64.ofNat a⟩ = true ↔
      a < 2 ^ 47 ∨ 2 ^ 64 - 2 ^ 47 ≤ a := by
    intro a ha
    rw [Addr.isCanonical_iff]
    change (UInt64.ofNat a).toNat / 4096 < 2 ^ 35 ∨
      2 ^ 52 - 2 ^ 35 ≤ (UInt64.ofNat a).toNat / 4096 ∧ _ / 4096 < 2 ^ 52 ↔ _
    rw [UInt64.toNat_ofNat_of_lt' ha]
    omega
  have hshift : ∀ a < 2 ^ 64, (UInt64.ofNat a >>> 47).toNat = a / 2 ^ 47 := by
    intro a ha
    rw [UInt64.toNat_shiftRight, UInt64.toNat_ofNat_of_lt' ha]
    exact Nat.shiftRight_eq_div_pow _ _
  simp only [liesInOneHalf, Bool.and_eq_true, decide_eq_true_eq, beq_iff_eq]
  by_cases hlt : h.lastAddress < 2 ^ 64
  · rw [hcanonical _ hlt, hcanonical h.virtualAddress (by omega), ← UInt64.toNat_inj,
      hshift _ hlt, hshift h.virtualAddress (by omega)]
    omega
  · omega

theorem ofRights_segment (s : Segment) :
    EntryFlags.ofRights s.rights =
      let flags := EntryFlags.present.union .user
      let flags := if s.writable then flags.union .writable else flags
      if s.executable then flags else flags.union .executeDisabled := by
  unfold Segment.rights
  cases s.writable <;> cases s.executable <;> rfl

/-- A part that passed its check is found again, as a segment that its header describes. -/
theorem exists_segment {h : ProgramHeader} {file : ByteArray} {index : Nat} (hpart : h.IsPart)
    (hcheck : h.check file index = .ok ⟨⟩) :
    ∃ s, h.segment file index = .ok s ∧ h.Describes file s := by
  unfold check at hcheck
  cases hcontents : h.contents? file with
  | none => simp [hcontents] at hcheck
  | some contents =>
      have hhalf : h.liesInOneHalf = true := by
        by_contra hsplit
        simp [hcontents, hsplit] at hcheck
      have hsome := Nat.pos_of_ne_zero hpart.2
      have hbounds := (liesInOneHalf_iff hsome).mp hhalf
      rw [segment, hcontents]
      refine ⟨_, rfl, ?_, ?_, ofRights_segment _, ?_, hsome, hbounds⟩
      · apply UInt64.toNat_ofNat_of_lt'
        simp only [UInt64.size]
        omega
      · apply UInt64.toNat_ofNat_of_lt'
        simp only [UInt64.size]
        omega
      · unfold contents? at hcontents
        split at hcontents
        next => exact (Option.some.inj hcontents).symm
        next => cases hcontents

theorem Describes.canonical {h : ProgramHeader} {file : ByteArray} {s : Segment}
    (hdescribes : h.Describes file s) {p : Nat} (hp : p ∈ h.pages) : p ∈ canonicalPages := by
  have hhalf := hdescribes.half
  have hlow := hp.1
  have hhigh := hp.2
  change p < 2 ^ 35 ∨ 2 ^ 52 - 2 ^ 35 ≤ p ∧ p < 2 ^ 52
  omega

end ProgramHeader

/-- The headers of the parts that go into memory, in the order of the table. -/
def File.loadable (parsed : File) : List ProgramHeader :=
  parsed.segments.filter ProgramHeader.IsPart

theorem map_fst_loadable (headers : List ProgramHeader) :
    (loadable headers).map Prod.fst = headers.filter ProgramHeader.IsPart := by
  have hfilter := List.filter_map (p := ProgramHeader.isLoadable) (f := Prod.fst)
    (l := headers.zipIdx)
  rw [List.zipIdx_map_fst] at hfilter
  refine hfilter.symm.trans (List.filter_congr fun h _ => ?_)
  rw [Bool.eq_iff_iff, ProgramHeader.isLoadable_iff, decide_eq_true_eq]

end Elf

section Parts

variable {parse : Elf.Parser} {file : ByteArray} {image : Executable}

/-- Each part of an image that passed its checks is found again. -/
theorem Executable.ofImage_eq_ok (himage : ofImage parse file = .ok image) :
    ∃ parsed segments, parse file = .ok parsed ∧
      List.Forall₂ (fun part s => part.1.segment file part.2 = .ok s) image.parts segments ∧
      List.Forall₂ (fun h s => h.Describes file s) parsed.loadable segments := by
  by_cases hmagic : Bytes.slice file 0 4 ≠ Elf.magic
  · rw [ofImage, if_pos hmagic] at himage
    cases himage
  · rw [ofImage, if_neg hmagic] at himage
    cases hparse : parse file with
    | error e =>
        rw [hparse] at himage
        cases e <;> cases himage
    | ok parsed =>
        rw [hparse] at himage
        change (if parsed.kind ≠ Elf.executableKind then _ else _) = _ at himage
        by_cases hkind : parsed.kind ≠ Elf.executableKind
        · rw [if_pos hkind] at himage
          cases himage
        · rw [if_neg hkind] at himage
          by_cases hversion : parsed.version ≠ Elf.currentVersion
          · rw [if_pos hversion] at himage
            cases himage
          · rw [if_neg hversion] at himage
            obtain ⟨_, hchecks, himage⟩ := Checked.bind_eq_ok.mp himage
            obtain rfl := Except.ok.inj himage
            have hfound : ∀ part ∈ Elf.loadable parsed.segments,
                ∃ s, part.1.segment file part.2 = .ok s ∧ part.1.Describes file s := by
              intro part hpart
              have hloadable : part.1.isLoadable = true := (List.mem_filter.mp hpart).2
              exact Elf.ProgramHeader.exists_segment ((part.1.isLoadable_iff).mp hloadable)
                (Checked.forM_eq_ok.mp hchecks part hpart)
            obtain ⟨segments, hsegments⟩ := Checked.exists_mapM_eq_ok fun part hpart =>
              (hfound part hpart).imp fun _ => And.left
            have hall := Checked.forall₂_of_mapM_eq_ok hsegments
            refine ⟨parsed, segments, rfl, hall, ?_⟩
            rw [Elf.File.loadable, ← Elf.map_fst_loadable, List.forall₂_map_left_iff]
            refine ((List.forall₂_and_left _ _).mpr ⟨fun _ => id, hall⟩).imp ?_
            rintro part s ⟨hpart, hs⟩
            obtain ⟨s', hs', hdescribes⟩ := hfound part hpart
            obtain rfl := Except.ok.inj (hs.symm.trans hs')
            exact hdescribes

/-- Parts that are found go the way of their segments. -/
theorem forM_loadPart {σ : Type} (place : Segment → Action σ MapError Unit)
    {parts : List (Elf.ProgramHeader × Nat)} {segments : List Segment}
    (hall : List.Forall₂ (fun part s => part.1.segment file part.2 = .ok s) parts segments) :
    parts.forM (loadPart place file) =
      segments.forM fun s => Action.mapError .unmappable (place s) := by
  induction hall with
  | nil => rfl
  | @cons part s parts segments hs _ ih =>
      change (loadPart place file part >>= fun _ => parts.forM (loadPart place file)) = _
      rw [ih, loadPart, hs]
      rfl

theorem loadBy_of_ofImage_error {σ : Type} (place : Segment → Action σ MapError Unit)
    {e : ImageError} (himage : Executable.ofImage parse file = .error e) :
    loadBy place parse file = Action.fail (.rejected e) := by
  rw [loadBy, himage]

/-- Once the checks have passed, a load is a matter of placing a segment for each part. -/
theorem loadBy_of_ofImage_ok (himage : Executable.ofImage parse file = .ok image) :
    ∃ parsed segments, parse file = .ok parsed ∧
      List.Forall₂ (fun h s => h.Describes file s) parsed.loadable segments ∧
      ∀ {σ : Type} (place : Segment → Action σ MapError Unit),
        loadBy place parse file = do
          segments.forM fun s => Action.mapError .unmappable (place s)
          return image.entry := by
  obtain ⟨parsed, segments, hparse, hfound, hall⟩ := Executable.ofImage_eq_ok himage
  refine ⟨parsed, segments, hparse, hall, fun place => ?_⟩
  rw [loadBy, himage, ← forM_loadPart place hfound]

end Parts

end BootMemory
