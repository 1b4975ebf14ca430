import BootMemory.Proofs.Primitives
import BootMemory.Proofs.Survey

/-!
# What a new allocator holds free

All bits are set first, then those of the usable page ranges are cleared, and frame 0 is set
aside again.  What remains free are the frames that lie in a usable region as a whole, all but
frame 0.
-/

namespace BootMemory

theorem Bitmap.taken_fill {b : Bitmap} {size : Nat} (hroom : b.origin + size ≤ b.store.size)
    {i : Nat} (hi : i < size * 8) : (b.fill size).taken i = true := by
  have hindex : b.origin + i / 8 - b.origin < size := by
    omega
  have hbyte : Bytes.byteAt (b.fill size).store ((b.fill size).byteIndex i) = 0xFF := by
    change Bytes.byteAt (Bytes.overwrite b.store b.origin _) (b.origin + i / 8) = 0xFF
    rw [Bytes.byteAt_overwrite _ _ _ _ (by rwa [List.length_replicate]),
      if_pos (Nat.le_add_right _ _), List.getElem?_replicate, if_pos hindex, Option.getD_some]
  have hall : ∀ k < 8, (0xFF : UInt8).toBitVec.getLsbD k = true := by
    decide
  rw [taken_eq_getLsbD, hbyte]
  exact hall _ (Nat.mod_lt i (by decide))

theorem Bitmap.mk_store {b : Bitmap} {origin : Nat} (horigin : b.origin = origin) :
    (⟨b.store, origin⟩ : Bitmap) = b := by
  rw [← horigin]

namespace FrameAllocator

section Clearing

variable {base : PhysAddr} {count : Nat}

/-- What makes it right to clear the bits of a range: it is whole and lies inside the bounds. -/
structure Clearable (base : PhysAddr) (count : Nat) (range : PageRange) : Prop where
  whole : range.Whole
  below : base.word.toNat ≤ range.start.toNat
  above : range.stop.toNat ≤ base.word.toNat + count * 4096

theorem clearRange_eq {range : PageRange} (hrange : Clearable base count range) (b : Bitmap) :
    clearRange base b range = b.markRange ((range.start.toNat - base.word.toNat) / 4096)
      ((range.stop.toNat - range.start.toNat) / 4096) false := by
  rw [clearRange, UInt64.toNat_div, toNat_pageSize, Word.toNat_sub hrange.below, UInt64.toNat_div,
    toNat_pageSize, PageRange.size, Word.toNat_sub (le_of_lt hrange.whole.nonempty)]

theorem taken_clearRange (hbase : base.word.toNat % 4096 = 0) {range : PageRange}
    (hrange : Clearable base count range) {b : Bitmap}
    (hroom : b.origin + (count + 7) / 8 ≤ b.store.size) (i : Nat) :
    (clearRange base b range).taken i = false ↔
      base.page + i ∈ range.frames ∨ b.taken i = false := by
  rw [clearRange_eq hrange]
  obtain ⟨⟨hstart, hstop, hnonempty⟩, hbelow, habove⟩ := hrange
  rw [Bitmap.taken_markRange]
  · have hin : ((range.start.toNat - base.word.toNat) / 4096 ≤ i ∧
        i < (range.start.toNat - base.word.toNat) / 4096 +
          (range.stop.toNat - range.start.toNat) / 4096) ↔ base.page + i ∈ range.frames := by
      rw [PageRange.frames, Set.mem_Ico, Addr.page]
      omega
    by_cases hmem : base.page + i ∈ range.frames
    · rw [if_pos (hin.mpr hmem)]
      simp [hmem]
    · rw [if_neg (fun h => hmem (hin.mp h))]
      simp [hmem]
  · right
    unfold Bitmap.byteIndex
    omega

theorem foldl_clearRange (hbase : base.word.toNat % 4096 = 0) {ranges : List PageRange}
    (hranges : ∀ range ∈ ranges, Clearable base count range) {b : Bitmap}
    (hroom : b.origin + (count + 7) / 8 ≤ b.store.size) :
    (ranges.foldl (clearRange base) b).origin = b.origin ∧
      (ranges.foldl (clearRange base) b).store.size = b.store.size ∧
      ∀ i, (ranges.foldl (clearRange base) b).taken i = false ↔
        (∃ range ∈ ranges, base.page + i ∈ range.frames) ∨ b.taken i = false := by
  induction ranges generalizing b with
  | nil => simp
  | cons range rest ih =>
      have horigin : (clearRange base b range).origin = b.origin := Bitmap.origin_markRange ..
      have hsize : (clearRange base b range).store.size = b.store.size :=
        Bitmap.size_store_markRange ..
      obtain ⟨hrestOrigin, hrestSize, hrestTaken⟩ :=
        ih (fun r hr => hranges r (List.mem_cons_of_mem range hr)) (b := clearRange base b range)
          (by rwa [horigin, hsize])
      refine ⟨hrestOrigin.trans horigin, hrestSize.trans hsize, ?_⟩
      intro i
      rw [List.foldl_cons, hrestTaken,
        taken_clearRange hbase (hranges range List.mem_cons_self) hroom]
      simp only [List.mem_cons, exists_eq_or_imp]
      rw [← or_assoc, or_comm (a := ∃ r ∈ rest, _)]

theorem byteAt_foldl_clearRange {ranges : List PageRange}
    (hranges : ∀ range ∈ ranges, Clearable base count range) {b : Bitmap} {i : Nat}
    (houtside : i < b.origin ∨ b.origin + (count + 7) / 8 ≤ i) :
    Bytes.byteAt (ranges.foldl (clearRange base) b).store i = Bytes.byteAt b.store i := by
  induction ranges generalizing b with
  | nil => rfl
  | cons range rest ih =>
      have hrange := hranges range List.mem_cons_self
      have hbelow := hrange.below
      have habove := hrange.above
      have hnonempty := hrange.whole.nonempty
      have horigin : (clearRange base b range).origin = b.origin := Bitmap.origin_markRange ..
      rw [List.foldl_cons, ih (fun r hr => hranges r (List.mem_cons_of_mem range hr))
        (by rwa [horigin]), clearRange_eq hrange]
      exact b.byteAt_markRange_of_outside false (by omega) houtside

end Clearing

/-- An allocator as it is built over a bitmap. -/
structure Built (map : MemoryMap) (bitmap : Bitmap) (a : FrameAllocator) : Prop where
  fits : a.Fits
  origin : a.bitmap.origin = bitmap.origin
  size : a.bitmap.store.size = bitmap.store.size
  cursor : a.cursor = 0
  free : a.freeFrames = {f | f ≠ 0 ∧ ∃ r ∈ map.usable, r.Holds f}

/-- Frame 0 is not free in the end, whether it was offered or not, and nothing else is changed. -/
theorem freeFrames_withoutFrameZero {a : FrameAllocator} (hfits : a.Fits)
    (hsome : 0 < a.frameCount) : a.withoutFrameZero.freeFrames = a.freeFrames \ {0} := by
  have hzero : a.firstFrame.index = 0 ↔ a.first = 0 := by
    rw [← UInt64.toNat_inj]
    rfl
  unfold withoutFrameZero
  by_cases hoffers : a.offersFrameZero = true
  · rw [if_pos hoffers]
    rw [offersFrameZero, Bool.and_eq_true, beq_iff_eq, hzero] at hoffers
    have hmarked : (a.marked 0 1 true).freeFrames = _ := freeFrames_marked_true hfits (by omega)
    have hsingle : Set.Ico (a.first + 0) (a.first + 0 + 1) = {0} := by
      ext f
      rw [Set.mem_Ico, Set.mem_singleton_iff]
      omega
    rw [hsingle] at hmarked
    exact hmarked
  · rw [if_neg hoffers]
    rw [offersFrameZero, Bool.and_eq_true, beq_iff_eq, hzero, Bool.not_eq_true'] at hoffers
    symm
    apply Set.sdiff_singleton_eq_self
    rintro ⟨⟨hlow, _⟩, htaken⟩
    have hfirst : a.first = 0 := Nat.le_zero.mp hlow
    rw [hfirst] at htaken
    exact hoffers ⟨hfirst, htaken⟩

theorem Fits.withoutFrameZero {a : FrameAllocator} (hfits : a.Fits) : a.withoutFrameZero.Fits := by
  unfold FrameAllocator.withoutFrameZero
  split
  · exact ⟨by simpa using hfits.bits, hfits.frames⟩
  · exact hfits

theorem withoutFrameZero_bitmap (a : FrameAllocator) :
    a.withoutFrameZero.bitmap.origin = a.bitmap.origin ∧
      a.withoutFrameZero.bitmap.store.size = a.bitmap.store.size ∧
      a.withoutFrameZero.frameCount = a.frameCount ∧
      a.withoutFrameZero.cursor = a.cursor := by
  unfold withoutFrameZero
  split
  · exact ⟨Bitmap.origin_mark .., Bitmap.size_store_mark .., rfl, rfl⟩
  · exact ⟨rfl, rfl, rfl, rfl⟩

section Build

variable {map : MemoryMap} {survey : MemorySurvey} {count size : Word} {bitmap : Bitmap}
  {ranges : List PageRange}

/-- The allocator with the usable ranges cleared, before frame 0 is looked at. -/
def offering (survey : MemorySurvey) (count size : Word) (bitmap : Bitmap)
    (ranges : List PageRange) : FrameAllocator :=
  { allTaken survey count size bitmap with
    bitmap := ranges.foldl (clearRange survey.base) (bitmap.fill size.toNat) }

@[simp] theorem first_offering :
    (offering survey count size bitmap ranges).first = survey.base.page :=
  Frame.toNat_containing survey.base

@[simp] theorem frameCount_offering :
    (offering survey count size bitmap ranges).frameCount = count.toNat := rfl

section Offering

variable (hbase : survey.base.word.toNat % 4096 = 0)
  (hclearable : ∀ range ∈ ranges, Clearable survey.base count.toNat range)
  (hroom : bitmap.origin + size.toNat ≤ bitmap.store.size)
  (hbytes : size.toNat = (count.toNat + 7) / 8)

include hbase hclearable hroom hbytes

theorem bitmap_offering :
    (offering survey count size bitmap ranges).bitmap.origin = bitmap.origin ∧
      (offering survey count size bitmap ranges).bitmap.store.size = bitmap.store.size ∧
      ∀ i, (offering survey count size bitmap ranges).taken i = false ↔
        (∃ range ∈ ranges, survey.base.page + i ∈ range.frames) ∨
          (bitmap.fill size.toNat).taken i = false := by
  have hfilled : (bitmap.fill size.toNat).store.size = bitmap.store.size :=
    Bytes.size_overwrite ..
  obtain ⟨horigin, hstore, htaken⟩ := foldl_clearRange (b := bitmap.fill size.toNat) hbase
    hclearable (by rw [hfilled, ← hbytes]; exact hroom)
  exact ⟨horigin, hstore.trans hfilled, htaken⟩

theorem fits_offering (hlast : survey.base.page + count.toNat ≤ 2 ^ 52) :
    (offering survey count size bitmap ranges).Fits := by
  obtain ⟨horigin, hstore, _⟩ := bitmap_offering hbase hclearable hroom hbytes
  constructor
  · rw [horigin, hstore, frameCount_offering, ← hbytes]
    exact hroom
  · rw [first_offering, frameCount_offering]
    exact hlast

theorem freeFrames_offering :
    (offering survey count size bitmap ranges).freeFrames =
      {f | ∃ range ∈ ranges, f ∈ range.frames} := by
  obtain ⟨_, _, htaken⟩ := bitmap_offering hbase hclearable hroom hbytes
  ext f
  rw [mem_freeFrames, first_offering, frameCount_offering, htaken]
  constructor
  · rintro ⟨⟨hlow, hhigh⟩, hcleared | hfull⟩
    · rwa [Nat.add_sub_cancel' hlow] at hcleared
    · have hset : (bitmap.fill size.toNat).taken (f - survey.base.page) = true :=
        Bitmap.taken_fill hroom (by omega)
      rw [hset] at hfull
      contradiction
  · rintro ⟨range, hrange, hlow, hhigh⟩
    obtain ⟨⟨hstart, hstop, _⟩, hbelow, habove⟩ := hclearable range hrange
    have hpage : survey.base.page * 4096 = survey.base.word.toNat := by
      rw [Addr.page]
      omega
    have htracked : survey.base.page ≤ f ∧ f < survey.base.page + count.toNat := by
      omega
    refine ⟨htracked, .inl ⟨range, hrange, ?_⟩⟩
    rw [Nat.add_sub_cancel' htracked.1]
    exact ⟨hlow, hhigh⟩

end Offering

/-- A survey with all that the builder of an allocator takes from it. -/
structure Surveyed (map : MemoryMap) (survey : MemorySurvey) (count size : Word)
    (ranges : List PageRange) : Prop where
  surveyed : MemorySurvey.ofMap map = .ok survey
  counted : survey.frameCount = .ok count
  sized : survey.bitmapBytes = .ok size
  pages : map.usablePages = .ok ranges
  bounds : survey.Bounds ranges
  top : survey.top.word.toNat = survey.base.word.toNat + count.toNat * 4096
  bytes : size.toNat = (count.toNat + 7) / 8
  clearable : ∀ range ∈ ranges, Clearable survey.base count.toNat range

theorem exists_surveyed (hsurvey : MemorySurvey.ofMap map = .ok survey)
    (hsize : survey.bitmapBytes = .ok size) :
    ∃ count ranges, Surveyed map survey count size ranges := by
  obtain ⟨ranges, hpages, hbounds⟩ := MemorySurvey.ofMap_eq_ok hsurvey
  obtain ⟨count, hcount, hbytes⟩ := MemorySurvey.bitmapBytes_eq_ok hsize
  have hwhole := (MemoryMap.usablePages_eq_ok hpages).1
  have hcountEq := MemorySurvey.frameCount_eq_ok hcount hbounds.nonempty
  have hbase := hbounds.base
  have htop := hbounds.top
  have horder := hbounds.nonempty
  have hspan : survey.top.word.toNat = survey.base.word.toNat + count.toNat * 4096 := by
    omega
  refine ⟨count, ranges, hsurvey, hcount, hsize, hpages, hbounds, hspan, hbytes, ?_⟩
  intro range hrange
  exact ⟨hwhole range hrange, hbounds.below range hrange, hspan ▸ hbounds.above range hrange⟩

/-- The bitmap is filled, cleared range by range, and marked once more. -/
theorem build_run (hsurveyed : Surveyed map survey count size ranges) (bitmap : Bitmap)
    (log : Array LogEvent) :
    ∃ log', build map survey bitmap log =
      .ok (offering survey count size bitmap ranges).withoutFrameZero log' := by
  rw [build, hsurveyed.counted, Action.bind_ok (Action.lift_ok _ log), hsurveyed.sized,
    Action.bind_ok (Action.lift_ok _ log), hsurveyed.pages, Action.bind_ok (Action.lift_ok _ log)]
  split
  · exact ⟨_, rfl⟩
  · exact ⟨_, rfl⟩

/-- The bitmap has a bit for every frame between the bounds. -/
theorem build_eq_ok (hsurvey : MemorySurvey.ofMap map = .ok survey)
    (hsize : survey.bitmapBytes = .ok size)
    (hroom : bitmap.origin + size.toNat ≤ bitmap.store.size) {a : FrameAllocator}
    {log log' : Array LogEvent} (hbuild : build map survey bitmap log = .ok a log') :
    Built map bitmap a ∧ (a.frameCount + 7) / 8 = size.toNat := by
  obtain ⟨count, ranges, hsurveyed⟩ := exists_surveyed hsurvey hsize
  have hframes := (MemoryMap.usablePages_eq_ok hsurveyed.pages).2
  have hbase := hsurveyed.bounds.base
  have horder := hsurveyed.bounds.nonempty
  have htop := hsurveyed.top
  have hlast : survey.base.page + count.toNat ≤ 2 ^ 52 := by
    have hlt := survey.top.word.toNat_lt
    rw [Addr.page]
    omega
  have hfits := fits_offering hbase hsurveyed.clearable hroom hsurveyed.bytes hlast
  obtain ⟨horigin, hstore, _⟩ :=
    bitmap_offering hbase hsurveyed.clearable hroom hsurveyed.bytes
  obtain ⟨hzeroOrigin, hzeroSize, hzeroCount, hzeroCursor⟩ :=
    (offering survey count size bitmap ranges).withoutFrameZero_bitmap
  obtain ⟨_, hrun⟩ := build_run hsurveyed bitmap log
  obtain ⟨rfl, _⟩ := EStateM.Result.ok.inj (hbuild.symm.trans hrun)
  refine ⟨⟨hfits.withoutFrameZero, hzeroOrigin.trans horigin, hzeroSize.trans hstore,
    hzeroCursor, ?_⟩, ?_⟩
  · rw [freeFrames_withoutFrameZero hfits (by rw [frameCount_offering]; omega),
      freeFrames_offering hbase hsurveyed.clearable hroom hsurveyed.bytes]
    ext f
    simp [hframes f, and_comm]
  · rw [hzeroCount, hsurveyed.bytes]
    rfl

theorem survey_eq_ok {log log' : Array LogEvent} (hrun : map.survey log = .ok survey log') :
    MemorySurvey.ofMap map = .ok survey := by
  unfold MemoryMap.survey at hrun
  cases hfound : MemorySurvey.ofMap map with
  | error failure =>
      rw [hfound] at hrun
      cases hrun
  | ok found =>
      rw [hfound] at hrun
      obtain ⟨bytes, log₁, _, hreport⟩ := Action.bind_eq_ok.mp hrun
      obtain ⟨_, log₂, _, hpure⟩ := Action.bind_eq_ok.mp hreport
      rw [(EStateM.Result.ok.inj hpure).1]

theorem survey_run (hsurvey : MemorySurvey.ofMap map = .ok survey)
    (hsize : survey.bitmapBytes = .ok size) (log : Array LogEvent) :
    map.survey log = .ok survey (log.push (.surveyed survey size)) := by
  rw [MemoryMap.survey, hsurvey]
  simp only [hsize]
  rfl

/-- An allocator is built over any storage that has room for its bits. -/
theorem overStorage_run (hsurveyed : Surveyed map survey count size ranges) {storage : ByteArray}
    (hroom : size.toNat ≤ storage.size) (log : Array LogEvent) :
    ∃ log', overStorage map storage log =
      .ok (offering survey count size ⟨storage, 0⟩ ranges).withoutFrameZero log' := by
  rw [overStorage, Action.bind_ok (survey_run hsurveyed.surveyed hsurveyed.sized log),
    hsurveyed.sized, Action.bind_ok (Action.lift_ok _ _)]
  simp only [if_neg (Nat.not_lt.mpr hroom)]
  exact build_run hsurveyed _ _

theorem overStorage_eq_ok {storage : ByteArray} {a : FrameAllocator} {log log' : Array LogEvent}
    (hrun : overStorage map storage log = .ok a log') : Built map ⟨storage, 0⟩ a := by
  obtain ⟨survey, log₁, hsurvey, hrest⟩ := Action.bind_eq_ok.mp hrun
  obtain ⟨size, log₂, hlift, hbuild⟩ := Action.bind_eq_ok.mp hrest
  obtain ⟨hsize, rfl⟩ := Action.lift_eq_ok hlift
  by_cases hsmall : storage.size < size.toNat
  · simp only [if_pos hsmall] at hbuild
    cases hbuild
  · simp only [if_neg hsmall] at hbuild
    have hroom : 0 + size.toNat ≤ storage.size := by
      omega
    exact (build_eq_ok (survey_eq_ok hsurvey) hsize hroom hbuild).1

end Build

end FrameAllocator

/-- The frames that hold bits of the bitmap. -/
def Layout.bitmapFrames (l : Layout) : Set Nat :=
  {f | ∃ a, a / 4096 = f ∧ l.holdsBits a = true}

/-- Setting aside the pages from a page start on sets aside the frames of the bytes there. -/
theorem mem_Ico_pages_iff {location : PhysAddr} (hstart : location.word.toNat % 4096 = 0)
    {size f : Nat} :
    f ∈ Set.Ico location.page (location.page + (size + 4095) / 4096) ↔
      ∃ b, b / 4096 = f ∧ location.word.toNat ≤ b ∧ b < location.word.toNat + size := by
  rw [Set.mem_Ico, Addr.page]
  constructor
  · rintro ⟨hlow, hhigh⟩
    exact ⟨f * 4096, by omega, by omega, by omega⟩
  · rintro ⟨b, rfl, hlow, hhigh⟩
    omega

theorem Layout.bitmapFrames_eq {l : Layout} {location : PhysAddr} {size : Nat}
    (hresident : l.resident = true) (horigin : l.base + l.origin = location.word.toNat)
    (hsize : (l.frameCount + 7) / 8 = size) (hstart : location.word.toNat % 4096 = 0) :
    l.bitmapFrames = Set.Ico location.page (location.page + (size + 4095) / 4096) := by
  ext f
  rw [mem_Ico_pages_iff hstart, Layout.bitmapFrames, Set.mem_ofPred_eq]
  simp only [Layout.holdsBits, hresident, horigin, hsize, Bool.true_and, Bool.and_eq_true,
    decide_eq_true_eq]

namespace MemorySurvey

theorem firstFit_startsPage {required : Word} {regions : List MemoryRegion} {location : PhysAddr}
    (hfit : firstFit required regions = .ok (some location)) :
    location.word.toNat % 4096 = 0 := by
  induction regions with
  | nil => cases hfit
  | cons r rest ih =>
      obtain ⟨range, hrange, hchoice⟩ := Checked.bind_eq_ok.mp hfit
      split at hchoice
      next =>
        have hstart := (MemoryRegion.interior_eq_ok hrange).1
        rw [← Option.some.inj (Except.ok.inj hchoice)]
        change range.start.toNat % 4096 = 0
        omega
      next => exact ih hchoice

theorem bitmapPlace_startsPage {survey : MemorySurvey} {map : MemoryMap} {location : PhysAddr}
    (hplace : survey.bitmapPlace map = .ok location) : location.word.toNat % 4096 = 0 := by
  obtain ⟨size, _, hrest⟩ := Checked.bind_eq_ok.mp hplace
  obtain ⟨required, _, hrest⟩ := Checked.bind_eq_ok.mp hrest
  obtain ⟨found, hfound, hrest⟩ := Checked.bind_eq_ok.mp hrest
  cases found with
  | none => cases hrest
  | some place =>
      rw [← Except.ok.inj hrest]
      exact firstFit_startsPage (Checked.mapError_eq_ok hfound)

end MemorySurvey

namespace Machine

variable {memory : Memory} {levels : PagingDepth} {map : MemoryMap} {m : Machine}

/-- A machine as it is built over a memory map: its allocator has room for its bits, and free are
the frames that lie in a usable region as a whole, all but frame 0 and those of the bitmap. -/
structure Built (memory : Memory) (map : MemoryMap) (m : Machine) : Prop where
  fits : m.allocator.Fits
  base : m.layout.base = memory.base.word.toNat
  size : m.layout.size = memory.size
  cursor : m.allocator.cursor = 0
  free : m.allocator.freeFrames =
    {f | f ≠ 0 ∧ f ∉ m.layout.bitmapFrames ∧ ∃ r ∈ map.usable, r.Holds f}
  active : m.activeRoot = ⟨0⟩

/-- What a machine over storage of its own is once its allocator is built. -/
theorem overStorage_run (memory : Memory) (levels : PagingDepth) {storage : ByteArray}
    {a : FrameAllocator} {log log' : Array LogEvent}
    (hbuild : FrameAllocator.overStorage map storage log = .ok a log') :
    ∃ n, overStorage memory levels map storage log = .ok n log' ∧ n.allocator = a ∧
      n = {
        memory, levels
        home := .separate a.bitmap.store
        firstFrame := a.firstFrame
        frameCount := a.frameCount
        cursor := a.cursor
        activeRoot := ⟨0⟩
        invalidated := #[]
        log := n.log } := by
  refine ⟨_, Action.bind_ok hbuild, ?_, rfl⟩
  simp only [allocator, bitmap, Bitmap.mk_store (FrameAllocator.overStorage_eq_ok hbuild).origin]

theorem overStorage_eq_ok {storage : ByteArray} {log log' : Array LogEvent}
    (hrun : overStorage memory levels map storage log = .ok m log') : Built memory map m := by
  obtain ⟨a, log₁, hbuild, hrest⟩ := Action.bind_eq_ok.mp hrun
  have hbuilt := FrameAllocator.overStorage_eq_ok hbuild
  obtain ⟨n, hn, hallocator, hfields⟩ := overStorage_run memory levels hbuild
  obtain rfl := (EStateM.Result.ok.inj (hrun.symm.trans hn)).1
  have hnone : ∀ f, f ∉ m.layout.bitmapFrames := by
    rintro f ⟨b, _, hbits⟩
    rw [Layout.holdsBits, show m.layout.resident = false by rw [hfields]; rfl] at hbits
    cases hbits
  refine ⟨hallocator ▸ hbuilt.fits, ?_, ?_, hallocator ▸ hbuilt.cursor, ?_, ?_⟩
  · rw [hfields]
    rfl
  · rw [hfields]
    rfl
  · rw [hallocator, hbuilt.free]
    ext f
    simp [hnone]
  · rw [hfields]

/-- How a machine came about that keeps its own bitmap: its bits were written into memory, and the
frames that hold them were set aside. -/
structure Hosting (memory : Memory) (levels : PagingDepth) (map : MemoryMap) (m : Machine) where
  survey : MemorySurvey
  size : Word
  location : PhysAddr
  offset : Nat
  pages : Word
  /-- The allocator before it set the frames of its bitmap aside. -/
  offered : FrameAllocator
  kept : FrameAllocator
  surveyed : MemorySurvey.ofMap map = .ok survey
  sized : survey.bitmapBytes = .ok size
  placed : survey.bitmapPlace map = .ok location
  located : memory.offset location = .ok offset
  room : offset + size.toNat ≤ memory.bytes.size
  built : ∃ log log', FrameAllocator.build map survey ⟨memory.bytes, offset⟩ log = .ok offered log'
  counted : Word.pageCount size = .ok pages
  reserved : offered.reserve location pages = .ok kept
  machine : m = {
    memory := { memory with bytes := kept.bitmap.store }
    levels
    home := .resident offset
    firstFrame := kept.firstFrame
    frameCount := kept.frameCount
    cursor := kept.cursor
    activeRoot := ⟨0⟩
    invalidated := #[]
    log := m.log }

theorem selfHosted_parts {log log' : Array LogEvent}
    (hrun : selfHosted memory levels map log = .ok m log') :
    Nonempty (Hosting memory levels map m) := by
  obtain ⟨survey, log₁, hsurvey, hafterSurvey⟩ := Action.bind_eq_ok.mp hrun
  obtain ⟨size, log₂, hlift, hafterSize⟩ := Action.bind_eq_ok.mp hafterSurvey
  have hsize := (Action.lift_eq_ok hlift).1
  cases hplace : survey.bitmapPlace map with
  | error failure =>
      simp only [hplace] at hafterSize
      cases hafterSize
  | ok location =>
      simp only [hplace] at hafterSize
      obtain ⟨place, log₃, hpure, hafterPlace⟩ := Action.bind_eq_ok.mp hafterSize
      obtain rfl := (EStateM.Result.ok.inj hpure).1
      obtain ⟨offset, log₄, hlift, hafterOffset⟩ := Action.bind_eq_ok.mp hafterPlace
      have hoffset := (Action.lift_eq_ok hlift).1
      by_cases hsmall : memory.size < offset + size.toNat
      · simp only [if_pos hsmall] at hafterOffset
        cases hafterOffset
      · simp only [if_neg hsmall] at hafterOffset
        obtain ⟨a, log₅, hbuild, hafterBuild⟩ := Action.bind_eq_ok.mp hafterOffset
        obtain ⟨pages, log₆, hlift, hafterPages⟩ := Action.bind_eq_ok.mp hafterBuild
        have hpages := (Action.lift_eq_ok hlift).1
        obtain ⟨a', log₇, hlift, hafterReserve⟩ := Action.bind_eq_ok.mp hafterPages
        have hreserve := (Action.lift_eq_ok hlift).1
        obtain ⟨count, log₈, _, hafterCount⟩ := Action.bind_eq_ok.mp hafterReserve
        obtain ⟨_, log₉, _, hreturn⟩ := Action.bind_eq_ok.mp hafterCount
        obtain rfl := (EStateM.Result.ok.inj hreturn).1
        exact ⟨survey, size, location, offset, pages, a, a', FrameAllocator.survey_eq_ok hsurvey,
          hsize, hplace, hoffset, Nat.not_lt.mp hsmall, ⟨_, _, hbuild⟩, hpages, hreserve, rfl⟩

namespace Hosting

variable (hosting : Hosting memory levels map m)

include hosting

theorem layout_base : m.layout.base = memory.base.word.toNat :=
  congrArg (fun n : Machine => n.layout.base) hosting.machine

theorem layout_resident : m.layout.resident = true :=
  congrArg (fun n : Machine => n.layout.resident) hosting.machine

theorem layout_origin : m.layout.origin = hosting.offset :=
  congrArg (fun n : Machine => n.layout.origin) hosting.machine

theorem offered_built :
    FrameAllocator.Built map ⟨memory.bytes, hosting.offset⟩ hosting.offered ∧
      (hosting.offered.frameCount + 7) / 8 = hosting.size.toNat := by
  obtain ⟨_, _, hbuild⟩ := hosting.built
  exact FrameAllocator.build_eq_ok hosting.surveyed hosting.sized hosting.room hbuild

theorem kept_eq :
    ∃ start length, start + length ≤ hosting.offered.frameCount ∧
      hosting.kept = hosting.offered.marked start length true ∧
      hosting.kept.freeFrames = hosting.offered.freeFrames \
        Set.Ico hosting.location.page (hosting.location.page + hosting.pages.toNat) :=
  FrameAllocator.reserve_eq_ok hosting.offered_built.1.fits hosting.reserved

theorem frameCount_kept : hosting.kept.frameCount = hosting.offered.frameCount := by
  obtain ⟨_, _, _, hkept, _⟩ := hosting.kept_eq
  rw [hkept]
  rfl

theorem bitmap_kept :
    hosting.kept.bitmap.origin = hosting.offset ∧
      hosting.kept.bitmap.store.size = memory.bytes.size := by
  have hbuilt := hosting.offered_built.1
  obtain ⟨_, _, _, hkept, _⟩ := hosting.kept_eq
  rw [hkept]
  exact ⟨(Bitmap.origin_markRange ..).trans hbuilt.origin,
    (Bitmap.size_store_markRange ..).trans hbuilt.size⟩

theorem allocator_eq : m.allocator = hosting.kept := by
  refine (congrArg allocator hosting.machine).trans ?_
  simp only [allocator, bitmap, Bitmap.mk_store hosting.bitmap_kept.1]

theorem size_eq : (m.frameCount + 7) / 8 = hosting.size.toNat := by
  have hcount : m.frameCount = hosting.kept.frameCount :=
    congrArg FrameAllocator.frameCount hosting.allocator_eq
  rw [hcount, hosting.frameCount_kept]
  exact hosting.offered_built.2

/-- The bitmap begins where it was placed. -/
theorem base_add_origin : m.layout.base + m.layout.origin = hosting.location.word.toNat := by
  obtain ⟨hlow, _, hoffset⟩ := Memory.offset_of_eq_ok hosting.located
  rw [hosting.layout_base, hosting.layout_origin]
  omega

theorem bitmapFrames_eq :
    m.layout.bitmapFrames =
      Set.Ico hosting.location.page (hosting.location.page + hosting.pages.toNat) := by
  rw [Word.toNat_pageCount hosting.counted]
  exact Layout.bitmapFrames_eq hosting.layout_resident hosting.base_add_origin hosting.size_eq
    (MemorySurvey.bitmapPlace_startsPage hosting.placed)

end Hosting

/-- A machine that keeps its own bitmap set aside the frames that hold it. -/
theorem selfHosted_eq_ok {log log' : Array LogEvent}
    (hrun : selfHosted memory levels map log = .ok m log') : Built memory map m := by
  obtain ⟨hosting⟩ := selfHosted_parts hrun
  have hbuilt := hosting.offered_built.1
  obtain ⟨start, length, _, hkept, hfree⟩ := hosting.kept_eq
  refine ⟨?_, hosting.layout_base, ?_, ?_, ?_, ?_⟩
  · rw [hosting.allocator_eq, hkept]
    exact hbuilt.fits.marked
  · exact (congrArg (fun n : Machine => n.layout.size) hosting.machine).trans hosting.bitmap_kept.2
  · rw [hosting.allocator_eq, hkept]
    exact hbuilt.cursor
  · rw [hosting.allocator_eq, hfree, hbuilt.free, hosting.bitmapFrames_eq]
    ext f
    constructor
    · rintro ⟨⟨hzero, hheld⟩, hbitmap⟩
      exact ⟨hzero, hbitmap, hheld⟩
    · rintro ⟨hzero, hbitmap, hheld⟩
      exact ⟨⟨hzero, hheld⟩, hbitmap⟩
  · exact congrArg activeRoot hosting.machine

/-- A machine whose allocator is just built. -/
inductive Booted : Machine → Prop
  | overStorage {memory : Memory} {levels : PagingDepth} {map : MemoryMap} {storage : ByteArray}
      {m : Machine} {log log' : Array LogEvent}
      (hrun : Machine.overStorage memory levels map storage log = .ok m log') : Booted m
  | selfHosted {memory : Memory} {levels : PagingDepth} {map : MemoryMap}
      {m : Machine} {log log' : Array LogEvent}
      (hrun : Machine.selfHosted memory levels map log = .ok m log') : Booted m

/-- Memory ends below the bits that an entry cannot hold, and every tracked frame is in it. -/
structure Spans (m : Machine) : Prop where
  below : m.memory.base.word.toNat + m.memory.size ≤ 2 ^ 52
  covers : ∀ f ∈ m.allocator.tracked, m.memory.base.word.toNat ≤ f * 4096 ∧
    f * 4096 + 4096 ≤ m.memory.base.word.toNat + m.memory.size

/-- A machine on which the memory system can work: the bitmap has a bit for each frame, and no
free frame holds a part of it. -/
structure WellFormed (m : Machine) : Prop where
  spans : m.Spans
  fits : m.allocator.Fits
  bitmap : ∀ f ∈ m.allocator.freeFrames, f ∉ m.layout.bitmapFrames

theorem Booted.exists_built (hbooted : m.Booted) : ∃ memory map, Built memory map m := by
  cases hbooted with
  | overStorage hrun => exact ⟨_, _, overStorage_eq_ok hrun⟩
  | selfHosted hrun => exact ⟨_, _, selfHosted_eq_ok hrun⟩

theorem Booted.wellFormed (hbooted : m.Booted) (hspans : m.Spans) : m.WellFormed := by
  obtain ⟨memory, map, hbuilt⟩ := hbooted.exists_built
  refine ⟨hspans, hbuilt.fits, ?_⟩
  intro f hf
  rw [hbuilt.free] at hf
  exact hf.2.1

theorem Booted.activeRoot (hbooted : m.Booted) : m.activeRoot = ⟨0⟩ := by
  obtain ⟨memory, map, hbuilt⟩ := hbooted.exists_built
  exact hbuilt.active

theorem Booted.zero_not_mem (hbooted : m.Booted) : 0 ∉ m.allocator.freeFrames := by
  obtain ⟨memory, map, hbuilt⟩ := hbooted.exists_built
  rw [hbuilt.free]
  exact fun hzero => hzero.1 rfl

theorem Spans.plain (hspans : m.Spans) {f : Nat} (hf : f ∈ m.allocator.tracked)
    (hbeside : f ∉ m.layout.bitmapFrames) : m.layout.Plain f := by
  obtain ⟨habove, hbelow⟩ := hspans.covers f hf
  refine ⟨habove, hbelow, ?_⟩
  intro a ha
  rw [Bool.eq_false_iff]
  exact fun hbits => hbeside ⟨a, ha, hbits⟩

theorem WellFormed.sound (hwell : m.WellFormed) : m.view.Sound where
  bits := hwell.fits.bits
  frames := hwell.fits.frames
  memory := hwell.spans.below
  plain := fun f hf => hwell.spans.plain hf.1 (hwell.bitmap f hf)

/-- Work that keeps the layout and frees nothing keeps a machine well-formed. -/
theorem WellFormed.of_view {m' : Machine} (hwell : m.WellFormed) (hlayout : m'.layout = m.layout)
    (hfree : m'.view.free ⊆ m.view.free) : m'.WellFormed := by
  have hspans : m.layout.base + m.layout.size ≤ 2 ^ 52 ∧ ∀ f ∈ m.layout.tracked,
      m.layout.base ≤ f * 4096 ∧ f * 4096 + 4096 ≤ m.layout.base + m.layout.size :=
    ⟨hwell.spans.below, hwell.spans.covers⟩
  have hfits : m.layout.origin + (m.layout.frameCount + 7) / 8 ≤ m.layout.storeSize ∧
      m.layout.firstFrame + m.layout.frameCount ≤ 2 ^ 52 :=
    ⟨hwell.fits.bits, hwell.fits.frames⟩
  rw [← hlayout] at hspans hfits
  refine ⟨⟨hspans.1, hspans.2⟩, ⟨hfits.1, hfits.2⟩, ?_⟩
  intro f hf
  rw [hlayout]
  exact hwell.bitmap f (hfree hf)

end Machine

/-! ## A small machine -/

def sixteenFrames : MemoryMap :=
  ⟨[⟨⟨0⟩, 0x10000, .usable⟩], none⟩

/-- A machine with the frames of the map, whose allocator was just built over storage of its own. -/
def sixteenFrameMachine (memory : Memory) (log : Array LogEvent) : Machine where
  memory := memory
  home := .separate ⟨#[0x01, 0x00]⟩
  firstFrame := ⟨0⟩
  frameCount := 16
  cursor := 0
  levels := .four
  activeRoot := ⟨0⟩
  invalidated := #[]
  log := log

theorem booted_sixteenFrameMachine (memory : Memory) :
    ∃ log, (sixteenFrameMachine memory log).Booted := by
  have hrun : Machine.overStorage memory .four sixteenFrames ⟨#[0, 0]⟩ #[] =
      .ok (sixteenFrameMachine memory _) _ := rfl
  exact ⟨_, .overStorage hrun⟩

theorem spans_sixteenFrameMachine {memory : Memory} (hbase : memory.base = ⟨0⟩)
    (hsize : memory.size = 0x10000) (log : Array LogEvent) :
    (sixteenFrameMachine memory log).Spans := by
  have hzero : memory.base.word.toNat = 0 := congrArg (fun b => b.word.toNat) hbase
  have htracked : (sixteenFrameMachine memory log).allocator.tracked = Set.Ico 0 16 := rfl
  refine ⟨?_, ?_⟩
  · change memory.base.word.toNat + memory.size ≤ 2 ^ 52
    rw [hzero, hsize]
    decide
  · intro f hf
    rw [htracked] at hf
    change memory.base.word.toNat ≤ f * 4096 ∧
      f * 4096 + 4096 ≤ memory.base.word.toNat + memory.size
    have hlt : f < 16 := hf.2
    rw [hzero, hsize]
    omega

theorem free_sixteenFrameMachine (memory : Memory) (log : Array LogEvent) :
    Set.Ico 1 16 ⊆ (sixteenFrameMachine memory log).allocator.freeFrames := by
  rintro f ⟨hlow, hhigh⟩
  refine ⟨Set.mem_Ico.mpr ⟨Nat.zero_le f, hhigh⟩, ?_⟩
  change Bitmap.taken ⟨⟨#[0x01, 0x00]⟩, 0⟩ f = false
  interval_cases f <;> rfl

end BootMemory
