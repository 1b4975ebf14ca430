import BootMemory.Proofs.RehousedBoot

/-!
# The first bits of an allocator

An allocator is built in storage that is lent to it.  Here this is done in place, and the storage is
reached byte by byte through checks that fault outside the part that holds the bitmap.  No check
ever fails, so the bits come out as those of the allocator that is built all at once: clear are the
bits of the frames that lie in a usable region as a whole, all but frame 0, and no byte beside the
bitmap is touched.
-/

namespace BootMemory

/-! ## Building in place -/

/-- The storage that an allocator is built over, and what was reported. -/
structure Lent where
  storage : ByteArray
  log : Array LogEvent

abbrev LentM (α : Type) := Action Lent SetupError α

namespace Lent

def reporting {α : Type} (x : Reported SetupError α) : LentM α := fun l =>
  match x l.log with
  | .ok a log => .ok a { l with log }
  | .error failure log => .error failure { l with log }

/-- Sets all bits of the first `size` bytes, which have to be there. -/
def fill (size : Nat) : LentM Unit := do
  let l ← get
  if l.storage.size < size then Action.abort .writePastEnd
  else set { l with storage := Bytes.overwrite l.storage 0 (List.replicate size 0xFF) }

def readByte (size i : Nat) : LentM UInt8 := do
  let l ← get
  if i < size then return Bytes.byteAt l.storage i else Action.abort .readPastEnd

def writeByte (size i : Nat) (byte : UInt8) : LentM Unit := do
  let l ← get
  if i < size then set { l with storage := Bytes.put l.storage i byte }
  else Action.abort .writePastEnd

def test (size bit : Nat) : LentM Bool := do
  let byte ← readByte size (bit / 8)
  return byte &&& Bitmap.mask bit != 0

def mark (size bit : Nat) (value : Bool) : LentM Unit := do
  let byte ← readByte size (bit / 8)
  writeByte size (bit / 8)
    (if value then byte ||| Bitmap.mask bit else byte &&& ~~~(Bitmap.mask bit))

def markRange (size start : Nat) : (count : Nat) → (value : Bool) → LentM Unit
  | 0, _ => return ()
  | count + 1, value => do
      mark size start value
      markRange size (start + 1) count value

/-- Clears the bits of the frames in `range`, which has to lie at or above `base`. -/
def clearRange (base : PhysAddr) (size : Nat) (range : PageRange) : LentM Unit := do
  let before ← Word.sub range.start base.word
  let bytes ← Word.sub range.stop range.start
  markRange size (before / pageSize).toNat (bytes / pageSize).toNat false

/-- Sets frame 0 aside if `first` is frame 0 and its bit is clear. -/
def reserveFrameZero (size : Nat) (first : Frame) : LentM Unit := do
  if first.index = 0 then
    if ← test size 0 then return ()
    else
      reporting (report .frameZeroReserved)
      mark size 0 true
  else return ()

def build (map : MemoryMap) (survey : MemorySurvey) : LentM FrameAllocator := do
  let count ← survey.frameCount
  let size ← survey.bitmapBytes
  fill size.toNat
  let ranges ← map.usablePages
  ranges.forM (clearRange survey.base size.toNat)
  reserveFrameZero size.toNat (Frame.containing survey.base)
  let l ← get
  return {
    bitmap := ⟨l.storage, 0⟩
    firstFrame := Frame.containing survey.base
    frameCount := count.toNat
    cursor := 0 }

def overStorage (map : MemoryMap) : LentM FrameAllocator := do
  let survey ← reporting map.survey
  let required ← survey.bitmapBytes
  let l ← get
  if l.storage.size < required.toNat then
    Action.fail (.storageTooSmall required (UInt64.ofNat l.storage.size))
  else build map survey

/-- What becomes of the storage: the allocator that is built keeps it, and a failure gives it back
as it was. -/
def settled (storage : ByteArray) :
    EStateM.Result (Failure SetupError) (Array LogEvent) FrameAllocator →
      EStateM.Result (Failure SetupError) Lent FrameAllocator
  | .ok a log => .ok a ⟨a.bitmap.store, log⟩
  | .error failure log => .error failure ⟨storage, log⟩

/-! ## No check fails -/

section Runs

open BootMemory.Action

variable {b : Bitmap} {size bit : Nat} {log : Array LogEvent}

theorem test_run (horigin : b.origin = 0) (hbit : bit / 8 < size) :
    test size bit ⟨b.store, log⟩ = .ok (b.taken bit) ⟨b.store, log⟩ := by
  rw [test, readByte, bind_apply, bind_ok (get_apply _), if_pos hbit, Bitmap.taken,
    Bitmap.byteIndex, horigin, Nat.zero_add]
  rfl

theorem mark_run (horigin : b.origin = 0) (hbit : bit / 8 < size) (value : Bool) :
    mark size bit value ⟨b.store, log⟩ = .ok ⟨⟩ ⟨(b.mark bit value).store, log⟩ := by
  have hread : readByte size (bit / 8) ⟨b.store, log⟩ =
      .ok (Bytes.byteAt b.store (bit / 8)) ⟨b.store, log⟩ := by
    rw [readByte, bind_ok (get_apply _), if_pos hbit]
    rfl
  rw [mark, bind_ok hread, writeByte, bind_ok (get_apply _), if_pos hbit, Bitmap.mark,
    Bitmap.byteIndex, horigin, Nat.zero_add]
  rfl

theorem markRange_run (horigin : b.origin = 0) {start count : Nat}
    (hrange : start + count ≤ 8 * size) (value : Bool) :
    markRange size start count value ⟨b.store, log⟩ =
      .ok ⟨⟩ ⟨(b.markRange start count value).store, log⟩ := by
  induction count generalizing b start with
  | zero => rfl
  | succ count ih =>
      have hfirst : start / 8 < size := by
        omega
      have hrest : start + 1 + count ≤ 8 * size := by
        omega
      rw [markRange, bind_ok (mark_run horigin hfirst value)]
      exact ih (b := b.mark start value) horigin hrest

theorem clearRange_run {base : PhysAddr} {count : Nat} {range : PageRange}
    (hrange : FrameAllocator.Clearable base count range) (horigin : b.origin = 0)
    (hcount : count ≤ 8 * size) :
    clearRange base size range ⟨b.store, log⟩ =
      .ok ⟨⟩ ⟨(FrameAllocator.clearRange base b range).store, log⟩ := by
  have hbelow := hrange.below
  have habove := hrange.above
  have hnonempty := hrange.whole.nonempty
  rw [clearRange, Word.sub_eq_ok hbelow, bind_ok (lift_ok _ _), Word.sub_eq_ok hnonempty.le,
    bind_ok (lift_ok _ _), FrameAllocator.clearRange]
  apply markRange_run horigin
  rw [UInt64.toNat_div, toNat_pageSize, Word.toNat_sub hbelow, UInt64.toNat_div, toNat_pageSize,
    Word.toNat_sub hnonempty.le]
  omega

theorem clearRanges_run {base : PhysAddr} {count : Nat} {ranges : List PageRange}
    (hranges : ∀ range ∈ ranges, FrameAllocator.Clearable base count range)
    (horigin : b.origin = 0) (hcount : count ≤ 8 * size) :
    ranges.forM (clearRange base size) ⟨b.store, log⟩ =
      .ok ⟨⟩ ⟨(ranges.foldl (FrameAllocator.clearRange base) b).store, log⟩ := by
  induction ranges generalizing b with
  | nil => rfl
  | cons range rest ih =>
      have hfirst := hranges range List.mem_cons_self
      have hkept : (FrameAllocator.clearRange base b range).origin = 0 :=
        (Bitmap.origin_markRange ..).trans horigin
      exact (bind_ok (clearRange_run hfirst horigin hcount)).trans
        (ih (fun r hr => hranges r (List.mem_cons_of_mem range hr)) hkept)

theorem reserveFrameZero_run {a : FrameAllocator} (horigin : a.bitmap.origin = 0)
    (hsome : 0 < size) :
    reserveFrameZero size a.firstFrame ⟨a.bitmap.store, log⟩ =
      .ok ⟨⟩ ⟨a.withoutFrameZero.bitmap.store,
        if a.offersFrameZero then log.push .frameZeroReserved else log⟩ := by
  have hbit : 0 / 8 < size := by
    rwa [Nat.zero_div]
  have hoffers : a.offersFrameZero = (a.firstFrame.index == 0 && !a.bitmap.taken 0) := rfl
  rw [reserveFrameZero, FrameAllocator.withoutFrameZero]
  by_cases hindex : a.firstFrame.index = 0
  · rw [if_pos hindex, bind_ok (test_run horigin hbit)]
    cases htaken : a.bitmap.taken 0 with
    | true =>
        simp only [hoffers, htaken, Bool.not_true, Bool.and_false]
        rfl
    | false =>
        simp only [hoffers, htaken, hindex, beq_self_eq_true, Bool.not_false, Bool.and_true]
        exact mark_run horigin hbit true
  · rw [if_neg hindex, hoffers, beq_false_of_ne hindex, Bool.false_and]
    rfl

/-- An allocator whose bits start where the storage does is found again in the storage. -/
theorem withoutFrameZero_of_store {a : FrameAllocator} (horigin : a.bitmap.origin = 0) :
    (⟨⟨a.withoutFrameZero.bitmap.store, 0⟩, a.firstFrame, a.frameCount, a.cursor⟩ :
      FrameAllocator) = a.withoutFrameZero := by
  rw [Bitmap.mk_store (a.withoutFrameZero_bitmap.1.trans horigin), FrameAllocator.withoutFrameZero]
  split <;> rfl

variable {map : MemoryMap} {survey : MemorySurvey} {count bytes : Word} {ranges : List PageRange}

/-- In place, the same bits are set as by the builder that makes them all at once. -/
theorem build_run (hsurveyed : FrameAllocator.Surveyed map survey count bytes ranges)
    {storage : ByteArray} (hroom : bytes.toNat ≤ storage.size) (log : Array LogEvent) :
    build map survey ⟨storage, log⟩ =
      settled storage (FrameAllocator.build map survey ⟨storage, 0⟩ log) := by
  have hbytes := hsurveyed.bytes
  have hpos := hsurveyed.frameCount_pos
  have hfill : fill bytes.toNat ⟨storage, log⟩ =
      .ok ⟨⟩ ⟨((⟨storage, 0⟩ : Bitmap).fill bytes.toNat).store, log⟩ := by
    rw [fill, bind_ok (get_apply _), if_neg (Nat.not_lt.mpr hroom)]
    rfl
  have hcount : count.toNat ≤ 8 * bytes.toNat := by
    omega
  have hclear : ranges.forM (clearRange survey.base bytes.toNat)
      ⟨((⟨storage, 0⟩ : Bitmap).fill bytes.toNat).store, log⟩ = .ok ⟨⟩ _ :=
    clearRanges_run hsurveyed.clearable rfl hcount
  have horigin : (FrameAllocator.offering survey count bytes ⟨storage, 0⟩ ranges).bitmap.origin =
      0 :=
    (FrameAllocator.bitmap_offering hsurveyed.bounds.base hsurveyed.clearable
      (by rwa [Nat.zero_add]) hsurveyed.bytes).1
  have hbuild : FrameAllocator.build map survey ⟨storage, 0⟩ log =
      .ok (FrameAllocator.offering survey count bytes ⟨storage, 0⟩ ranges).withoutFrameZero
        (if (FrameAllocator.offering survey count bytes ⟨storage, 0⟩ ranges).offersFrameZero then
          log.push .frameZeroReserved else log) := by
    rw [FrameAllocator.build, hsurveyed.counted, bind_ok (lift_ok _ log), hsurveyed.sized,
      bind_ok (lift_ok _ log), hsurveyed.pages, bind_ok (lift_ok _ log)]
    split
    next hoffers => exact congrArg (EStateM.Result.ok _) (if_pos hoffers).symm
    next hoffers => exact congrArg (EStateM.Result.ok _) (if_neg hoffers).symm
  rw [build, hsurveyed.counted, bind_ok (lift_ok _ _), hsurveyed.sized, bind_ok (lift_ok _ _),
    bind_ok hfill, hsurveyed.pages, bind_ok (lift_ok _ _), bind_ok hclear, hbuild]
  refine (bind_ok (reserveFrameZero_run horigin (show 0 < bytes.toNat by omega))).trans ?_
  exact congrArg (EStateM.Result.ok · _) (withoutFrameZero_of_store horigin)

/-- Built in place, an allocator comes out as it does all at once.  Without an allocator the storage
is as it was. -/
theorem overStorage_run (map : MemoryMap) (storage : ByteArray) (log : Array LogEvent) :
    overStorage map ⟨storage, log⟩ =
      settled storage (FrameAllocator.overStorage map storage log) := by
  rw [overStorage, FrameAllocator.overStorage]
  cases hsurvey : map.survey log with
  | error failure log₁ =>
      have hreporting : reporting map.survey ⟨storage, log⟩ = .error failure ⟨storage, log₁⟩ := by
        rw [reporting, hsurvey]
      rw [bind_error hreporting, bind_error hsurvey]
      rfl
  | ok survey log₁ =>
      have hreporting : reporting map.survey ⟨storage, log⟩ = .ok survey ⟨storage, log₁⟩ := by
        rw [reporting, hsurvey]
      rw [bind_ok hreporting, bind_ok hsurvey]
      cases hsize : survey.bitmapBytes with
      | error f => rfl
      | ok bytes =>
          obtain ⟨count, ranges, hsurveyed⟩ :=
            FrameAllocator.exists_surveyed (FrameAllocator.survey_eq_ok hsurvey) hsize
          rw [bind_ok (lift_ok _ _), bind_ok (lift_ok _ _), bind_ok (get_apply _)]
          by_cases hsmall : storage.size < bytes.toNat
          · simp only [if_pos hsmall]
            rfl
          · simp only [if_neg hsmall]
            exact build_run hsurveyed (Nat.not_lt.mp hsmall) log₁

end Runs

end Lent

/-! ## The frames that are found -/

/-- The frames that lie in one usable region as a whole.  Regions are looked up one after the other,
up to the first lookup that fails. -/
def MemoryMap.wholeFrames (map : MemoryMap) : Set Nat :=
  {f | ∃ i r, (∀ j < i, ∃ s, map.region j = .ok s) ∧ map.region i = .ok r ∧
    r.isUsable = true ∧ r.Holds f}

theorem MemoryMap.region_eq_ok_iff {map : MemoryMap} {i : Nat} {r : MemoryRegion} :
    map.region i = .ok r ↔ map.failAt ≠ some i ∧ map.regions[i]? = some r := by
  rw [region]
  by_cases hfail : map.failAt = some i
  · simp [hfail]
  · rw [if_neg hfail]
    cases map.regions[i]? <;> simp [hfail]

theorem MemoryMap.mem_readable_iff {map : MemoryMap} {r : MemoryRegion} :
    r ∈ map.readable ↔ ∃ i, (∀ j < i, ∃ s, map.region j = .ok s) ∧ map.region i = .ok r := by
  have hbefore : ∀ i : Nat, map.regions[i]? = some r →
      ∀ j < i, ∃ s, map.regions[j]? = some s := by
    intro i hi j hj
    obtain ⟨hlt, _⟩ := List.getElem?_eq_some_iff.mp hi
    exact ⟨_, List.getElem?_eq_getElem (hj.trans hlt)⟩
  simp only [readable, region_eq_ok_iff]
  cases hfail : map.failAt with
  | none =>
      rw [List.mem_iff_getElem?]
      constructor
      · rintro ⟨i, hi⟩
        refine ⟨i, fun j hj => ?_, nofun, hi⟩
        obtain ⟨s, hs⟩ := hbefore i hi j hj
        exact ⟨s, nofun, hs⟩
      · rintro ⟨i, _, _, hi⟩
        exact ⟨i, hi⟩
  | some index =>
      simp only [List.mem_iff_getElem?, List.getElem?_take, Option.ite_none_right_eq_some]
      constructor
      · rintro ⟨i, hlt, hi⟩
        refine ⟨i, fun j hj => ?_, fun heq => ?_, hi⟩
        · obtain ⟨s, hs⟩ := hbefore i hi j hj
          refine ⟨s, fun heq => ?_, hs⟩
          have hsame := Option.some.inj heq
          omega
        · have hsame := Option.some.inj heq
          omega
      · rintro ⟨i, hlooked, hne, hi⟩
        refine ⟨i, ?_, hi⟩
        -- a lookup that fails stops the reader, so it comes after the one that is read
        by_contra hle
        rcases Nat.lt_or_eq_of_le (Nat.not_lt.mp hle) with hlt | rfl
        · obtain ⟨_, hfailed, _⟩ := hlooked index hlt
          exact hfailed rfl
        · exact hne rfl

theorem MemoryMap.mem_wholeFrames_iff {map : MemoryMap} {f : Nat} :
    f ∈ map.wholeFrames ↔ ∃ r ∈ map.usable, r.Holds f := by
  simp only [usable, List.mem_filter, mem_readable_iff]
  constructor
  · rintro ⟨i, r, hbefore, hregion, husable, hholds⟩
    exact ⟨r, ⟨⟨i, hbefore, hregion⟩, husable⟩, hholds⟩
  · rintro ⟨r, ⟨⟨i, hbefore, hregion⟩, husable⟩, hholds⟩
    exact ⟨i, r, hbefore, hregion, husable, hholds⟩

namespace MemorySurvey

/-- A survey faults, or it finds no page, or it succeeds. -/
theorem ofMap_ends (map : MemoryMap) :
    (∃ f, ofMap map = .error (.fault f)) ∨
      (map.usablePages = .ok [] ∧ ofMap map = .error (.error .noUsablePage)) ∨
        ∃ survey, ofMap map = .ok survey := by
  rw [ofMap]
  cases map.usableBytes with
  | error f => exact .inl ⟨f, rfl⟩
  | ok total =>
      cases map.usablePages with
      | error f => exact .inl ⟨f, rfl⟩
      | ok ranges =>
          cases ranges with
          | nil => exact .inr (.inl ⟨rfl, rfl⟩)
          | cons first rest => exact .inr (.inr ⟨_, rfl⟩)

theorem Bounds.exists_bitmapBytes {survey : MemorySurvey} {ranges : List PageRange}
    (hbounds : survey.Bounds ranges) : ∃ size, survey.bitmapBytes = .ok size := by
  rw [bitmapBytes, frameCount, Addr.distance, Word.sub_eq_ok hbounds.nonempty.le]
  exact ⟨_, rfl⟩

end MemorySurvey

namespace FrameAllocator

/-- An allocator for the frames from `low` to `high`, whose bits are kept at the start of what was
`storage`.  Clear are the bits of whole usable frames, all but frame 0. -/
structure Exact (map : MemoryMap) (storage : ByteArray) (low high : Nat) (a : FrameAllocator) :
    Prop where
  first : a.first = low
  frameCount : a.frameCount = high + 1 - low
  cursor : a.cursor = 0
  origin : a.bitmap.origin = 0
  size : a.bitmap.store.size = storage.size
  room : (a.frameCount + 7) / 8 ≤ storage.size
  clear : ∀ i < a.frameCount,
    a.taken i = false ↔ low + i ∈ map.wholeFrames ∧ low + i ≠ 0
  spare : ∀ i, a.frameCount ≤ i → i < (a.frameCount + 7) / 8 * 8 → a.taken i = true
  beyond : ∀ i, (a.frameCount + 7) / 8 ≤ i →
    Bytes.byteAt a.bitmap.store i = Bytes.byteAt storage i

section Surveyed

variable {map : MemoryMap} {survey : MemorySurvey} {count size : Word} {ranges : List PageRange}

theorem mem_frames_iff (hsurveyed : Surveyed map survey count size ranges) {f : Nat} :
    (∃ range ∈ ranges, f ∈ range.frames) ↔ f ∈ map.wholeFrames := by
  rw [MemoryMap.mem_wholeFrames_iff]
  exact (MemoryMap.usablePages_eq_ok hsurveyed.pages).2 f

/-- The bounds of a survey are the lowest and the highest whole frame. -/
theorem isLeast_base (hsurveyed : Surveyed map survey count size ranges) :
    IsLeast map.wholeFrames survey.base.page := by
  obtain ⟨lowest, hmem, hstart⟩ := hsurveyed.bounds.lowest
  constructor
  · rw [← mem_frames_iff hsurveyed, Addr.page, ← hstart]
    exact ⟨lowest, hmem, (hsurveyed.clearable lowest hmem).whole.first_mem⟩
  · intro f hf
    obtain ⟨range, hrange, hin⟩ := (mem_frames_iff hsurveyed).mpr hf
    have hbelow := hsurveyed.bounds.below range hrange
    exact (Nat.div_le_div_right hbelow).trans (Set.mem_Ico.mp hin).1

theorem isGreatest_top (hsurveyed : Surveyed map survey count size ranges) :
    IsGreatest map.wholeFrames (survey.base.page + count.toNat - 1) := by
  have hlast : survey.top.word.toNat / 4096 = survey.base.page + count.toNat := by
    rw [hsurveyed.top, Nat.add_mul_div_right _ _ (by decide), Addr.page]
  obtain ⟨highest, hmem, hstop⟩ := hsurveyed.bounds.highest
  constructor
  · rw [← mem_frames_iff hsurveyed, ← hlast, ← hstop]
    exact ⟨highest, hmem, (hsurveyed.clearable highest hmem).whole.last_mem⟩
  · intro f hf
    obtain ⟨range, hrange, hin⟩ := (mem_frames_iff hsurveyed).mpr hf
    have habove := Nat.div_le_div_right (c := 4096) (hsurveyed.bounds.above range hrange)
    have hlt := (Set.mem_Ico.mp hin).2
    omega

theorem taken_withoutFrameZero {a : FrameAllocator} (hfits : a.Fits) (hsome : 0 < a.frameCount)
    (i : Nat) : a.withoutFrameZero.taken i = false ↔ a.taken i = false ∧ a.first + i ≠ 0 := by
  have hzero : a.firstFrame.index = 0 ↔ a.first = 0 := by
    rw [← UInt64.toNat_inj]
    rfl
  have hbit : a.bitmap.byteIndex 0 < a.bitmap.store.size := by
    have hbits := hfits.bits
    rw [Bitmap.byteIndex]
    omega
  unfold withoutFrameZero
  by_cases hoffers : a.offersFrameZero = true
  · rw [if_pos hoffers, taken, Bitmap.taken_mark _ _ _ _ hbit]
    rw [offersFrameZero, Bool.and_eq_true, beq_iff_eq, hzero] at hoffers
    by_cases hi : 0 = i
    · simp [← hi, hoffers.1]
    · rw [if_neg hi]
      exact (and_iff_left (by omega)).symm
  · rw [if_neg hoffers]
    rw [offersFrameZero, Bool.and_eq_true, beq_iff_eq, hzero, Bool.not_eq_true'] at hoffers
    refine ⟨fun hclear => ⟨hclear, fun hfirst => ?_⟩, And.left⟩
    obtain ⟨hfirst, rfl⟩ := Nat.add_eq_zero_iff.mp hfirst
    exact hoffers ⟨hfirst, hclear⟩

/-- An allocator over storage with room for its bits. -/
theorem exact_offering (hsurveyed : Surveyed map survey count size ranges) {storage : ByteArray}
    (hroom : size.toNat ≤ storage.size) :
    (offering survey count size ⟨storage, 0⟩ ranges).withoutFrameZero.Exact map storage
      survey.base.page (survey.base.page + count.toNat - 1) := by
  have hbase := hsurveyed.bounds.base
  have hbytes := hsurveyed.bytes
  have htop := hsurveyed.top
  have hlt := survey.top.word.toNat_lt
  have hsome := hsurveyed.frameCount_pos
  have hfilled : (⟨storage, 0⟩ : Bitmap).origin + size.toNat ≤
      (⟨storage, 0⟩ : Bitmap).store.size := by
    rwa [Nat.zero_add]
  have hlast : survey.base.page + count.toNat ≤ 2 ^ 52 := by
    rw [Addr.page]
    omega
  have hfits := fits_offering hbase hsurveyed.clearable hfilled hbytes hlast
  obtain ⟨horigin, hstore, htaken⟩ :=
    bitmap_offering hbase hsurveyed.clearable hfilled hbytes
  obtain ⟨horigin', hstore', hcount', hcursor'⟩ :=
    (offering survey count size ⟨storage, 0⟩ ranges).withoutFrameZero_bitmap
  have hbits : ∀ i < size.toNat * 8,
      (offering survey count size ⟨storage, 0⟩ ranges).withoutFrameZero.taken i = false ↔
        survey.base.page + i ∈ map.wholeFrames ∧ survey.base.page + i ≠ 0 := by
    intro i hi
    have hset : ((⟨storage, 0⟩ : Bitmap).fill size.toNat).taken i = true :=
      Bitmap.taken_fill hfilled hi
    rw [taken_withoutFrameZero hfits hsome, first_offering, htaken, mem_frames_iff hsurveyed, hset]
    simp
  have hframes : (offering survey count size ⟨storage, 0⟩ ranges).withoutFrameZero.frameCount =
      count.toNat := hcount'
  constructor
  · exact (first_withoutFrameZero _).trans first_offering
  · rw [hframes]
    omega
  · exact hcursor'
  · exact horigin'.trans horigin
  · exact hstore'.trans hstore
  · rwa [hframes, ← hbytes]
  · intro i hi
    rw [hframes] at hi
    exact hbits i (by omega)
  · intro i hlow hhigh
    rw [hframes] at hlow hhigh
    rw [← Bool.not_eq_false, hbits i (by omega)]
    rintro ⟨hwhole, _⟩
    have hle := (isGreatest_top hsurveyed).2 hwhole
    omega
  · intro i hi
    rw [hframes, ← hbytes] at hi
    exact byteAt_offering_of_outside hsurveyed hfilled (.inr (by rwa [Nat.zero_add]))

end Surveyed

/-- How building over storage ends where the survey does not fault. -/
inductive Ending (map : MemoryMap) (storage : ByteArray) :
    EStateM.Result (Failure SetupError) (Array LogEvent) FrameAllocator → Prop
  | exact {low high : Nat} {a : FrameAllocator} {log : Array LogEvent}
      (hlow : IsLeast map.wholeFrames low) (hhigh : IsGreatest map.wholeFrames high)
      (hexact : a.Exact map storage low high) : Ending map storage (.ok a log)
  | noPage {log : Array LogEvent} (hnone : map.wholeFrames = ∅) :
      Ending map storage (.error (.error .noUsablePage) log)
  | tooSmall {low high : Nat} {required : Word} {log : Array LogEvent}
      (hlow : IsLeast map.wholeFrames low) (hhigh : IsGreatest map.wholeFrames high)
      (hrequired : required.toNat = (high + 1 - low + 7) / 8)
      (hsmall : storage.size < required.toNat) :
      Ending map storage
        (.error (.error (.storageTooSmall required (UInt64.ofNat storage.size))) log)

theorem overStorage_ends {map : MemoryMap}
    (hscan : ∀ f, MemorySurvey.ofMap map ≠ .error (.fault f)) (storage : ByteArray)
    (log : Array LogEvent) : Ending map storage (overStorage map storage log) := by
  rcases MemorySurvey.ofMap_ends map with ⟨f, hfault⟩ | ⟨hpages, hnone⟩ | ⟨survey, hsurvey⟩
  · exact absurd hfault (hscan f)
  · have hrun : overStorage map storage log = .error (.error .noUsablePage) log := by
      rw [overStorage, MemoryMap.survey, hnone]
      rfl
    rw [hrun]
    refine .noPage (Set.eq_empty_iff_forall_notMem.mpr fun f hf => ?_)
    obtain ⟨range, hrange, _⟩ := ((MemoryMap.usablePages_eq_ok hpages).2 f).mpr
      (MemoryMap.mem_wholeFrames_iff.mp hf)
    exact absurd hrange List.not_mem_nil
  · obtain ⟨_, _, hbounds⟩ := MemorySurvey.ofMap_eq_ok hsurvey
    obtain ⟨size, hsize⟩ := hbounds.exists_bitmapBytes
    obtain ⟨count, ranges, hsurveyed⟩ := exists_surveyed hsurvey hsize
    have hlow := isLeast_base hsurveyed
    have hhigh := isGreatest_top hsurveyed
    by_cases hsmall : storage.size < size.toNat
    · have hrun : overStorage map storage log =
          .error (.error (.storageTooSmall size (UInt64.ofNat storage.size)))
            (log.push (.surveyed survey size)) := by
        rw [overStorage, Action.bind_ok (survey_run hsurvey hsize log), hsize,
          Action.bind_ok (Action.lift_ok _ _)]
        simp only [if_pos hsmall]
        rfl
      have hsome := hsurveyed.frameCount_pos
      have hbytes := hsurveyed.bytes
      rw [hrun]
      exact .tooSmall hlow hhigh (by omega) hsmall
    · obtain ⟨log', hrun⟩ := overStorage_run hsurveyed (Nat.not_lt.mp hsmall) log
      rw [hrun]
      exact .exact hlow hhigh (exact_offering hsurveyed (Nat.not_lt.mp hsmall))

end FrameAllocator

/-- Where a survey does not fault, an allocator can be built over storage exactly if some frame is
usable as a whole and the storage has a bit for each frame between the bounds.  Its bits are exact,
and no check on the way fails.  Without an allocator the storage is left as it was. -/
theorem overStorage_sets_exact_bits {map : MemoryMap}
    (hscan : ∀ f, MemorySurvey.ofMap map ≠ .error (.fault f)) (storage : ByteArray)
    (log : Array LogEvent) :
    ((∃ a l, Lent.overStorage map ⟨storage, log⟩ = .ok a l) ↔
        ∃ low high, IsLeast map.wholeFrames low ∧ IsGreatest map.wholeFrames high ∧
          (high + 1 - low + 7) / 8 ≤ storage.size) ∧
      (∀ a l, Lent.overStorage map ⟨storage, log⟩ = .ok a l →
        l.storage = a.bitmap.store ∧
        ∃ low high, IsLeast map.wholeFrames low ∧ IsGreatest map.wholeFrames high ∧
          a.Exact map storage low high) ∧
      (∀ failure l, Lent.overStorage map ⟨storage, log⟩ = .error failure l →
        l.storage = storage ∧ ∃ e, failure = .error e) ∧
      Lent.overStorage map ⟨storage, log⟩ =
        Lent.settled storage (FrameAllocator.overStorage map storage log) := by
  rw [Lent.overStorage_run]
  have hends := FrameAllocator.overStorage_ends hscan storage log
  generalize FrameAllocator.overStorage map storage log = result at hends
  cases hends with
  | @exact low high a log' hlow hhigh hexact =>
      refine ⟨iff_of_true ⟨a, _, rfl⟩ ⟨low, high, hlow, hhigh, ?_⟩, ?_, nofun, rfl⟩
      · rw [← hexact.frameCount]
        exact hexact.room
      · rintro _ _ ⟨⟩
        exact ⟨rfl, low, high, hlow, hhigh, hexact⟩
  | noPage hnone =>
      refine ⟨iff_of_false nofun ?_, nofun, ?_, rfl⟩
      · rintro ⟨low, _, hlow, _⟩
        rw [hnone] at hlow
        exact hlow.1
      · rintro _ _ ⟨⟩
        exact ⟨rfl, _, rfl⟩
  | tooSmall hlow hhigh hrequired hsmall =>
      refine ⟨iff_of_false nofun ?_, nofun, ?_, rfl⟩
      · rintro ⟨low', high', hlow', hhigh', hroom⟩
        obtain rfl := hlow.unique hlow'
        obtain rfl := hhigh.unique hhigh'
        omega
      · rintro _ _ ⟨⟩
        exact ⟨rfl, _, rfl⟩

/-- Usable regions that overlap, and a reserved one.  Frame 3 lies in none as a whole, and frame 6
stands behind a lookup that fails. -/
def overlappingRegions : MemoryMap where
  regions := [⟨⟨0x5000⟩, 0x1000, .usable⟩, ⟨⟨0⟩, 0x2800, .usable⟩, ⟨⟨0x1800⟩, 0x2000, .usable⟩,
    ⟨⟨0x4000⟩, 0x1000, .reserved⟩, ⟨⟨0x6000⟩, 0x1000, .usable⟩]
  failAt := some 4

/-- Frames 1, 2 and 5 come out free, frame 0 and the spare bits do not, and the second byte is left
alone. -/
theorem overStorage_sets_exact_bits_overlappingRegions :
    ∃ a l low high, (∀ f, MemorySurvey.ofMap overlappingRegions ≠ .error (.fault f)) ∧
      Lent.overStorage overlappingRegions ⟨⟨#[0xAA, 0xAA]⟩, #[]⟩ = .ok a l ∧
      l.storage = ⟨#[0xD9, 0xAA]⟩ ∧ a.Exact overlappingRegions ⟨#[0xAA, 0xAA]⟩ low high := by
  have hscan : ∀ f, MemorySurvey.ofMap overlappingRegions ≠ .error (.fault f) := by
    intro f
    have hsurvey : MemorySurvey.ofMap overlappingRegions = .ok ⟨0x5800, ⟨0⟩, ⟨0x6000⟩⟩ := rfl
    rw [hsurvey]
    exact nofun
  obtain ⟨a, l, hrun, hbyte⟩ : ∃ a l,
      Lent.overStorage overlappingRegions ⟨⟨#[0xAA, 0xAA]⟩, #[]⟩ = .ok a l ∧
        l.storage = ⟨#[0xD9, 0xAA]⟩ :=
    ⟨_, _, rfl, rfl⟩
  obtain ⟨_, low, high, _, _, hexact⟩ :=
    (overStorage_sets_exact_bits hscan ⟨#[0xAA, 0xAA]⟩ #[]).2.1 a l hrun
  exact ⟨a, l, low, high, hscan, hrun, hbyte, hexact⟩

end BootMemory
