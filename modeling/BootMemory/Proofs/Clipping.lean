import BootMemory.Proofs.NextFit

/-!
# Clipped ranges

Giving back and setting aside take any range of frames and pass over the part of it that is not
kept track of.  Here both are done in words and through checks: every sum and difference has to
fit the word, and every byte that is written has to be one of the bitmap.  The end of the range is
the only check that can fail.  If it fits the word, the bits of the tracked frames in the range are
written, and nothing else is.
-/

namespace BootMemory

/-! ## Marking through checks -/

namespace Bitmap

/-- Marks a bit whose byte has to be one of the `size` bytes of the bitmap. -/
def markWithin (b : Bitmap) (size bit : Nat) (value : Bool) : Except Fault Bitmap :=
  if bit / 8 < size then .ok (b.mark bit value) else .error .writePastEnd

def markRangeWithin (b : Bitmap) (size start : Nat) :
    (count : Nat) → (value : Bool) → Except Fault Bitmap
  | 0, _ => return b
  | count + 1, value => do
      let marked ← b.markWithin size start value
      marked.markRangeWithin size (start + 1) count value

theorem markRangeWithin_eq_ok (b : Bitmap) {size start count : Nat}
    (hrange : start + count ≤ 8 * size) (value : Bool) :
    b.markRangeWithin size start count value = .ok (b.markRange start count value) := by
  induction count generalizing b start with
  | zero => rfl
  | succ count ih =>
      have hfirst : b.markWithin size start value = .ok (b.mark start value) :=
        if_pos (by omega)
      rw [markRangeWithin, hfirst]
      exact ih (b.mark start value) (by omega)

end Bitmap

namespace FrameAllocator

/-- Bytes of the bitmap. -/
def bitmapSize (a : FrameAllocator) : Nat :=
  (a.frameCount + 7) / 8

/-- The clipped range as words, with its bounds computed in words. -/
def clipWords (a : FrameAllocator) (base : PhysAddr) (count : Word) :
    Except Fault (Option (Word × Word)) := do
  let first := (Frame.containing base).index
  let past ← Word.add first count
  let limit ← Word.add a.firstFrame.index (UInt64.ofNat a.frameCount)
  let low := max first a.firstFrame.index
  let high := min past limit
  if low < high then
    let start ← Word.sub low a.firstFrame.index
    let length ← Word.sub high low
    return some (start, length)
  else return none

def markWords (a : FrameAllocator) (base : PhysAddr) (count : Word) (value : Bool) :
    Except Fault FrameAllocator := do
  match ← a.clipWords base count with
  | some (start, length) =>
      let stop ← Word.add start length
      let bitmap ← a.bitmap.markRangeWithin a.bitmapSize start.toNat (stop.toNat - start.toNat)
        value
      return { a with bitmap }
  | none => return a

def freeWords (a : FrameAllocator) (base : PhysAddr) (count : Word) :
    Except Fault FrameAllocator :=
  if base.startsPage then a.markWords base count false else .error (.unalignedFree base)

def reserveWords (a : FrameAllocator) (base : PhysAddr) (count : Word) :
    Except Fault FrameAllocator :=
  a.markWords base.pageFloor count true

/-! ## No other check fails -/

section Words

variable {a : FrameAllocator} {base : PhysAddr} {count : Word}

/-- The tracked frames end below the end of the word, so nothing overflows but the end of the
range, and the differences are taken where the range is not empty. -/
theorem clipWords_eq_ok (hfits : a.Fits) (hword : base.page + count.toNat < 2 ^ 64) :
    ∃ words, a.clipWords base count = .ok words ∧
      a.clip base count = .ok (words.map fun range => (range.1.toNat, range.2.toNat)) := by
  have hframes := hfits.frames
  have hfirst := Frame.toNat_containing base
  have hadd : (Frame.containing base).index.toNat + count.toNat < 2 ^ 64 := by
    rwa [hfirst]
  have hcount : (UInt64.ofNat a.frameCount).toNat = a.frameCount := by
    apply UInt64.toNat_ofNat_of_lt'
    simp only [UInt64.size]
    omega
  have hend : a.firstFrame.index.toNat + (UInt64.ofNat a.frameCount).toNat < 2 ^ 64 := by
    rw [hcount]
    unfold first at hframes
    omega
  have hlow : (max (Frame.containing base).index a.firstFrame.index).toNat =
      max base.page a.first := by
    rw [UInt64.toNat_max, hfirst, first]
  have hhigh : (min ((Frame.containing base).index + count)
      (a.firstFrame.index + UInt64.ofNat a.frameCount)).toNat =
        min (base.page + count.toNat) (a.first + a.frameCount) := by
    rw [UInt64.toNat_min, Word.toNat_add hadd, Word.toNat_add hend, hfirst, hcount, first]
  rw [clip_eq_ok a hword, ← hlow, ← hhigh, clipWords, Word.add_eq_ok hadd, Word.add_eq_ok hend]
  simp only [bind, Except.bind]
  generalize max (Frame.containing base).index a.firstFrame.index = low at hlow ⊢
  generalize min ((Frame.containing base).index + count)
    (a.firstFrame.index + UInt64.ofNat a.frameCount) = high
  by_cases hsome : low < high
  · have hbelow : a.firstFrame.index.toNat ≤ low.toNat := by
      rw [hlow]
      exact Nat.le_max_right _ _
    have hnonempty : low.toNat ≤ high.toNat :=
      (UInt64.lt_iff_toNat_lt.mp hsome).le
    rw [if_pos hsome, if_pos (UInt64.lt_iff_toNat_lt.mp hsome), Word.sub_eq_ok hbelow,
      Word.sub_eq_ok hnonempty]
    refine ⟨_, rfl, ?_⟩
    rw [Option.map_some, Word.toNat_sub hbelow, Word.toNat_sub hnonempty]
    rfl
  · rw [if_neg hsome, if_neg (fun hlt => hsome (UInt64.lt_iff_toNat_lt.mpr hlt))]
    exact ⟨none, rfl, rfl⟩

theorem markWords_eq (hfits : a.Fits) (base : PhysAddr) (count : Word) (value : Bool) :
    a.markWords base count value = a.markFrames base count value := by
  by_cases hword : base.page + count.toNat < 2 ^ 64
  · obtain ⟨words, hwords, hclip⟩ := clipWords_eq_ok hfits hword
    rw [markWords, markFrames, hwords, hclip]
    cases words with
    | none => rfl
    | some range =>
        obtain ⟨start, length⟩ := range
        have hframes := hfits.frames
        have hrange : start.toNat + length.toNat ≤ a.frameCount := (clip_eq_some hclip).2
        have hsum : start.toNat + length.toNat < 2 ^ 64 := by
          omega
        have hstop : (start + length).toNat - start.toNat = length.toNat := by
          rw [Word.toNat_add hsum, Nat.add_sub_cancel_left]
        have hbits : start.toNat + length.toNat ≤ 8 * a.bitmapSize := by
          rw [bitmapSize]
          omega
        simp only [Option.map_some, bind, Except.bind]
        rw [Word.add_eq_ok hsum]
        simp only [hstop, Bitmap.markRangeWithin_eq_ok _ hbits]
  · have hpast := Nat.not_lt.mp hword
    have hadd : Word.add (Frame.containing base).index count = .error .addOverflow :=
      Word.add_eq_error (by rwa [Frame.toNat_containing])
    rw [markFrames_eq_error a base count value hpast, markWords, clipWords, hadd]
    rfl

theorem freeWords_eq (hfits : a.Fits) (base : PhysAddr) (count : Word) :
    a.freeWords base count = a.free base count := by
  rw [freeWords, markWords_eq hfits, free]

theorem reserveWords_eq (hfits : a.Fits) (base : PhysAddr) (count : Word) :
    a.reserveWords base count = a.reserve base count :=
  markWords_eq hfits base.pageFloor count true

end Words

/-! ## What is written -/

/-- What a call leaves that writes `value` to the bits of those of `frames` that are kept track of:
no other bit, no byte beside the bitmap and nothing else of the allocator is changed. -/
structure Writes (a : FrameAllocator) (frames : Set Nat) (value : Bool) (a' : FrameAllocator) :
    Prop where
  inside : ∀ f ∈ frames ∩ a.tracked, a'.taken (f - a.first) = value
  outside : ∀ i, a.first + i ∉ frames ∩ a.tracked → a'.taken i = a.taken i
  beside : ∀ i, i < a.bitmap.origin ∨ a.bitmap.origin + a.bitmapSize ≤ i →
    Bytes.byteAt a'.bitmap.store i = Bytes.byteAt a.bitmap.store i
  storeSize : a'.bitmap.store.size = a.bitmap.store.size
  origin : a'.bitmap.origin = a.bitmap.origin
  firstFrame : a'.firstFrame = a.firstFrame
  frameCount : a'.frameCount = a.frameCount
  cursor : a'.cursor = a.cursor

section Writes

variable {a : FrameAllocator} {base : PhysAddr} {count : Word}

theorem writes_marked (hfits : a.Fits) {start length : Nat} {frames : Set Nat} {value : Bool}
    (hrange : start + length ≤ a.frameCount)
    (hframes : Set.Ico (a.first + start) (a.first + start + length) = frames ∩ a.tracked) :
    a.Writes frames value (a.marked start length value) where
  inside := by
    intro f hf
    rw [← hframes, Set.mem_Ico] at hf
    rw [taken_marked hfits hrange, if_pos (by omega)]
  outside := by
    intro i hi
    rw [← hframes, Set.mem_Ico] at hi
    rw [taken_marked hfits hrange, if_neg (by omega)]
  beside := fun _ houtside => byteAt_marked_of_outside value hrange houtside
  storeSize := Bitmap.size_store_markRange ..
  origin := Bitmap.origin_markRange ..
  firstFrame := rfl
  frameCount := rfl
  cursor := rfl

theorem markFrames_writes (hfits : a.Fits) (value : Bool)
    (hword : base.page + count.toNat < 2 ^ 64) :
    ∃ a', a.markFrames base count value = .ok a' ∧ a.Writes (runFrames base count) value a' := by
  obtain ⟨start, length, hrange, hframes, hrun⟩ := a.markFrames_eq_ok base count value hword
  exact ⟨_, hrun, writes_marked hfits hrange hframes⟩

end Writes

/-- Giving back and setting aside write exactly the bits of the tracked frames in the range, up to
any end that fits the word.  A range whose end does not fit it is a fault, and the only one. -/
theorem ranges_are_clipped_up_to_the_word {map : MemoryMap} {a : FrameAllocator}
    {returned : Set Nat} (hreached : Reached map a returned) (base : PhysAddr) (count : Word) :
    (base.page + count.toNat < 2 ^ 64 →
      (base.startsPage = true →
        ∃ a', a.free base count = .ok a' ∧ a.Writes (runFrames base count) false a') ∧
      ∃ a', a.reserve base count = .ok a' ∧ a.Writes (runFrames base count) true a') ∧
    (2 ^ 64 ≤ base.page + count.toNat →
      (base.startsPage = true → a.free base count = .error .addOverflow) ∧
      a.reserve base count = .error .addOverflow) ∧
    a.freeWords base count = a.free base count ∧
    a.reserveWords base count = a.reserve base count := by
  have hfits := hreached.steady.fits
  have hfloor : runFrames base.pageFloor count = runFrames base count := by
    rw [runFrames, runFrames, Addr.page_pageFloor]
  refine ⟨?_, ?_, freeWords_eq hfits base count, reserveWords_eq hfits base count⟩
  · intro hword
    constructor
    · intro hstart
      rw [free, if_pos hstart]
      exact markFrames_writes hfits false hword
    · rw [reserve, ← hfloor]
      exact markFrames_writes hfits true (by rwa [Addr.page_pageFloor])
  · intro hpast
    constructor
    · intro hstart
      rw [free, if_pos hstart, markFrames_eq_error a base count false hpast]
    · exact markFrames_eq_error a base.pageFloor count true (by rwa [Addr.page_pageFloor])

/-- On a map of four frames, a range that ends with the last word is clipped to the two frames in
it, and one frame more is a fault. -/
theorem ranges_are_clipped_up_to_the_word_givenBack :
    (∃ a', givenBack.reserve ⟨0x2800⟩ 0xFFFFFFFFFFFFFFFD = .ok a' ∧
        givenBack.Writes (runFrames ⟨0x2800⟩ 0xFFFFFFFFFFFFFFFD) true a' ∧
        a'.bitmap.store = ⟨#[0xFD]⟩) ∧
      givenBack.free ⟨0x2000⟩ 0xFFFFFFFFFFFFFFFF = .error .addOverflow := by
  obtain ⟨hfits, _⟩ := ranges_are_clipped_up_to_the_word reached_givenBack ⟨0x2800⟩
    0xFFFFFFFFFFFFFFFD
  obtain ⟨a', hrun, hwrites⟩ := (hfits (by decide)).2
  obtain ⟨_, hpast, _⟩ := ranges_are_clipped_up_to_the_word reached_givenBack ⟨0x2000⟩
    0xFFFFFFFFFFFFFFFF
  refine ⟨⟨a', hrun, hwrites, ?_⟩, (hpast (by decide)).1 rfl⟩
  have heval : givenBack.reserve ⟨0x2800⟩ 0xFFFFFFFFFFFFFFFD =
      .ok ⟨⟨⟨#[0xFD]⟩, 0⟩, ⟨0⟩, 4, 3⟩ := rfl
  rw [← Except.ok.inj (heval.symm.trans hrun)]

end FrameAllocator

end BootMemory
