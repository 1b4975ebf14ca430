import BootMemory.Frames.Allocator
import BootMemory.Proofs.Actions
import BootMemory.Proofs.Numbers
import BootMemory.Proofs.Search

/-!
# The frames an allocator holds free

Seen from outside, an allocator is the set of frames that it may still hand out.  Handing out
takes a run of frames from that set, giving back adds the tracked part of a range, and setting
aside removes a range.  Nothing but the bits of the frames in question is written.
-/

namespace BootMemory

/-- Marking bits writes no byte beside those of the bits. -/
theorem Bitmap.byteAt_markRange_of_outside (b : Bitmap) {start count limit : Nat} (value : Bool)
    (hrange : start + count ≤ limit) {i : Nat}
    (houtside : i < b.origin ∨ b.origin + (limit + 7) / 8 ≤ i) :
    Bytes.byteAt (b.markRange start count value).store i = Bytes.byteAt b.store i := by
  induction count generalizing b start with
  | zero => rfl
  | succ count ih =>
      have hbyte : b.byteIndex start ≠ i := by
        unfold byteIndex
        omega
      rw [markRange, ih (b.mark start value) (by omega) houtside]
      simp [mark, Bytes.byteAt_put, hbyte]

namespace FrameAllocator

def first (a : FrameAllocator) : Nat :=
  a.firstFrame.index.toNat

def tracked (a : FrameAllocator) : Set Nat :=
  Set.Ico a.first (a.first + a.frameCount)

/-- The frames that may be handed out. -/
def freeFrames (a : FrameAllocator) : Set Nat :=
  {f | f ∈ a.tracked ∧ a.taken (f - a.first) = false}

theorem freeFrames_cursor (a : FrameAllocator) (cursor : Nat) :
    ({ a with cursor } : FrameAllocator).freeFrames = a.freeFrames := rfl

theorem mem_freeFrames {a : FrameAllocator} {f : Nat} :
    f ∈ a.freeFrames ↔
      (a.first ≤ f ∧ f < a.first + a.frameCount) ∧ a.taken (f - a.first) = false :=
  Iff.rfl

theorem add_mem_freeFrames {a : FrameAllocator} {bit : Nat} (hbit : bit < a.frameCount) :
    a.first + bit ∈ a.freeFrames ↔ a.taken bit = false := by
  rw [mem_freeFrames, Nat.add_sub_cancel_left, and_iff_right]
  omega

/-- The bits of all frames lie in the store, and all frames below the end of the word. -/
structure Fits (a : FrameAllocator) : Prop where
  bits : a.bitmap.origin + (a.frameCount + 7) / 8 ≤ a.bitmap.store.size
  frames : a.first + a.frameCount ≤ 2 ^ 52

def marked (a : FrameAllocator) (start count : Nat) (value : Bool) : FrameAllocator :=
  { a with bitmap := a.bitmap.markRange start count value }

section Marked

variable {a : FrameAllocator} {start count : Nat} {value : Bool}

@[simp] theorem first_marked : (a.marked start count value).first = a.first := rfl

@[simp] theorem frameCount_marked :
    (a.marked start count value).frameCount = a.frameCount := rfl

theorem Fits.marked (hfits : a.Fits) : (a.marked start count value).Fits where
  bits := by simpa [FrameAllocator.marked] using hfits.bits
  frames := hfits.frames

theorem taken_marked (hfits : a.Fits) (hrange : start + count ≤ a.frameCount) (i : Nat) :
    (a.marked start count value).taken i =
      if start ≤ i ∧ i < start + count then value else a.taken i := by
  apply Bitmap.taken_markRange
  have hbits := hfits.bits
  unfold Bitmap.byteIndex
  omega

theorem freeFrames_marked_true (hfits : a.Fits) (hrange : start + count ≤ a.frameCount) :
    (a.marked start count true).freeFrames =
      a.freeFrames \ Set.Ico (a.first + start) (a.first + start + count) := by
  ext f
  simp only [mem_freeFrames, first_marked, frameCount_marked, taken_marked hfits hrange,
    Set.mem_sdiff, Set.mem_Ico]
  by_cases hin : start ≤ f - a.first ∧ f - a.first < start + count
  · simp only [if_pos hin, Bool.true_eq_false, and_false, false_iff]
    omega
  · simp only [if_neg hin]
    constructor
    · intro hfree
      exact ⟨hfree, by omega⟩
    · exact And.left

theorem freeFrames_marked_false (hfits : a.Fits) (hrange : start + count ≤ a.frameCount) :
    (a.marked start count false).freeFrames =
      a.freeFrames ∪ Set.Ico (a.first + start) (a.first + start + count) := by
  ext f
  simp only [mem_freeFrames, first_marked, frameCount_marked, taken_marked hfits hrange,
    Set.mem_union, Set.mem_Ico]
  by_cases hin : start ≤ f - a.first ∧ f - a.first < start + count
  · simp only [if_pos hin, and_true]
    omega
  · have hnot : ¬(a.first + start ≤ f ∧ f < a.first + start + count) := by
      omega
    rw [if_neg hin, or_iff_left hnot]

theorem byteAt_marked_of_outside (value : Bool) (hrange : start + count ≤ a.frameCount) {i : Nat}
    (houtside : i < a.bitmap.origin ∨ a.bitmap.origin + (a.frameCount + 7) / 8 ≤ i) :
    Bytes.byteAt (a.marked start count value).bitmap.store i =
      Bytes.byteAt a.bitmap.store i :=
  a.bitmap.byteAt_markRange_of_outside value hrange houtside

end Marked

/-- Marking bits of a byte changes it in a way that depends on no other byte. -/
theorem byteAt_markRange_congr {b c : Bitmap} (horigin : c.origin = b.origin)
    (hsize : c.store.size = b.store.size) {i : Nat}
    (hbyte : Bytes.byteAt c.store i = Bytes.byteAt b.store i) (start count : Nat) (value : Bool) :
    Bytes.byteAt (c.markRange start count value).store i =
      Bytes.byteAt (b.markRange start count value).store i := by
  induction count generalizing b c start with
  | zero => exact hbyte
  | succ count ih =>
      refine ih (b := b.mark start value) (c := c.mark start value) horigin ?_ ?_ (start + 1)
      · rw [Bitmap.size_store_mark, Bitmap.size_store_mark, hsize]
      · have hindex : c.byteIndex start = b.byteIndex start := by
          rw [Bitmap.byteIndex, Bitmap.byteIndex, horigin]
        simp only [Bitmap.mark, Bytes.byteAt_put, hindex, hsize]
        by_cases hhere : b.byteIndex start = i ∧ i < b.store.size
        · rw [if_pos hhere, if_pos hhere, hhere.1, hbyte]
        · rw [if_neg hhere, if_neg hhere, hbyte]

/-! ## Handing out -/

theorem nextRun_congr {a b : FrameAllocator} (hcount : b.frameCount = a.frameCount)
    (hcursor : b.cursor = a.cursor) (htaken : ∀ i < a.frameCount, b.taken i = a.taken i)
    (count : Nat) : b.nextRun count = a.nextRun count := by
  rw [nextRun, nextRun, hcount, hcursor, firstRun_congr htaken, firstRun_congr htaken]

theorem nextRun_eq_some {a : FrameAllocator} {count start : Nat} (hcount : 0 < count)
    (hnext : a.nextRun count = some start) :
    start + count ≤ a.frameCount ∧ FreeRun a.taken start count := by
  rw [nextRun, Option.or_eq_some_iff] at hnext
  rcases hnext with hcursor | ⟨_, hrewound⟩
  · exact freeRun_of_firstRun hcount hcursor
  · exact freeRun_of_firstRun hcount hrewound

theorem nextRun_eq_none {a : FrameAllocator} {count : Nat} (hcount : 0 < count)
    (hnext : a.nextRun count = none) (f : Nat) : ¬Set.Ico f (f + count) ⊆ a.freeFrames := by
  intro hrun
  rw [nextRun, Option.or_eq_none_iff] at hnext
  have hlowest : LowestRun a.taken count 0 a.frameCount (firstRun a.taken count 0 a.frameCount) :=
    lowestRun_firstRun hcount
  rw [hnext.2] at hlowest
  have hlow : a.first ≤ f := (hrun (Set.mem_Ico.mpr ⟨le_refl f, by omega⟩)).1.1
  have hhigh : f + count - 1 < a.first + a.frameCount :=
    (hrun (Set.mem_Ico.mpr ⟨by omega, by omega⟩)).1.2
  apply hlowest (f - a.first) (Nat.zero_le _) (by omega)
  intro i hi hlt
  have hfree := (hrun (show a.first + i ∈ _ from Set.mem_Ico.mpr ⟨by omega, by omega⟩)).2
  rwa [Nat.add_sub_cancel_left] at hfree

theorem frameAddress_eq {a : FrameAllocator} (hfits : a.Fits) {start : Nat}
    (hstart : start < a.frameCount) : a.frameAddress start = frameBase (a.first + start) := by
  have hframes := hfits.frames
  have hstartWord : (UInt64.ofNat start).toNat = start := by
    apply UInt64.toNat_ofNat_of_lt'
    simp only [UInt64.size]
    omega
  have hindex : (a.firstFrame.index + UInt64.ofNat start).toNat = a.first + start := by
    rw [Word.toNat_add (by rw [hstartWord]; unfold first at hframes; omega), hstartWord]
    rfl
  rw [frameAddress, Frame.start_eq_frameBase, hindex]

/-- What the allocator is after it handed out a run. -/
def handOut (a : FrameAllocator) (start count : Nat) : FrameAllocator :=
  { a.marked start count true with cursor := start + count }

theorem toNat_pos_of_ne_zero {count : Word} (hzero : count ≠ 0) : 0 < count.toNat := by
  apply Nat.pos_of_ne_zero
  intro heq
  exact hzero (UInt64.toNat_inj.mp heq)

theorem alloc_of_nextRun {a : FrameAllocator} (hfits : a.Fits) {count : Word} (hzero : count ≠ 0)
    {start : Nat} (hnext : a.nextRun count.toNat = some start) :
    a.alloc count = (.ok (frameBase (a.first + start)), a.handOut start count.toNat) := by
  have hcount := toNat_pos_of_ne_zero hzero
  have hrange := (nextRun_eq_some hcount hnext).1
  rw [alloc, if_neg hzero, hnext, ← frameAddress_eq hfits (by omega)]
  rfl

theorem alloc_of_no_run {a : FrameAllocator} {count : Word} (hzero : count ≠ 0)
    (hnext : a.nextRun count.toNat = none) :
    a.alloc count = (.error .outOfMemory, { a with cursor := 0 }) := by
  rw [alloc, if_neg hzero, hnext]

/-- What handing out does: either no run is free and at most the cursor moves, or it marks a free
run and answers its first frame. -/
theorem alloc_cases (a : FrameAllocator) (hfits : a.Fits) (count : Word) :
    (∃ e cursor, a.alloc count = (.error e, { a with cursor }) ∧
        (0 < count.toNat → ∀ f, ¬Set.Ico f (f + count.toNat) ⊆ a.freeFrames)) ∨
      ∃ start, 0 < count.toNat ∧ start + count.toNat ≤ a.frameCount ∧
        Set.Ico (a.first + start) (a.first + start + count.toNat) ⊆ a.freeFrames ∧
        a.alloc count = (.ok (frameBase (a.first + start)), a.handOut start count.toNat) := by
  by_cases hzero : count = 0
  · refine .inl ⟨.emptyRequest, a.cursor, by rw [alloc, if_pos hzero], ?_⟩
    intro hcount
    rw [hzero] at hcount
    exact absurd hcount (Nat.lt_irrefl 0)
  · have hcount := toNat_pos_of_ne_zero hzero
    cases hnext : a.nextRun count.toNat with
    | none =>
        exact .inl ⟨.outOfMemory, 0, alloc_of_no_run hzero hnext,
          fun _ => nextRun_eq_none hcount hnext⟩
    | some start =>
        obtain ⟨hrange, hrun⟩ := nextRun_eq_some hcount hnext
        refine .inr ⟨start, hcount, hrange, ?_, alloc_of_nextRun hfits hzero hnext⟩
        intro f hf
        rw [Set.mem_Ico] at hf
        refine ⟨Set.mem_Ico.mpr ⟨by omega, by omega⟩, ?_⟩
        exact hrun (f - a.first) (by omega) (by omega)

/-- Frames that are handed out were free and are free no more. -/
theorem alloc_eq_ok {a a' : FrameAllocator} (hfits : a.Fits) {count : Word} {base : PhysAddr}
    (halloc : a.alloc count = (.ok base, a')) :
    a'.Fits ∧ a'.tracked = a.tracked ∧
      Set.Ico base.page (base.page + count.toNat) ⊆ a.freeFrames ∧
      a'.freeFrames = a.freeFrames \ Set.Ico base.page (base.page + count.toNat) := by
  rcases a.alloc_cases hfits count with
    ⟨e, cursor, hrun, _⟩ | ⟨start, hcount, hrange, hfree, hrun⟩
  · rw [hrun] at halloc
    cases halloc
  · rw [hrun] at halloc
    obtain ⟨hbase, rfl⟩ := Prod.mk.inj halloc
    have hframes := hfits.frames
    have hpage : base.page = a.first + start := by
      rw [← Except.ok.inj hbase, page_frameBase (by omega)]
    have hmarked : (a.marked start count.toNat true).Fits := hfits.marked
    rw [hpage]
    refine ⟨⟨hmarked.bits, hmarked.frames⟩, rfl, hfree, ?_⟩
    exact (freeFrames_cursor (a.marked start count.toNat true) _).trans
      (freeFrames_marked_true hfits hrange)

theorem alloc_eq_error {a a' : FrameAllocator} (hfits : a.Fits) {count : Word} {e : AllocError}
    (halloc : a.alloc count = (.error e, a')) :
    a'.Fits ∧ a'.tracked = a.tracked ∧ a'.freeFrames = a.freeFrames := by
  rcases a.alloc_cases hfits count with ⟨_, cursor, hrun, _⟩ | ⟨start, _, _, _, hrun⟩
  · rw [hrun] at halloc
    obtain ⟨_, rfl⟩ := Prod.mk.inj halloc
    exact ⟨⟨hfits.bits, hfits.frames⟩, rfl, rfl⟩
  · rw [hrun] at halloc
    cases halloc

/-! ## Giving back and setting aside -/

theorem clip_eq_ok (a : FrameAllocator) {base : PhysAddr} {count : Word}
    (hword : base.page + count.toNat < 2 ^ 64) :
    a.clip base count =
      .ok (if max base.page a.first < min (base.page + count.toNat) (a.first + a.frameCount) then
        some (max base.page a.first - a.first,
          min (base.page + count.toNat) (a.first + a.frameCount) - max base.page a.first)
        else none) := by
  rw [← Frame.toNat_containing base] at hword ⊢
  rw [clip, Word.add_eq_ok hword, ← Word.toNat_add hword]
  rfl

theorem clip_eq_some {a : FrameAllocator} {base : PhysAddr} {count : Word} {start length : Nat}
    (hclip : a.clip base count = .ok (some (start, length))) :
    0 < length ∧ start + length ≤ a.frameCount := by
  obtain ⟨past, _, hrange⟩ := Checked.bind_eq_ok.mp hclip
  have hclipped := Except.ok.inj hrange
  split at hclipped
  next hlow =>
    obtain ⟨rfl, rfl⟩ := Prod.mk.inj (Option.some.inj hclipped)
    omega
  next => cases hclipped

theorem markFrames_eq_ok (a : FrameAllocator) (base : PhysAddr) (count : Word) (value : Bool)
    (hword : base.page + count.toNat < 2 ^ 64) :
    ∃ start length, start + length ≤ a.frameCount ∧
      Set.Ico (a.first + start) (a.first + start + length) =
        Set.Ico base.page (base.page + count.toNat) ∩ a.tracked ∧
      a.markFrames base count value = .ok (a.marked start length value) := by
  rw [markFrames, clip_eq_ok a hword]
  by_cases hsome :
      max base.page a.first < min (base.page + count.toNat) (a.first + a.frameCount)
  · rw [if_pos hsome]
    refine ⟨_, _, ?_, ?_, rfl⟩
    · omega
    · ext f
      simp only [tracked, Set.mem_inter_iff, Set.mem_Ico]
      omega
  · rw [if_neg hsome]
    refine ⟨0, 0, Nat.zero_le _, ?_, rfl⟩
    ext f
    simp only [tracked, Set.mem_inter_iff, Set.mem_Ico]
    omega

theorem markFrames_eq_error (a : FrameAllocator) (base : PhysAddr) (count : Word) (value : Bool)
    (hword : 2 ^ 64 ≤ base.page + count.toNat) :
    a.markFrames base count value = .error .addOverflow := by
  have hadd : Word.add (Frame.containing base).index count = .error .addOverflow :=
    Word.add_eq_error (by rwa [Frame.toNat_containing])
  rw [markFrames, clip, hadd]
  rfl

theorem markFrames_cases {a a' : FrameAllocator} {base : PhysAddr} {count : Word} {value : Bool}
    (hmark : a.markFrames base count value = .ok a') :
    ∃ start length, start + length ≤ a.frameCount ∧
      Set.Ico (a.first + start) (a.first + start + length) =
        Set.Ico base.page (base.page + count.toNat) ∩ a.tracked ∧
      a' = a.marked start length value := by
  by_cases hword : base.page + count.toNat < 2 ^ 64
  · obtain ⟨start, length, hrange, hframes, hrun⟩ := a.markFrames_eq_ok base count value hword
    exact ⟨start, length, hrange, hframes, Except.ok.inj (hmark.symm.trans hrun)⟩
  · rw [markFrames_eq_error a base count value (Nat.not_lt.mp hword)] at hmark
    cases hmark

theorem reserve_eq_ok {a a' : FrameAllocator} {base : PhysAddr} {count : Word} (hfits : a.Fits)
    (hreserve : a.reserve base count = .ok a') :
    ∃ start length, start + length ≤ a.frameCount ∧ a' = a.marked start length true ∧
      a'.freeFrames = a.freeFrames \ Set.Ico base.page (base.page + count.toNat) := by
  obtain ⟨start, length, hrange, hframes, rfl⟩ := markFrames_cases hreserve
  refine ⟨start, length, hrange, rfl, ?_⟩
  rw [freeFrames_marked_true hfits hrange, hframes, Addr.page_pageFloor]
  ext f
  simp only [Set.mem_sdiff, Set.mem_inter_iff]
  constructor
  · rintro ⟨hfree, hout⟩
    exact ⟨hfree, fun hin => hout ⟨hin, hfree.1⟩⟩
  · rintro ⟨hfree, hout⟩
    exact ⟨hfree, fun hin => hout hin.1⟩

theorem free_eq_ok {a a' : FrameAllocator} {base : PhysAddr} {count : Word} (hfits : a.Fits)
    (hfree : a.free base count = .ok a') :
    ∃ start length, start + length ≤ a.frameCount ∧ a' = a.marked start length false ∧
      a'.freeFrames =
        a.freeFrames ∪ Set.Ico base.page (base.page + count.toNat) ∩ a.tracked := by
  unfold free at hfree
  split at hfree
  next =>
    obtain ⟨start, length, hrange, hframes, rfl⟩ := markFrames_cases hfree
    refine ⟨start, length, hrange, rfl, ?_⟩
    rw [freeFrames_marked_false hfits hrange, hframes]
  next => cases hfree

end FrameAllocator

end BootMemory
