import BootMemory.Proofs.Leases

/-!
# Next-fit

An allocation takes the lowest free run from the cursor on, the lowest free run of all if there is
none from the cursor on, and fails only if there is no free run at all.  Taking one frame after
another hands out every free frame once: upwards from the cursor, then upwards from the first
frame.  Both are said of the allocators that calls in any order lead to, calls of clients that give
back what they never held among them.
-/

namespace BootMemory

/-- The starts of the free runs of `count` frames from `low` on and below `limit`. -/
def freeRuns (taken : Nat → Bool) (count low limit : Nat) : Set Nat :=
  {start | low ≤ start ∧ start + count ≤ limit ∧ FreeRun taken start count}

section Search

variable {taken : Nat → Bool} {count low limit : Nat}

theorem firstRun_of_nonempty (hcount : 0 < count)
    (hruns : (freeRuns taken count low limit).Nonempty) :
    ∃ start, IsLeast (freeRuns taken count low limit) start ∧
      firstRun taken count low limit = some start := by
  have hlowest : LowestRun taken count low limit (firstRun taken count low limit) :=
    lowestRun_firstRun hcount
  obtain ⟨run, hlow, hlimit, hfree⟩ := hruns
  cases hfirst : firstRun taken count low limit with
  | none =>
      rw [hfirst] at hlowest
      exact absurd hfree (hlowest run hlow hlimit)
  | some start =>
      rw [hfirst] at hlowest
      obtain ⟨hstart, hfits, hrun, hbefore⟩ := hlowest
      refine ⟨start, ⟨⟨hstart, hfits, hrun⟩, ?_⟩, rfl⟩
      rintro other ⟨hother, _, hotherRun⟩
      by_contra hlt
      exact hbefore other hother (Nat.not_le.mp hlt) hotherRun

theorem firstRun_of_empty (hcount : 0 < count) (hruns : freeRuns taken count low limit = ∅) :
    firstRun taken count low limit = none := by
  cases hfirst : firstRun taken count low limit with
  | none => rfl
  | some start =>
      have hlowest : LowestRun taken count low limit (firstRun taken count low limit) :=
        lowestRun_firstRun hcount
      rw [hfirst] at hlowest
      obtain ⟨hstart, hfits, hrun, _⟩ := hlowest
      have hmem : start ∈ freeRuns taken count low limit := ⟨hstart, hfits, hrun⟩
      rw [hruns] at hmem
      exact absurd hmem (Set.notMem_empty start)

end Search

/-! ## Free frames in order -/

/-- The free frames from `low` on and below `high`, upwards. -/
def freeBits (taken : Nat → Bool) (low high : Nat) : List Nat :=
  (List.range' low (high - low)).filter fun i => !taken i

section FreeBits

variable {taken other : Nat → Bool} {low mid high : Nat}

theorem mem_freeBits {i : Nat} :
    i ∈ freeBits taken low high ↔ (low ≤ i ∧ i < high) ∧ taken i = false := by
  rw [freeBits, List.mem_filter, List.mem_range'_1, Bool.not_eq_true']
  apply and_congr_left
  intro _
  omega

theorem pairwise_freeBits : (freeBits taken low high).Pairwise (· < ·) :=
  List.Pairwise.filter _ List.pairwise_lt_range'

theorem freeBits_append (taken : Nat → Bool) (hlow : low ≤ mid) (hhigh : mid ≤ high) :
    freeBits taken low mid ++ freeBits taken mid high = freeBits taken low high := by
  rw [freeBits, freeBits, ← List.filter_append, freeBits]
  congr 1
  have hmid : mid = low + (mid - low) := by omega
  have hsum : high - low = mid - low + (high - mid) := by omega
  rw [hsum, ← List.range'_append_1, ← hmid]

theorem freeBits_congr (hsame : ∀ i, low ≤ i → i < high → other i = taken i) :
    freeBits other low high = freeBits taken low high := by
  apply List.filter_congr
  intro i hi
  obtain ⟨hlow, hhigh⟩ := List.mem_range'_1.mp hi
  rw [hsame i hlow (by omega)]

theorem freeBits_eq_nil (htaken : ∀ i, low ≤ i → i < high → taken i = true) :
    freeBits taken low high = [] := by
  rw [List.eq_nil_iff_forall_not_mem]
  intro i hi
  obtain ⟨⟨hlow, hhigh⟩, hfree⟩ := mem_freeBits.mp hi
  rw [htaken i hlow hhigh] at hfree
  contradiction

theorem freeBits_of_freeRun {start count : Nat} (hrun : FreeRun taken start count) :
    freeBits taken start (start + count) = List.range' start count := by
  rw [freeBits, Nat.add_sub_cancel_left, List.filter_eq_self]
  intro i hi
  obtain ⟨hlow, hhigh⟩ := List.mem_range'_1.mp hi
  rw [hrun i hlow hhigh, Bool.not_false]

/-- What stands before the first free frame is taken, and what stands behind it is the rest. -/
theorem freeBits_eq_cons {bit : Nat} {rest : List Nat}
    (hbits : freeBits taken low high = bit :: rest) :
    (low ≤ bit ∧ bit < high) ∧ taken bit = false ∧ freeBits taken low bit = [] ∧
      freeBits taken (bit + 1) high = rest := by
  have hmem : bit ∈ freeBits taken low high := hbits ▸ List.mem_cons_self
  obtain ⟨⟨hlow, hhigh⟩, hfree⟩ := mem_freeBits.mp hmem
  have hbefore : freeBits taken low bit = [] := by
    rw [List.eq_nil_iff_forall_not_mem]
    intro i hi
    obtain ⟨⟨hilow, hilt⟩, hifree⟩ := mem_freeBits.mp hi
    have hin : i ∈ bit :: rest := hbits ▸ mem_freeBits.mpr ⟨⟨hilow, by omega⟩, hifree⟩
    have hsorted : (bit :: rest).Pairwise (· < ·) := hbits ▸ pairwise_freeBits
    rcases List.mem_cons.mp hin with heq | hrest
    · omega
    · have hlt := List.rel_of_pairwise_cons hsorted hrest
      omega
  have hrun : FreeRun taken bit 1 := by
    intro i hi hlt
    rwa [show i = bit by omega]
  have hsplit := freeBits_append taken hlow hhigh.le
  rw [hbefore, List.nil_append, hbits, ← freeBits_append taken (Nat.le_succ bit) hhigh,
    freeBits_of_freeRun hrun] at hsplit
  exact ⟨⟨hlow, hhigh⟩, hfree, hbefore, (List.cons.inj hsplit).2⟩

theorem firstRun_one : firstRun taken 1 low high = (freeBits taken low high).head? := by
  unfold firstRun freeBits
  generalize high - low = remaining
  induction remaining generalizing low with
  | zero => rfl
  | succ remaining ih =>
      rw [searchRun, List.range'_succ]
      cases htaken : taken low with
      | true =>
          rw [if_pos rfl, ih, List.filter_cons_of_neg (by simp [htaken])]
      | false =>
          rw [if_neg Bool.false_ne_true, if_pos (Nat.zero_add 1),
            List.filter_cons_of_pos (by simp [htaken])]
          rfl

end FreeBits

namespace FrameAllocator

theorem freeCount_eq_length (a : FrameAllocator) :
    a.freeCount = (freeBits a.taken 0 a.frameCount).length := by
  rw [freeCount, Bitmap.countFree, List.countP_eq_length_filter, freeBits, Nat.sub_zero,
    List.range_eq_range']
  rfl

/-- The starts of the runs of `count` free frames from bit `low` on. -/
def runsFrom (a : FrameAllocator) (low count : Nat) : Set Nat :=
  freeRuns a.taken count low a.frameCount

/-! ## Reachable allocators -/

/-- The allocators that calls in any order lead to from a new one, each with the frames that were
given back and not taken since.  The bytes beside the bitmap may change at any time, as they do
where the bitmap lives in the memory it keeps track of. -/
inductive Reached (map : MemoryMap) : FrameAllocator → Set Nat → Prop
  | fresh {a : FrameAllocator} {hidden : Set Nat} (hfresh : Fresh map a hidden) : Reached map a ∅
  | alloc {a a' : FrameAllocator} {returned : Set Nat} {count : Word} {base : PhysAddr}
      (hreached : Reached map a returned) (halloc : a.alloc count = (.ok base, a')) :
      Reached map a' (returned \ runFrames base count)
  | refused {a a' : FrameAllocator} {returned : Set Nat} {count : Word} {e : AllocError}
      (hreached : Reached map a returned) (halloc : a.alloc count = (.error e, a')) :
      Reached map a' returned
  | free {a a' : FrameAllocator} {returned : Set Nat} {count : Word} {base : PhysAddr}
      (hreached : Reached map a returned) (hfree : a.free base count = .ok a') :
      Reached map a' (returned ∪ runFrames base count ∩ a.tracked)
  | reserve {a a' : FrameAllocator} {returned : Set Nat} {count : Word} {base : PhysAddr}
      (hreached : Reached map a returned) (hreserve : a.reserve base count = .ok a') :
      Reached map a' (returned \ runFrames base count)
  | elsewhere {a : FrameAllocator} {returned : Set Nat} {store : ByteArray}
      (hreached : Reached map a returned) (hsize : store.size = a.bitmap.store.size)
      (hbytes : ∀ i, a.bitmap.origin ≤ i → i < a.bitmap.origin + (a.frameCount + 7) / 8 →
        Bytes.byteAt store i = Bytes.byteAt a.bitmap.store i) :
      Reached map { a with bitmap := { a.bitmap with store } } returned

/-- Frames given back and not taken since are free, and the cursor stays in the tracked range. -/
structure Steady (a : FrameAllocator) (returned : Set Nat) : Prop where
  fits : a.Fits
  cursor : a.cursor ≤ a.frameCount
  returned : returned ⊆ a.freeFrames

section Steady

variable {a a' : FrameAllocator} {returned : Set Nat} {count : Word}

theorem Fresh.steady {map : MemoryMap} {hidden : Set Nat} (hfresh : Fresh map a hidden) :
    a.Steady ∅ := by
  refine ⟨hfresh.spec.1, ?_, Set.empty_subset _⟩
  cases hfresh with
  | lent hrun => exact (overStorage_eq_ok hrun).cursor.trans_le (Nat.zero_le _)
  | hosted hrun => exact (Machine.selfHosted_eq_ok hrun).cursor.trans_le (Nat.zero_le _)

theorem Steady.alloc (hsteady : a.Steady returned) {base : PhysAddr}
    (halloc : a.alloc count = (.ok base, a')) : a'.Steady (returned \ runFrames base count) := by
  obtain ⟨hfits, _, _, hfree⟩ := alloc_eq_ok hsteady.fits halloc
  refine ⟨hfits, ?_, ?_⟩
  · rcases a.alloc_cases hsteady.fits count with ⟨_, _, hrun, _⟩ | ⟨start, _, hrange, _, hrun⟩
    · cases hrun.symm.trans halloc
    · cases hrun.symm.trans halloc
      exact hrange
  · rw [hfree]
    exact Set.sdiff_subset_sdiff_left hsteady.returned

theorem Steady.refused (hsteady : a.Steady returned) {e : AllocError}
    (halloc : a.alloc count = (.error e, a')) : a'.Steady returned := by
  obtain ⟨hfits, _, hfree⟩ := alloc_eq_error hsteady.fits halloc
  refine ⟨hfits, ?_, hfree.symm ▸ hsteady.returned⟩
  unfold FrameAllocator.alloc at halloc
  split at halloc
  · exact (Prod.mk.inj halloc).2 ▸ hsteady.cursor
  · split at halloc
    · exact (Prod.mk.inj halloc).2 ▸ Nat.zero_le _
    · cases halloc

theorem Steady.free (hsteady : a.Steady returned) {base : PhysAddr}
    (hfree : a.free base count = .ok a') :
    a'.Steady (returned ∪ runFrames base count ∩ a.tracked) := by
  obtain ⟨start, length, _, rfl, hframes⟩ := free_eq_ok hsteady.fits hfree
  refine ⟨hsteady.fits.marked, hsteady.cursor, ?_⟩
  rw [hframes]
  exact Set.union_subset_union_left _ hsteady.returned

theorem Steady.reserve (hsteady : a.Steady returned) {base : PhysAddr}
    (hreserve : a.reserve base count = .ok a') : a'.Steady (returned \ runFrames base count) := by
  obtain ⟨start, length, _, rfl, hframes⟩ := reserve_eq_ok hsteady.fits hreserve
  refine ⟨hsteady.fits.marked, hsteady.cursor, ?_⟩
  rw [hframes]
  exact Set.sdiff_subset_sdiff_left hsteady.returned

theorem taken_elsewhere {store : ByteArray}
    (hbytes : ∀ i, a.bitmap.origin ≤ i → i < a.bitmap.origin + (a.frameCount + 7) / 8 →
      Bytes.byteAt store i = Bytes.byteAt a.bitmap.store i)
    {bit : Nat} (hbit : bit < a.frameCount) :
    Bitmap.taken { a.bitmap with store } bit = a.taken bit := by
  have hbyte : Bytes.byteAt store (a.bitmap.byteIndex bit) =
      Bytes.byteAt a.bitmap.store (a.bitmap.byteIndex bit) := by
    apply hbytes
    · exact Nat.le_add_right _ _
    · rw [Bitmap.byteIndex]
      omega
  rw [taken, Bitmap.taken, Bitmap.taken, ← hbyte]
  rfl

theorem Steady.elsewhere (hsteady : a.Steady returned) {store : ByteArray}
    (hsize : store.size = a.bitmap.store.size)
    (hbytes : ∀ i, a.bitmap.origin ≤ i → i < a.bitmap.origin + (a.frameCount + 7) / 8 →
      Bytes.byteAt store i = Bytes.byteAt a.bitmap.store i) :
    ({ a with bitmap := { a.bitmap with store } } : FrameAllocator).Steady returned := by
  refine ⟨⟨hsize.symm ▸ hsteady.fits.bits, hsteady.fits.frames⟩, hsteady.cursor, ?_⟩
  intro f hf
  obtain ⟨htracked, htaken⟩ := hsteady.returned hf
  have hbit : f - a.first < a.frameCount := by
    have hrange := Set.mem_Ico.mp htracked
    omega
  exact ⟨htracked, (taken_elsewhere hbytes hbit).trans htaken⟩

theorem Reached.steady {map : MemoryMap} (hreached : Reached map a returned) :
    a.Steady returned := by
  induction hreached with
  | fresh hfresh => exact hfresh.steady
  | alloc _ halloc ih => exact ih.alloc halloc
  | refused _ halloc ih => exact ih.refused halloc
  | free _ hfree ih => exact ih.free hfree
  | reserve _ hreserve ih => exact ih.reserve hreserve
  | elsewhere _ hsize hbytes ih => exact ih.elsewhere hsize hbytes

end Steady

/-! ## One allocation -/

/-- What an allocation leaves that hands out `count` frames from bit `start` on: exactly their
bits get set, and the cursor moves to the end of the run. -/
structure HandsOut (a : FrameAllocator) (start count : Nat) (a' : FrameAllocator) : Prop where
  bits : ∀ i, a'.taken i = true ↔ (start ≤ i ∧ i < start + count) ∨ a.taken i = true
  free : a'.freeCount + count = a.freeCount
  cursor : a'.cursor = start + count
  inside : a'.cursor ≤ a'.frameCount
  first : a'.first = a.first
  frameCount : a'.frameCount = a.frameCount

section HandOut

variable {a : FrameAllocator} {start count : Nat}

theorem taken_handOut (hfits : a.Fits) (hrange : start + count ≤ a.frameCount) (i : Nat) :
    (a.handOut start count).taken i = if start ≤ i ∧ i < start + count then true else a.taken i :=
  taken_marked hfits hrange i

theorem freeBits_handOut_of_outside (hfits : a.Fits) (hrange : start + count ≤ a.frameCount)
    {low high : Nat} (houtside : high ≤ start ∨ start + count ≤ low) :
    freeBits (a.handOut start count).taken low high = freeBits a.taken low high := by
  apply freeBits_congr
  intro i hlow hhigh
  rw [taken_handOut hfits hrange, if_neg (by omega)]

theorem freeBits_handOut_self (hfits : a.Fits) (hrange : start + count ≤ a.frameCount) :
    freeBits (a.handOut start count).taken start (start + count) = [] := by
  apply freeBits_eq_nil
  intro i hlow hhigh
  rw [taken_handOut hfits hrange, if_pos ⟨hlow, hhigh⟩]

theorem length_freeBits_around (taken : Nat → Bool) {limit : Nat} (hrange : start + count ≤ limit) :
    (freeBits taken 0 limit).length = (freeBits taken 0 start).length +
      (freeBits taken start (start + count)).length +
        (freeBits taken (start + count) limit).length := by
  rw [← freeBits_append taken (Nat.zero_le (start + count)) hrange,
    ← freeBits_append taken (Nat.zero_le start) (Nat.le_add_right start count),
    List.length_append, List.length_append]

theorem freeCount_handOut (hfits : a.Fits) (hrange : start + count ≤ a.frameCount)
    (hrun : FreeRun a.taken start count) :
    (a.handOut start count).freeCount + count = a.freeCount := by
  have hcount : (a.handOut start count).frameCount = a.frameCount := rfl
  rw [freeCount_eq_length, freeCount_eq_length, hcount, length_freeBits_around _ hrange,
    length_freeBits_around _ hrange,
    freeBits_handOut_of_outside hfits hrange (.inl (le_refl start)),
    freeBits_handOut_of_outside hfits hrange (.inr (le_refl (start + count))),
    freeBits_handOut_self hfits hrange, freeBits_of_freeRun hrun, List.length_range',
    List.length_nil]
  omega

theorem handsOut_handOut (hfits : a.Fits) (hrun : start ∈ a.runsFrom 0 count) :
    a.HandsOut start count (a.handOut start count) := by
  obtain ⟨_, hrange, hfree⟩ := hrun
  refine ⟨?_, freeCount_handOut hfits hrange hfree, rfl, hrange, rfl, rfl⟩
  intro i
  rw [taken_handOut hfits hrange]
  by_cases hin : start ≤ i ∧ i < start + count
  · simp only [if_pos hin, true_iff]
    exact .inl hin
  · rw [if_neg hin, or_iff_right hin]

theorem runsFrom_subset (a : FrameAllocator) (low count : Nat) :
    a.runsFrom low count ⊆ a.runsFrom 0 count :=
  fun _ hrun => ⟨Nat.zero_le _, hrun.2⟩

end HandOut

/-- An allocation is next-fit and complete: it takes the lowest free run from the cursor on, if
there is none from the cursor on then the lowest of all, and fails only if there is none. -/
theorem alloc_is_next_fit {map : MemoryMap} {a : FrameAllocator} {returned : Set Nat}
    (hreached : Reached map a returned) (count : Word) :
    a.cursor ≤ a.frameCount ∧
      (count = 0 → a.alloc count = (.error .emptyRequest, a)) ∧
      (count ≠ 0 →
        ((a.runsFrom a.cursor count.toNat).Nonempty →
          ∃ start a', IsLeast (a.runsFrom a.cursor count.toNat) start ∧
            a.alloc count = (.ok (frameBase (a.first + start)), a') ∧
            a.HandsOut start count.toNat a') ∧
        (a.runsFrom a.cursor count.toNat = ∅ → (a.runsFrom 0 count.toNat).Nonempty →
          ∃ start a', IsLeast (a.runsFrom 0 count.toNat) start ∧
            a.alloc count = (.ok (frameBase (a.first + start)), a') ∧
            a.HandsOut start count.toNat a') ∧
        (a.runsFrom 0 count.toNat = ∅ →
          a.alloc count = (.error .outOfMemory, { a with cursor := 0 }))) := by
  have hsteady := hreached.steady
  have hfits := hsteady.fits
  refine ⟨hsteady.cursor, ?_, ?_⟩
  · intro hzero
    rw [alloc, if_pos hzero]
  intro hzero
  have hcount := toNat_pos_of_ne_zero hzero
  refine ⟨?_, ?_, ?_⟩
  · intro hruns
    obtain ⟨start, hleast, hfirst⟩ := firstRun_of_nonempty hcount hruns
    have hnext : a.nextRun count.toNat = some start := by
      rw [nextRun, hfirst, Option.some_or]
    exact ⟨start, _, hleast, alloc_of_nextRun hfits hzero hnext,
      handsOut_handOut hfits (runsFrom_subset a _ _ hleast.1)⟩
  · intro hnone hruns
    obtain ⟨start, hleast, hfirst⟩ := firstRun_of_nonempty hcount hruns
    have hnext : a.nextRun count.toNat = some start := by
      rw [nextRun, firstRun_of_empty hcount hnone, Option.none_or, hfirst]
    exact ⟨start, _, hleast, alloc_of_nextRun hfits hzero hnext,
      handsOut_handOut hfits hleast.1⟩
  · intro hnone
    have hlater : a.runsFrom a.cursor count.toNat = ∅ :=
      Set.subset_eq_empty (runsFrom_subset a _ _) hnone
    apply alloc_of_no_run hzero
    rw [nextRun, firstRun_of_empty hcount hlater, Option.none_or, firstRun_of_empty hcount hnone]

/-- Frames 1 and 2 of a small map were handed out and given back. -/
def givenBack : FrameAllocator :=
  ⟨⟨⟨#[0xF1]⟩, 0⟩, ⟨0⟩, 4, 3⟩

theorem reached_givenBack :
    Reached fourFrames givenBack
      (∅ \ runFrames ⟨0x1000⟩ 2 ∪ runFrames ⟨0x1000⟩ 2 ∩ givenBack.tracked) := by
  have hnew : overStorage fourFrames ⟨#[0]⟩ #[] = .ok ⟨⟨⟨#[0xF1]⟩, 0⟩, ⟨0⟩, 4, 0⟩ _ := rfl
  have halloc : (⟨⟨⟨#[0xF1]⟩, 0⟩, ⟨0⟩, 4, 0⟩ : FrameAllocator).alloc 2 =
      (.ok ⟨0x1000⟩, ⟨⟨⟨#[0xF7]⟩, 0⟩, ⟨0⟩, 4, 3⟩) := rfl
  have hfree : (⟨⟨⟨#[0xF7]⟩, 0⟩, ⟨0⟩, 4, 3⟩ : FrameAllocator).free ⟨0x1000⟩ 2 =
      .ok givenBack := rfl
  have hheld : Reached fourFrames ⟨⟨⟨#[0xF7]⟩, 0⟩, ⟨0⟩, 4, 3⟩ (∅ \ runFrames ⟨0x1000⟩ 2) :=
    .alloc (.fresh (.lent hnew)) halloc
  have hback := Reached.free hheld hfree
  exact hback

/-- The only run of three frames goes through the cursor. -/
theorem alloc_is_next_fit_through_cursor :
    givenBack.cursor = 3 ∧ givenBack.runsFrom 3 3 = ∅ ∧
      (∃ a', givenBack.alloc 3 = (.ok (frameBase 1), a') ∧ givenBack.HandsOut 1 3 a') ∧
      givenBack.alloc 4 = (.error .outOfMemory, { givenBack with cursor := 0 }) := by
  have hlater : givenBack.runsFrom 3 3 = ∅ := by
    rw [Set.eq_empty_iff_forall_notMem]
    rintro start ⟨hlow, hfits, _⟩
    have hlast : start + 3 ≤ 4 := hfits
    omega
  have hstart : ∀ {count start : Nat}, start ∈ givenBack.runsFrom 0 count → 0 < count →
      start ≠ 0 := by
    rintro count start ⟨_, _, hrun⟩ hcount rfl
    have hzero : givenBack.taken 0 = false := hrun 0 le_rfl (by omega)
    cases hzero
  have hrun : 1 ∈ givenBack.runsFrom 0 3 := by
    refine ⟨Nat.zero_le _, le_rfl, ?_⟩
    intro i hlow hhigh
    obtain rfl | rfl | rfl : i = 1 ∨ i = 2 ∨ i = 3 := by omega
    all_goals rfl
  have hnone : givenBack.runsFrom 0 4 = ∅ := by
    rw [Set.eq_empty_iff_forall_notMem]
    intro start hmem
    have hlast : start + 4 ≤ 4 := hmem.2.1
    exact hstart hmem (by decide) (by omega)
  obtain ⟨_, _, hthree⟩ := alloc_is_next_fit reached_givenBack 3
  obtain ⟨start, a', hleast, halloc, hout⟩ := (hthree (by decide)).2.1 hlater ⟨1, hrun⟩
  have hone : start = 1 := by
    have hle : start ≤ 1 := hleast.2 hrun
    have hpos := hstart hleast.1 (by decide)
    omega
  rw [hone] at halloc hout
  obtain ⟨_, _, hfour⟩ := alloc_is_next_fit reached_givenBack 4
  exact ⟨rfl, hlater, ⟨a', halloc, hout⟩, (hfour (by decide)).2.2 hnone⟩

/-! ## Draining -/

/-- The results of `calls` allocations of one frame each, one after another. -/
def drain (a : FrameAllocator) : (calls : Nat) → List (Except AllocError PhysAddr)
  | 0 => []
  | calls + 1 => (a.alloc 1).1 :: (a.alloc 1).2.drain calls

/-- The free bits in the order in which single allocations take them. -/
def pending (a : FrameAllocator) : List Nat :=
  freeBits a.taken a.cursor a.frameCount ++ freeBits a.taken 0 a.cursor

section Drain

variable {a : FrameAllocator}

theorem length_pending (hcursor : a.cursor ≤ a.frameCount) : a.pending.length = a.freeCount := by
  rw [freeCount_eq_length, ← freeBits_append _ (Nat.zero_le a.cursor) hcursor, pending,
    List.length_append, List.length_append, Nat.add_comm]

theorem nextRun_one (hcursor : a.cursor ≤ a.frameCount) : a.nextRun 1 = a.pending.head? := by
  rw [nextRun, firstRun_one, firstRun_one, pending,
    ← freeBits_append _ (Nat.zero_le a.cursor) hcursor, List.head?_append, List.head?_append]
  cases freeBits a.taken a.cursor a.frameCount with
  | nil => simp
  | cons bit rest => rfl

/-- Taking the first pending bit leaves the others pending in the same order, also where the
search goes back to bit 0. -/
theorem pending_handOut (hfits : a.Fits) (hcursor : a.cursor ≤ a.frameCount) {bit : Nat}
    {rest : List Nat} (hpending : a.pending = bit :: rest) :
    bit < a.frameCount ∧ (a.handOut bit 1).pending = rest := by
  have hform : (a.handOut bit 1).pending =
      freeBits (a.handOut bit 1).taken (bit + 1) a.frameCount ++
        freeBits (a.handOut bit 1).taken 0 (bit + 1) := rfl
  rw [pending] at hpending
  cases hlater : freeBits a.taken a.cursor a.frameCount with
  | cons first others =>
      rw [hlater, List.cons_append] at hpending
      obtain ⟨rfl, rfl⟩ := List.cons.inj hpending
      obtain ⟨⟨hlow, hrange⟩, _, hbefore, hothers⟩ := freeBits_eq_cons hlater
      refine ⟨hrange, ?_⟩
      rw [hform, freeBits_handOut_of_outside hfits hrange (.inr le_rfl), hothers,
        ← freeBits_append _ (Nat.zero_le first) (Nat.le_succ first),
        freeBits_handOut_self hfits hrange, List.append_nil,
        freeBits_handOut_of_outside hfits hrange (.inl le_rfl),
        ← freeBits_append _ (Nat.zero_le a.cursor) hlow, hbefore, List.append_nil]
  | nil =>
      rw [hlater, List.nil_append] at hpending
      obtain ⟨⟨_, hlow⟩, _, hbefore, hothers⟩ := freeBits_eq_cons hpending
      have hrange : bit + 1 ≤ a.frameCount := Nat.le_trans hlow hcursor
      refine ⟨hrange, ?_⟩
      rw [hform, freeBits_handOut_of_outside hfits hrange (.inr le_rfl),
        ← freeBits_append _ hlow hcursor, hothers, hlater, List.append_nil,
        ← freeBits_append _ (Nat.zero_le bit) (Nat.le_succ bit), freeBits_handOut_self hfits hrange,
        freeBits_handOut_of_outside hfits hrange (.inl le_rfl), hbefore, List.append_nil,
        List.append_nil]

theorem drain_of_nothing_pending (hcursor : a.cursor ≤ a.frameCount) (hpending : a.pending = [])
    (calls : Nat) : a.drain calls = List.replicate calls (.error .outOfMemory) := by
  induction calls generalizing a with
  | zero => rfl
  | succ calls ih =>
      have hnext : a.nextRun 1 = none := by
        rw [nextRun_one hcursor, hpending]
        rfl
      have halloc : a.alloc 1 = (.error .outOfMemory, { a with cursor := 0 }) :=
        alloc_of_no_run (by decide) hnext
      have hrewound : ({ a with cursor := 0 } : FrameAllocator).pending = [] := by
        obtain ⟨hlater, hbefore⟩ := List.append_eq_nil_iff.mp hpending
        change freeBits a.taken 0 a.frameCount ++ [] = []
        rw [List.append_nil, ← freeBits_append _ (Nat.zero_le a.cursor) hcursor, hlater, hbefore]
        rfl
      rw [drain, halloc, List.replicate_succ, ih (Nat.zero_le _) hrewound]

/-- Single allocations take the pending bits in order and fail from then on. -/
theorem drain_eq {bits : List Nat} (hfits : a.Fits) (hcursor : a.cursor ≤ a.frameCount)
    (hpending : a.pending = bits) (extra : Nat) :
    a.drain (bits.length + extra) =
      bits.map (fun bit => .ok (frameBase (a.first + bit))) ++
        List.replicate extra (.error .outOfMemory) := by
  induction bits generalizing a with
  | nil =>
      rw [List.length_nil, Nat.zero_add, drain_of_nothing_pending hcursor hpending]
      rfl
  | cons bit rest ih =>
      obtain ⟨hbit, hrest⟩ := pending_handOut hfits hcursor hpending
      have hnext : a.nextRun 1 = some bit := by
        rw [nextRun_one hcursor, hpending]
        rfl
      have halloc : a.alloc 1 = (.ok (frameBase (a.first + bit)), a.handOut bit 1) :=
        alloc_of_nextRun hfits (by decide) hnext
      have hmarked : (a.marked bit 1 true).Fits := hfits.marked
      rw [List.length_cons, Nat.add_right_comm, drain, halloc,
        ih (a := a.handOut bit 1) ⟨hmarked.bits, hmarked.frames⟩ hbit hrest]
      rfl

theorem mem_map_freeBits {low high f : Nat} :
    f ∈ (freeBits a.taken low high).map (a.first + ·) ↔
      (a.first + low ≤ f ∧ f < a.first + high) ∧ a.taken (f - a.first) = false := by
  rw [List.mem_map]
  constructor
  · rintro ⟨bit, hbit, rfl⟩
    obtain ⟨hrange, hfree⟩ := mem_freeBits.mp hbit
    rw [Nat.add_sub_cancel_left]
    exact ⟨by omega, hfree⟩
  · rintro ⟨hrange, hfree⟩
    exact ⟨f - a.first, mem_freeBits.mpr ⟨by omega, hfree⟩, by omega⟩

theorem pairwise_map_freeBits (low high : Nat) :
    ((freeBits a.taken low high).map (a.first + ·)).Pairwise (· < ·) :=
  List.pairwise_map.mpr (pairwise_freeBits.imp fun hlt => Nat.add_lt_add_left hlt a.first)

theorem mem_frames_from_cursor {f : Nat} :
    f ∈ (freeBits a.taken a.cursor a.frameCount).map (a.first + ·) ↔
      f ∈ a.freeFrames ∧ a.first + a.cursor ≤ f := by
  rw [mem_map_freeBits, mem_freeFrames]
  constructor
  · rintro ⟨⟨hlow, hhigh⟩, hfree⟩
    exact ⟨⟨⟨by omega, hhigh⟩, hfree⟩, hlow⟩
  · rintro ⟨⟨⟨_, hhigh⟩, hfree⟩, hlow⟩
    exact ⟨⟨hlow, hhigh⟩, hfree⟩

theorem mem_frames_before_cursor (hcursor : a.cursor ≤ a.frameCount) {f : Nat} :
    f ∈ (freeBits a.taken 0 a.cursor).map (a.first + ·) ↔
      f ∈ a.freeFrames ∧ f < a.first + a.cursor := by
  rw [mem_map_freeBits, mem_freeFrames]
  constructor
  · rintro ⟨⟨hlow, hhigh⟩, hfree⟩
    exact ⟨⟨⟨hlow, by omega⟩, hfree⟩, hhigh⟩
  · rintro ⟨⟨⟨hlow, _⟩, hfree⟩, hhigh⟩
    exact ⟨⟨hlow, hhigh⟩, hfree⟩

end Drain

/-- Single allocations hand out every free frame once, first those from the cursor on and then
those before it, and report that memory is out only after that. -/
theorem drain_hands_out_all_free {map : MemoryMap} {a : FrameAllocator} {returned : Set Nat}
    (hreached : Reached map a returned) :
    ∃ upper lower : List Nat, upper.Pairwise (· < ·) ∧ lower.Pairwise (· < ·) ∧
      (∀ f, f ∈ upper ↔ f ∈ a.freeFrames ∧ a.first + a.cursor ≤ f) ∧
      (∀ f, f ∈ lower ↔ f ∈ a.freeFrames ∧ f < a.first + a.cursor) ∧
      upper.length + lower.length = a.freeCount ∧
      (∀ extra, a.drain (a.freeCount + extra) =
        (upper ++ lower).map (fun f => .ok (frameBase f)) ++
          List.replicate extra (.error .outOfMemory)) ∧
      ∀ f ∈ returned, .ok (frameBase f) ∈ a.drain a.freeCount := by
  obtain ⟨hfits, hcursor, hreturned⟩ := hreached.steady
  have hlength := length_pending hcursor
  have hdrain : ∀ extra, a.drain (a.freeCount + extra) =
      ((freeBits a.taken a.cursor a.frameCount).map (a.first + ·) ++
        (freeBits a.taken 0 a.cursor).map (a.first + ·)).map (fun f => .ok (frameBase f)) ++
        List.replicate extra (.error .outOfMemory) := by
    intro extra
    rw [← hlength, drain_eq hfits hcursor rfl, pending, ← List.map_append, List.map_map]
    rfl
  refine ⟨_, _, pairwise_map_freeBits _ _, pairwise_map_freeBits _ _,
    fun _ => mem_frames_from_cursor, fun _ => mem_frames_before_cursor hcursor, ?_, hdrain, ?_⟩
  · rw [List.length_map, List.length_map, ← hlength, pending, List.length_append]
  · intro f hf
    rw [← Nat.add_zero a.freeCount, hdrain 0, List.replicate_zero, List.append_nil]
    apply List.mem_map_of_mem
    rw [List.mem_append, mem_frames_from_cursor, mem_frames_before_cursor hcursor]
    rcases Nat.lt_or_ge f (a.first + a.cursor) with hbefore | hlater
    · exact .inr ⟨hreturned hf, hbefore⟩
    · exact .inl ⟨hreturned hf, hlater⟩

example : givenBack.drain 4 =
    [.ok ⟨0x3000⟩, .ok ⟨0x1000⟩, .ok ⟨0x2000⟩, .error .outOfMemory] := rfl

theorem drain_hands_out_all_free_givenBack :
    (∃ upper lower : List Nat, (∀ f, f ∈ upper ↔ f ∈ givenBack.freeFrames ∧ 3 ≤ f) ∧
      (∀ f, f ∈ lower ↔ f ∈ givenBack.freeFrames ∧ f < 3) ∧
      givenBack.drain 5 = (upper ++ lower).map (fun f => .ok (frameBase f)) ++
        List.replicate 2 (.error .outOfMemory)) ∧
      ∀ f, f = 1 ∨ f = 2 → .ok (frameBase f) ∈ givenBack.drain 3 := by
  obtain ⟨upper, lower, _, _, hupper, hlower, _, hdrain, hreturned⟩ :=
    drain_hands_out_all_free reached_givenBack
  refine ⟨⟨upper, lower, hupper, hlower, hdrain 2⟩, ?_⟩
  intro f hf
  refine hreturned f (.inr ⟨?_, ?_⟩)
  · change 1 ≤ f ∧ f < 1 + 2
    omega
  · change 0 ≤ f ∧ f < 0 + 4
    omega

end FrameAllocator

end BootMemory
