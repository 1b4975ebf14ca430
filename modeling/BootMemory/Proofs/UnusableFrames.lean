import BootMemory.Proofs.NextFit

/-!
# Frames that nobody may use

The bitmap has one value for frames that are taken and for frames that cannot be used at all, and
giving back clears the bits of all tracked frames in a range.  So frame 0 and the frames in the
holes of a memory map stay aside as long as nobody gives them back: a run that is handed out holds
only frames that are usable as a whole, and frames that were given back and not taken since.
-/

namespace BootMemory

/-- The frames that lie in a usable region as a whole, all but frame 0. -/
def MemoryMap.fitFrames (map : MemoryMap) : Set Nat :=
  {f | f ≠ 0 ∧ ∃ r ∈ map.usable, r.Holds f}

namespace FrameAllocator

section Fit

variable {map : MemoryMap} {a : FrameAllocator} {returned : Set Nat}

theorem Fresh.freeFrames_subset {hidden : Set Nat} (hfresh : Fresh map a hidden) :
    a.freeFrames ⊆ map.fitFrames := by
  rw [hfresh.spec.2]
  rintro f ⟨hzero, _, hholds⟩
  exact ⟨hzero, hholds⟩

theorem freeFrames_elsewhere {store : ByteArray}
    (hbytes : ∀ i, a.bitmap.origin ≤ i → i < a.bitmap.origin + (a.frameCount + 7) / 8 →
      Bytes.byteAt store i = Bytes.byteAt a.bitmap.store i) :
    ({ a with bitmap := { a.bitmap with store } } : FrameAllocator).freeFrames = a.freeFrames := by
  ext f
  apply and_congr_right
  intro htracked
  have hbit : f - a.first < a.frameCount := by
    have hrange := Set.mem_Ico.mp htracked
    change a.first ≤ f ∧ f < a.first + a.frameCount at hrange
    omega
  exact Eq.congr_left (taken_elsewhere hbytes hbit)

/-- Only giving back adds to the free frames, and it adds no more than to those given back. -/
theorem Reached.freeFrames_subset (hreached : Reached map a returned) :
    a.freeFrames ⊆ map.fitFrames ∪ returned := by
  induction hreached with
  | fresh hfresh => exact hfresh.freeFrames_subset.trans Set.subset_union_left
  | alloc hbefore halloc ih =>
      rw [(alloc_eq_ok hbefore.steady.fits halloc).2.2.2]
      rintro f ⟨hfree, hrun⟩
      exact (ih hfree).imp_right fun hreturned => ⟨hreturned, hrun⟩
  | refused hbefore halloc ih =>
      rwa [(alloc_eq_error hbefore.steady.fits halloc).2.2]
  | free hbefore hfree ih =>
      obtain ⟨_, _, _, _, hframes⟩ := free_eq_ok hbefore.steady.fits hfree
      rw [hframes, ← Set.union_assoc]
      exact Set.union_subset_union_left _ ih
  | reserve hbefore hreserve ih =>
      obtain ⟨_, _, _, _, hframes⟩ := reserve_eq_ok hbefore.steady.fits hreserve
      rw [hframes]
      rintro f ⟨hfree, hrun⟩
      exact (ih hfree).imp_right fun hreturned => ⟨hreturned, hrun⟩
  | elsewhere _ _ hbytes ih =>
      rwa [freeFrames_elsewhere hbytes]

end Fit

/-- Whatever was given back, an allocation answers frames that are usable as a whole and not frame
0, and frames that were given back and not taken since.  If the second are all of the first kind,
the address it answers is not zero and every frame of the run is usable. -/
theorem allocated_frames_are_fit_or_given_back {map : MemoryMap} {a a' : FrameAllocator}
    {returned : Set Nat} (hreached : Reached map a returned) {count : Word} {base : PhysAddr}
    (halloc : a.alloc count = (.ok base, a')) :
    runFrames base count ⊆ map.fitFrames ∪ returned ∧
      (base = ⟨0⟩ → 0 ∈ returned) ∧
      (returned ⊆ map.fitFrames →
        base ≠ ⟨0⟩ ∧ ∀ f ∈ runFrames base count, ∃ r ∈ map.usable, r.Holds f) := by
  have hrun : runFrames base count ⊆ map.fitFrames ∪ returned :=
    (alloc_eq_ok hreached.steady.fits halloc).2.2.1.trans hreached.freeFrames_subset
  have hcount : count ≠ 0 := by
    rintro rfl
    cases halloc
  have hzero : base = ⟨0⟩ → 0 ∈ returned := by
    rintro rfl
    exact (hrun (page_mem_runFrames hcount)).resolve_left fun hfit => hfit.1 rfl
  refine ⟨hrun, hzero, ?_⟩
  intro hreturned
  have hfit : runFrames base count ⊆ map.fitFrames :=
    hrun.trans (Set.union_subset subset_rfl hreturned)
  exact ⟨fun hbase => (hreturned (hzero hbase)).1 rfl, fun f hf => (hfit hf).2⟩

/-- Two usable frames with a hole between them, the first of them frame 0. -/
def holeBetween : MemoryMap :=
  ⟨[⟨⟨0⟩, 0x1000, .usable⟩, ⟨⟨0x1000⟩, 0x1000, .reserved⟩, ⟨⟨0x2000⟩, 0x1000, .usable⟩], none⟩

/-- Frame 2 of the map is free, and the other two are not to be used. -/
def withHole : FrameAllocator :=
  ⟨⟨⟨#[0xFB]⟩, 0⟩, ⟨0⟩, 3, 0⟩

theorem reached_withHole : Reached holeBetween withHole ∅ := by
  have hnew : overStorage holeBetween ⟨#[0]⟩ #[] = .ok withHole _ := rfl
  exact .fresh (.lent hnew)

/-- Frame 2 is given back although nobody holds it, and it is handed out as a usable frame. -/
theorem allocated_frames_are_fit_or_given_back_withHole :
    ∃ a a' returned, withHole.free ⟨0x2000⟩ 8 = .ok a ∧ Reached holeBetween a returned ∧
      a.alloc 1 = (.ok ⟨0x2000⟩, a') ∧ returned ⊆ holeBetween.fitFrames ∧
      ∀ f ∈ runFrames ⟨0x2000⟩ 1, ∃ r ∈ holeBetween.usable, r.Holds f := by
  have hfree : withHole.free ⟨0x2000⟩ 8 = .ok withHole := rfl
  have halloc : withHole.alloc 1 = (.ok ⟨0x2000⟩, ⟨⟨⟨#[0xFF]⟩, 0⟩, ⟨0⟩, 3, 3⟩) := rfl
  have hreached := Reached.free reached_withHole hfree
  have hreturned :
      ∅ ∪ runFrames ⟨0x2000⟩ 8 ∩ withHole.tracked ⊆ holeBetween.fitFrames := by
    rintro f (hnone | ⟨⟨hlow, _⟩, _, hhigh⟩)
    · exact absurd hnone (Set.notMem_empty f)
    · change 2 ≤ f at hlow
      change f < 0 + 3 at hhigh
      obtain rfl : f = 2 := by omega
      exact ⟨by decide, by decide⟩
  obtain ⟨_, _, hfit⟩ := allocated_frames_are_fit_or_given_back hreached halloc
  exact ⟨_, _, _, hfree, hreached, halloc, hreturned, (hfit hreturned).2⟩

/-- Frame 0 and the hole are given back, and the next run starts at address zero and holds both. -/
theorem alloc_hands_out_hole_and_frame_zero :
    ∃ a a', Reached holeBetween withHole ∅ ∧ withHole.free ⟨0⟩ 2 = .ok a ∧
      a.alloc 3 = (.ok ⟨0⟩, a') ∧ 1 ∈ runFrames ⟨0⟩ 3 ∧
      ¬ ∃ r ∈ holeBetween.usable, r.Holds 1 := by
  refine ⟨_, _, reached_withHole, rfl, rfl, ?_, by decide⟩
  exact Set.mem_Ico.mpr ⟨by decide, by decide⟩

end FrameAllocator

end BootMemory
