import BootMemory.Proofs.Rehousing

/-!
# Booting with the bitmap in memory or beside it

A new allocator writes its bits in the same way wherever they are kept: it fills them, clears those
of the usable ranges, and marks frame 0 again.  So a machine that keeps its own bitmap has a twin
over storage of its own, which only has to set the frames of the bitmap aside.
-/

namespace BootMemory

/-- Every byte of a usable region lies in the memory. -/
def Memory.Covers (memory : Memory) (map : MemoryMap) : Prop :=
  ∀ r ∈ map.usable, ∀ a, r.base.word.toNat ≤ a → a < r.base.word.toNat + r.length.toNat →
    memory.base.word.toNat ≤ a ∧ a < memory.base.word.toNat + memory.size

theorem Memory.Covers.frame {memory : Memory} {map : MemoryMap} (hcovers : memory.Covers map)
    {f : Nat} (hheld : ∃ r ∈ map.usable, r.Holds f) :
    memory.base.word.toNat ≤ f * 4096 ∧
      f * 4096 + 4096 ≤ memory.base.word.toNat + memory.size := by
  obtain ⟨r, hr, hlow, hhigh⟩ := hheld
  have hbelow : f * 4096 < r.base.word.toNat + r.length.toNat := by
    omega
  have hfirst := hcovers r hr (f * 4096) hlow hbelow
  have hlast := hcovers r hr (f * 4096 + 4095) (Nat.le_add_right_of_le hlow) hhigh
  exact ⟨hfirst.1, hlast.2⟩

namespace PageRange.Whole

variable {range : PageRange}

theorem first_mem (hwhole : range.Whole) : range.start.toNat / 4096 ∈ range.frames := by
  obtain ⟨hstart, hstop, hnonempty⟩ := hwhole
  exact Set.mem_Ico.mpr (by omega)

theorem last_mem (hwhole : range.Whole) : range.stop.toNat / 4096 - 1 ∈ range.frames := by
  obtain ⟨hstart, hstop, hnonempty⟩ := hwhole
  exact Set.mem_Ico.mpr (by omega)

end PageRange.Whole

theorem Bitmap.SameBytes.foldl_clearRange {size : Nat} {b c : Bitmap} (hsame : SameBytes size b c)
    (base : PhysAddr) (ranges : List PageRange) :
    SameBytes size (ranges.foldl (FrameAllocator.clearRange base) b)
      (ranges.foldl (FrameAllocator.clearRange base) c) := by
  induction ranges generalizing b c with
  | nil => exact hsame
  | cons range rest ih => exact ih (hsame.markRange _ _ false)

namespace FrameAllocator

/-- Two allocators that differ only in where their bits are kept. -/
structure SameBits (a b : FrameAllocator) : Prop where
  firstFrame : b.firstFrame = a.firstFrame
  frameCount : b.frameCount = a.frameCount
  cursor : b.cursor = a.cursor
  bits : Bitmap.SameBytes ((a.frameCount + 7) / 8) a.bitmap b.bitmap

namespace SameBits

variable {a b a' : FrameAllocator}

theorem withoutFrameZero (hsame : SameBits a b) (hsome : 0 < a.frameCount) :
    SameBits a.withoutFrameZero b.withoutFrameZero := by
  have htaken : b.taken 0 = a.taken 0 := hsame.bits.taken_eq (by omega)
  have hoffers : b.offersFrameZero = a.offersFrameZero := by
    rw [offersFrameZero, offersFrameZero, hsame.firstFrame, htaken]
  unfold FrameAllocator.withoutFrameZero
  rw [hoffers]
  split
  · exact ⟨hsame.firstFrame, hsame.frameCount, hsame.cursor, hsame.bits.mark 0 true⟩
  · exact hsame

theorem reserve (hsame : SameBits a b) {base : PhysAddr} {count : Word}
    (hreserve : a.reserve base count = .ok a') :
    ∃ b', b.reserve base count = .ok b' ∧ SameBits a' b' := by
  rw [FrameAllocator.reserve] at hreserve
  rcases markFrames_congr hsame.firstFrame hsame.frameCount base.pageFloor count true with
    ⟨f, ha, _⟩ | ⟨start, length, _, ha, hb⟩
  · cases hreserve.symm.trans ha
  · obtain rfl := Except.ok.inj (hreserve.symm.trans ha)
    exact ⟨_, hb, hsame.firstFrame, hsame.frameCount, hsame.cursor,
      hsame.bits.markRange start length true⟩

end SameBits

theorem byteAt_withoutFrameZero (a : FrameAllocator) (hsome : 0 < a.frameCount) {i : Nat}
    (houtside : i < a.bitmap.origin ∨ a.bitmap.origin + (a.frameCount + 7) / 8 ≤ i) :
    Bytes.byteAt a.withoutFrameZero.bitmap.store i = Bytes.byteAt a.bitmap.store i := by
  unfold withoutFrameZero
  split
  · have hbit : 0 + 1 ≤ a.frameCount := hsome
    exact byteAt_marked_of_outside true hbit houtside
  · rfl

theorem first_withoutFrameZero (a : FrameAllocator) : a.withoutFrameZero.first = a.first := by
  unfold withoutFrameZero
  split <;> rfl

section Surveyed

variable {map : MemoryMap} {survey : MemorySurvey} {count size : Word} {ranges : List PageRange}
  {b c : Bitmap}

theorem Surveyed.frameCount_pos (hsurveyed : Surveyed map survey count size ranges) :
    0 < count.toNat := by
  have htop := hsurveyed.top
  have hnonempty := hsurveyed.bounds.nonempty
  omega

theorem sameBits_offering (hsurveyed : Surveyed map survey count size ranges)
    (hleft : b.origin + size.toNat ≤ b.store.size) (hright : c.origin + size.toNat ≤ c.store.size) :
    SameBits (offering survey count size b ranges).withoutFrameZero
      (offering survey count size c ranges).withoutFrameZero := by
  have hcleared := (Bitmap.SameBytes.fill hleft hright).foldl_clearRange survey.base ranges
  have hbytes : ((offering survey count size b ranges).frameCount + 7) / 8 = size.toNat :=
    hsurveyed.bytes.symm
  have hoffering : SameBits (offering survey count size b ranges)
      (offering survey count size c ranges) := by
    refine ⟨rfl, rfl, rfl, ?_⟩
    rw [hbytes]
    exact hcleared
  exact hoffering.withoutFrameZero hsurveyed.frameCount_pos

/-- Whatever the builder does, it writes no byte beside the bitmap. -/
theorem byteAt_offering_of_outside (hsurveyed : Surveyed map survey count size ranges)
    (hroom : b.origin + size.toNat ≤ b.store.size) {i : Nat}
    (houtside : i < b.origin ∨ b.origin + size.toNat ≤ i) :
    Bytes.byteAt (offering survey count size b ranges).withoutFrameZero.bitmap.store i =
      Bytes.byteAt b.store i := by
  have hfilled : Bytes.byteAt (b.fill size.toNat).store i = Bytes.byteAt b.store i :=
    Bytes.byteAt_overwrite_of_outside _ _ _ _ (by rwa [List.length_replicate])
  have horigin : (offering survey count size b ranges).bitmap.origin = b.origin :=
    (bitmap_offering hsurveyed.bounds.base hsurveyed.clearable hroom hsurveyed.bytes).1
  rw [hsurveyed.bytes] at houtside
  rw [byteAt_withoutFrameZero _ hsurveyed.frameCount_pos (by rwa [horigin]), ← hfilled]
  exact byteAt_foldl_clearRange hsurveyed.clearable houtside

end Surveyed

end FrameAllocator

namespace Machine

variable {memory : Memory} {levels : PagingDepth} {map : MemoryMap} {m n : Machine}

/-- A machine can keep its own bitmap wherever the place for it lies in memory. -/
theorem selfHosted_run {survey : MemorySurvey} {size : Word} {location : PhysAddr} {offset : Nat}
    (hsurvey : MemorySurvey.ofMap map = .ok survey) (hsize : survey.bitmapBytes = .ok size)
    (hplace : survey.bitmapPlace map = .ok location) (hoffset : memory.offset location = .ok offset)
    (hroom : offset + size.toNat ≤ memory.size) (log : Array LogEvent) :
    ∃ m log', selfHosted memory levels map log = .ok m log' := by
  obtain ⟨count, ranges, hsurveyed⟩ := FrameAllocator.exists_surveyed hsurvey hsize
  have hbytes := hsurveyed.bytes
  have htop := hsurveyed.top
  have hlast := survey.top.word.toNat_lt
  have hpages : Word.pageCount size = .ok (UInt64.ofNat ((size.toNat + 4095) / 4096)) := by
    rw [Word.pageCount_eq, if_pos (by omega)]
  have hcount := Word.toNat_pageCount hpages
  have hword : location.pageFloor.page + (UInt64.ofNat ((size.toNat + 4095) / 4096)).toNat <
      2 ^ 64 := by
    have hlocation := location.word.toNat_lt
    rw [hcount, Addr.page_pageFloor, Addr.page]
    omega
  obtain ⟨log₁, hbuild⟩ := FrameAllocator.build_run hsurveyed ⟨memory.bytes, offset⟩
    (log.push (.surveyed survey size))
  obtain ⟨_, _, _, _, hreserve⟩ := (FrameAllocator.offering survey count size
    ⟨memory.bytes, offset⟩ ranges).withoutFrameZero.markFrames_eq_ok location.pageFloor
      (UInt64.ofNat ((size.toNat + 4095) / 4096)) true hword
  refine ⟨?_, ?_, (Action.bind_ok (FrameAllocator.survey_run hsurvey hsize log)).trans ?_⟩
  rotate_left 2
  rw [hsize, Action.bind_ok (Action.lift_ok _ _), hplace]
  refine (Action.bind_ok (a := location) rfl).trans ?_
  simp only [hoffset, Action.bind_ok (Action.lift_ok _ _), if_neg (Nat.not_lt.mpr hroom)]
  refine (Action.bind_ok hbuild).trans ?_
  simp only [hpages, FrameAllocator.reserve, hreserve, hsurveyed.counted,
    Action.bind_ok (Action.lift_ok _ _)]
  rfl

theorem not_holdsBits {a : Nat} (ha : a / 4096 ∉ m.layout.bitmapFrames) :
    m.layout.holdsBits a = false :=
  Bool.eq_false_iff.mpr fun hbits => ha ⟨a, rfl, hbits⟩

namespace Hosting

variable (hosting : Hosting memory levels map m)

include hosting

theorem exists_surveyed :
    ∃ count ranges, FrameAllocator.Surveyed map hosting.survey count hosting.size ranges ∧
      hosting.offered = (FrameAllocator.offering hosting.survey count hosting.size
        ⟨memory.bytes, hosting.offset⟩ ranges).withoutFrameZero := by
  obtain ⟨count, ranges, hsurveyed⟩ :=
    FrameAllocator.exists_surveyed hosting.surveyed hosting.sized
  obtain ⟨log, log', hbuild⟩ := hosting.built
  obtain ⟨_, hrun⟩ := FrameAllocator.build_run hsurveyed ⟨memory.bytes, hosting.offset⟩ log
  exact ⟨count, ranges, hsurveyed, (EStateM.Result.ok.inj (hbuild.symm.trans hrun)).1⟩

/-- Of the memory it was given, the machine wrote the bytes of its bitmap only. -/
theorem byteAt_memory {a : Nat} (ha : a / 4096 ∉ m.layout.bitmapFrames) :
    m.memory.byteAt a = memory.byteAt a := by
  obtain ⟨count, ranges, hsurveyed, hoffered⟩ := hosting.exists_surveyed
  obtain ⟨start, length, hrange, hkept, _⟩ := hosting.kept_eq
  have hmemory : m.memory = { memory with bytes := hosting.kept.bitmap.store } :=
    congrArg Machine.memory hosting.machine
  have hbuilt := hosting.offered_built
  have hbits := not_holdsBits ha
  have hsize : (m.layout.frameCount + 7) / 8 = hosting.size.toNat := hosting.size_eq
  rw [Layout.holdsBits, hosting.layout_resident, hosting.layout_base, hosting.layout_origin,
    hsize] at hbits
  rw [hmemory, Memory.byteAt, Memory.byteAt]
  split
  next hlow =>
    have habove : memory.base.word.toNat ≤ a := hlow
    have houtside : a - memory.base.word.toNat < hosting.offset ∨
        hosting.offset + hosting.size.toNat ≤ a - memory.base.word.toNat := by
      simp only [Bool.true_and, Bool.and_eq_false_iff, decide_eq_false_iff_not] at hbits
      omega
    have horigin : hosting.offered.bitmap.origin = hosting.offset := hbuilt.1.origin
    rw [hkept, FrameAllocator.byteAt_marked_of_outside true hrange (by rwa [horigin, hbuilt.2]),
      hoffered]
    exact FrameAllocator.byteAt_offering_of_outside hsurveyed hosting.room houtside
  next => rfl

theorem rehoused {storage : ByteArray} (hhome : n.home = .separate storage)
    (hmemory : n.memory = memory) (hsame : FrameAllocator.SameBits hosting.kept n.allocator)
    (hlevels : n.levels = levels) (hactive : n.activeRoot = ⟨0⟩)
    (hinvalidated : n.invalidated = #[]) : Rehoused m n := by
  have hfrom : m.memory = { memory with bytes := hosting.kept.bitmap.store } :=
    congrArg Machine.memory hosting.machine
  rw [← hosting.allocator_eq] at hsame
  constructor
  · exact hosting.layout_resident
  · rw [layout, hhome]
  · have hfirst : n.firstFrame = m.firstFrame := hsame.firstFrame
    have hcount : n.frameCount = m.frameCount := hsame.frameCount
    have hcursor : n.cursor = m.cursor := hsame.cursor
    have hmLevels : m.levels = levels := congrArg Machine.levels hosting.machine
    have hmActive : m.activeRoot = ⟨0⟩ := congrArg activeRoot hosting.machine
    have hmInvalidated : m.invalidated = #[] := congrArg invalidated hosting.machine
    rw [← hfirst, ← hcount, ← hcursor, hmLevels, hmActive, hmInvalidated, ← hlevels, ← hactive,
      ← hinvalidated]
  · rw [hmemory, hfrom]
  · rw [hmemory, hfrom]
    exact hosting.bitmap_kept.2.symm
  · exact hsame.bits
  · intro a ha
    rw [hmemory, hosting.byteAt_memory ha]

/-- Beside storage of its own the machine is built just the same, and once the frames of the bitmap
are set aside as well, the two differ in where the bitmap is kept. -/
theorem exists_rehoused {ε : Type} {storage : ByteArray}
    (hroom : hosting.size.toNat ≤ storage.size) (log : Array LogEvent) :
    ∃ n₀ log' n, overStorage memory levels map storage log = .ok n₀ log' ∧
      (reserve hosting.location hosting.pages n₀ : EStateM.Result (Failure ε) _ _) = .ok ⟨⟩ n ∧
      Rehoused m n := by
  obtain ⟨count, ranges, hsurveyed, hoffered⟩ := hosting.exists_surveyed
  obtain ⟨log', hbuild⟩ := FrameAllocator.overStorage_run hsurveyed hroom log
  have hsame := FrameAllocator.sameBits_offering hsurveyed
    (b := ⟨memory.bytes, hosting.offset⟩) (c := ⟨storage, 0⟩) hosting.room (by rwa [Nat.zero_add])
  rw [← hoffered] at hsame
  obtain ⟨kept, hreserve, hkept⟩ := hsame.reserve hosting.reserved
  obtain ⟨start, length, _, hmarked, _⟩ := FrameAllocator.reserve_eq_ok
    (FrameAllocator.overStorage_eq_ok hbuild).fits hreserve
  obtain ⟨n₀, hrun, hallocator, hfields⟩ := overStorage_run memory levels hbuild
  have hnext : (n₀.withAllocator kept).allocator = kept := by
    rw [hmarked, ← hallocator]
    exact n₀.allocator_withAllocator_marked start length n₀.cursor true
  refine ⟨n₀, log', n₀.withAllocator kept, hrun, ?_, ?_⟩
  · rw [reserve, Action.bind_ok (Action.get_apply n₀), hallocator, hreserve]
    rfl
  · rw [hfields] at hnext ⊢
    exact hosting.rehoused rfl rfl (hnext.symm ▸ hkept) rfl rfl rfl

theorem tracked_eq :
    ∃ count ranges, FrameAllocator.Surveyed map hosting.survey count hosting.size ranges ∧
      m.allocator.tracked =
        Set.Ico hosting.survey.base.page (hosting.survey.base.page + count.toNat) := by
  obtain ⟨count, ranges, hsurveyed, hoffered⟩ := hosting.exists_surveyed
  obtain ⟨_, _, _, hkept, _⟩ := hosting.kept_eq
  refine ⟨count, ranges, hsurveyed, ?_⟩
  have hfirst : hosting.kept.first = hosting.survey.base.page := by
    rw [hkept, FrameAllocator.first_marked, hoffered, FrameAllocator.first_withoutFrameZero,
      FrameAllocator.first_offering]
  have hcount : hosting.kept.frameCount = count.toNat := by
    rw [hosting.frameCount_kept, hoffered, (FrameAllocator.withoutFrameZero_bitmap _).2.2.1,
      FrameAllocator.frameCount_offering]
  rw [hosting.allocator_eq, FrameAllocator.tracked, hfirst, hcount]

/-- Memory is in one piece, so with the first and the last usable page it holds all between. -/
theorem spans (hcovers : memory.Covers map)
    (hbelow : memory.base.word.toNat + memory.size ≤ 2 ^ 52) : m.Spans := by
  obtain ⟨count, ranges, hsurveyed, htracked⟩ := hosting.tracked_eq
  obtain ⟨hwhole, hframes⟩ := MemoryMap.usablePages_eq_ok hsurveyed.pages
  have hbase : m.memory.base.word.toNat = memory.base.word.toNat := hosting.layout_base
  have hsize : m.memory.size = memory.size :=
    (congrArg (fun n : Machine => n.memory.size) hosting.machine).trans hosting.bitmap_kept.2
  have hbounds := hsurveyed.bounds
  have htop := hsurveyed.top
  obtain ⟨lowest, hlowest, hfirst⟩ := hbounds.lowest
  obtain ⟨highest, hhighest, hlast⟩ := hbounds.highest
  have hlow := hcovers.frame ((hframes _).mp ⟨lowest, hlowest, (hwhole lowest hlowest).first_mem⟩)
  have hhigh := hcovers.frame
    ((hframes _).mp ⟨highest, hhighest, (hwhole highest hhighest).last_mem⟩)
  rw [hfirst] at hlow
  rw [hlast] at hhigh
  refine ⟨by rwa [hbase, hsize], ?_⟩
  intro f hf
  rw [htracked, Set.mem_Ico, Addr.page] at hf
  have hpages : hosting.survey.top.word.toNat / 4096 =
      hosting.survey.base.word.toNat / 4096 + count.toNat := by
    rw [htop, Nat.add_mul_div_right _ _ (by decide)]
  have hle : f ≤ hosting.survey.top.word.toNat / 4096 - 1 := by
    rw [hpages]
    exact Nat.le_sub_one_of_lt hf.2
  rw [hbase, hsize]
  constructor
  · exact hlow.1.trans (Nat.mul_le_mul_right 4096 hf.1)
  · exact (Nat.add_le_add_right (Nat.mul_le_mul_right 4096 hle) 4096).trans hhigh.2

end Hosting

end Machine

/-! ## A small machine that keeps its own bitmap -/

theorem covers_sixteenFrames {memory : Memory} (hbase : memory.base = ⟨0⟩)
    (hsize : memory.size = 0x10000) : memory.Covers sixteenFrames := by
  intro r hr a _ hhigh
  obtain rfl : r = ⟨⟨0⟩, 0x10000, .usable⟩ := List.mem_singleton.mp hr
  have hlength : (0 : Word).toNat + (0x10000 : Word).toNat = 0x10000 := rfl
  have hzero : (0 : Word).toNat = 0 := rfl
  rw [hbase, hsize]
  dsimp only at hhigh ⊢
  omega

/-- Frame 0 holds the bitmap of this machine. -/
theorem exists_selfHosted_sixteenFrames {memory : Memory} (hbase : memory.base = ⟨0⟩)
    (hsize : memory.size = 0x10000) :
    ∃ m log, Machine.selfHosted memory .four sixteenFrames #[] = .ok m log ∧ m.levels = .four ∧
      Set.Ico 1 16 ⊆ m.allocator.freeFrames := by
  have hsurvey : MemorySurvey.ofMap sixteenFrames = .ok ⟨0x10000, ⟨0⟩, ⟨0x10000⟩⟩ := rfl
  have hsized : MemorySurvey.bitmapBytes ⟨0x10000, ⟨0⟩, ⟨0x10000⟩⟩ = .ok 2 := rfl
  have hplace : MemorySurvey.bitmapPlace ⟨0x10000, ⟨0⟩, ⟨0x10000⟩⟩ sixteenFrames = .ok ⟨0⟩ := rfl
  have hoffset : memory.offset ⟨0⟩ = .ok 0 := by
    rw [Memory.offset, hbase, if_pos ⟨UInt64.le_refl 0, by rw [hsize]; decide⟩]
    rfl
  obtain ⟨m, log, hrun⟩ : ∃ m log, Machine.selfHosted memory .four sixteenFrames #[] = .ok m log :=
    Machine.selfHosted_run hsurvey hsized hplace hoffset (by rw [hsize]; decide) #[]
  obtain ⟨hosting⟩ := Machine.selfHosted_parts hrun
  refine ⟨m, log, hrun, congrArg Machine.levels hosting.machine, ?_⟩
  rintro f ⟨hlow, hhigh⟩
  have hheld : (⟨⟨0⟩, 0x10000, .usable⟩ : MemoryRegion).Holds f := by
    interval_cases f <;> decide
  rw [(Machine.selfHosted_eq_ok hrun).free]
  refine ⟨Nat.ne_of_gt hlow, ?_, _, List.mem_singleton.mpr rfl, hheld⟩
  have hfound : hosting.survey = ⟨0x10000, ⟨0⟩, ⟨0x10000⟩⟩ :=
    Except.ok.inj (hosting.surveyed.symm.trans hsurvey)
  have hlocation : ⟨0⟩ = hosting.location :=
    Except.ok.inj (hplace.symm.trans (hfound ▸ hosting.placed))
  have hbytes : 2 = hosting.size := Except.ok.inj (hsized.symm.trans (hfound ▸ hosting.sized))
  have hpages : 1 = hosting.pages := Except.ok.inj (hbytes ▸ hosting.counted :)
  rw [hosting.bitmapFrames_eq, ← hlocation, ← hpages]
  exact fun hbitmap => Nat.not_lt.mpr hlow hbitmap.2

end BootMemory
