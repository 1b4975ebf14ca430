import BootMemory.Proofs.InitialBitmap

/-!
# Surveys and the place of the bitmap

Where no rounding and no sum leaves the word, nothing that is computed from a memory map faults.  A
survey then finds the bounds of the whole pages of the usable regions exactly, or that there is no
whole page.  The bitmap goes to the first region, in the order of the map, whose whole pages have
room for it, and there is no place for it only if no region has room.
-/

namespace BootMemory

/-! ## The whole pages of a region -/

namespace MemoryRegion

/-- The base of the region, rounded up to a page. -/
def innerStart (r : MemoryRegion) : Nat :=
  (r.base.word.toNat + 4095) / 4096 * 4096

/-- The end of the region, rounded down to a page. -/
def innerStop (r : MemoryRegion) : Nat :=
  (r.base.word.toNat + r.length.toNat) / 4096 * 4096

/-- The whole pages of the region have room for `bytes` bytes. -/
def HasRoom (r : MemoryRegion) (bytes : Nat) : Prop :=
  r.innerStart + bytes ≤ r.innerStop

instance (r : MemoryRegion) (bytes : Nat) : Decidable (r.HasRoom bytes) :=
  inferInstanceAs (Decidable (_ ≤ _))

/-- The ends of the region can be rounded to pages in words. -/
structure FitsWord (r : MemoryRegion) : Prop where
  base : r.base.word.toNat ≤ 2 ^ 64 - 4097
  stop : r.base.word.toNat + r.length.toNat < 2 ^ 64

section Interior

variable {r : MemoryRegion} {f : Nat}

theorem holds_iff : r.Holds f ↔ r.innerStart ≤ f * 4096 ∧ f * 4096 + 4096 ≤ r.innerStop := by
  unfold Holds innerStart innerStop
  omega

theorem innerStart_lt_innerStop (hholds : r.Holds f) : r.innerStart < r.innerStop := by
  rw [holds_iff] at hholds
  omega

theorem holds_first (hholds : r.Holds f) : r.Holds (r.innerStart / 4096) := by
  have hlt := innerStart_lt_innerStop hholds
  rw [holds_iff]
  unfold innerStart innerStop at *
  omega

theorem holds_last (hholds : r.Holds f) : r.Holds (r.innerStop / 4096 - 1) := by
  have hlt := innerStart_lt_innerStop hholds
  rw [holds_iff]
  unfold innerStart innerStop at *
  omega

theorem base_le_innerStart (r : MemoryRegion) : r.base.word.toNat ≤ r.innerStart := by
  unfold innerStart
  omega

theorem innerStop_le_stop (r : MemoryRegion) :
    r.innerStop ≤ r.base.word.toNat + r.length.toNat :=
  Nat.div_mul_le_self _ 4096

theorem FitsWord.exists_interior (hfits : r.FitsWord) :
    ∃ range, r.interior = .ok range ∧ range.start.toNat = r.innerStart ∧
      range.stop.toNat = r.innerStop := by
  have hbase := hfits.base
  have hround : r.base.word.toNat + 4096 < 2 ^ 64 := by
    omega
  obtain ⟨range, hrange⟩ : ∃ range, r.interior = .ok range := by
    rw [interior, Word.alignUp_pageSize, if_pos hround, MemoryRegion.stop, Addr.add,
      Word.add_eq_ok hfits.stop]
    exact ⟨_, rfl⟩
  exact ⟨range, hrange, interior_eq_ok hrange⟩

end Interior

end MemoryRegion

/-- The rounded ends of a range tell whether `required` bytes have room in it. -/
theorem PageRange.hasRoom_iff {range : PageRange} {r : MemoryRegion} {required : Word}
    (hsome : 0 < required.toNat) (hstart : range.start.toNat = r.innerStart)
    (hstop : range.stop.toNat = r.innerStop) :
    (range.isNonempty && decide (required ≤ range.size)) = true ↔ r.HasRoom required.toNat := by
  rw [Bool.and_eq_true, isNonempty_iff, decide_eq_true_iff, UInt64.le_iff_toNat_le,
    MemoryRegion.HasRoom, size]
  constructor
  · rintro ⟨hlt, hroom⟩
    rw [Word.toNat_sub hlt.le] at hroom
    omega
  · intro hroom
    have hlt : range.start.toNat < range.stop.toNat := by
      omega
    rw [Word.toNat_sub hlt.le]
    omega

/-- The first of some regions that has room for `bytes` bytes. -/
structure FirstRoom (regions : List MemoryRegion) (bytes : Nat) (r : MemoryRegion) : Prop where
  room : r.HasRoom bytes
  first : ∃ before after, regions = before ++ r :: after ∧ ∀ s ∈ before, ¬s.HasRoom bytes

namespace FirstRoom

variable {regions : List MemoryRegion} {bytes : Nat} {r s : MemoryRegion}

theorem mem (hfirst : FirstRoom regions bytes r) : r ∈ regions := by
  obtain ⟨before, after, rfl, _⟩ := hfirst.first
  simp

theorem head (hroom : r.HasRoom bytes) : FirstRoom (r :: regions) bytes r :=
  ⟨hroom, [], regions, rfl, by simp⟩

theorem cons (hfirst : FirstRoom regions bytes r) (hnone : ¬s.HasRoom bytes) :
    FirstRoom (s :: regions) bytes r := by
  obtain ⟨before, after, rfl, hbefore⟩ := hfirst.first
  exact ⟨hfirst.room, s :: before, after, rfl, List.forall_mem_cons.mpr ⟨hnone, hbefore⟩⟩

end FirstRoom

/-! ## Nothing faults -/

/-- No end of a usable region leaves the word when it is rounded, and their lengths add up within
it. -/
structure MemoryMap.FitsWord (map : MemoryMap) : Prop where
  regions : ∀ r ∈ map.usable, r.FitsWord
  total : (map.usable.map fun r => r.length.toNat).sum < 2 ^ 64

/-- A chain of checked sums is one check of the whole sum. -/
theorem Word.exists_foldlM_add {α : Type} (value : α → Word) (items : List α) (start : Word)
    (hfits : start.toNat + (items.map fun a => (value a).toNat).sum < 2 ^ 64) :
    ∃ total, items.foldlM (fun sum a => Word.add sum (value a)) start = .ok total ∧
      total.toNat = start.toNat + (items.map fun a => (value a).toNat).sum := by
  induction items generalizing start with
  | nil => exact ⟨start, rfl, rfl⟩
  | cons a items ih =>
      rw [List.map_cons, List.sum_cons] at hfits ⊢
      have hadd : start.toNat + (value a).toNat < 2 ^ 64 := by
        omega
      have hsum := Word.toNat_add hadd
      obtain ⟨total, hfold, htotal⟩ := ih (start + value a) (by omega)
      refine ⟨total, ?_, by omega⟩
      rw [List.foldlM_cons, Word.add_eq_ok hadd]
      exact hfold

namespace MemorySurvey

/-- A survey that is true to its map: the bytes of all usable regions, and the bounds of the whole
pages in them. -/
structure Describes (survey : MemorySurvey) (map : MemoryMap) : Prop where
  total : survey.usableBytes.toNat = (map.usable.map fun r => r.length.toNat).sum
  base : IsLeast {a | ∃ r ∈ map.usable, (∃ f, r.Holds f) ∧ r.innerStart = a}
    survey.base.word.toNat
  top : IsGreatest {a | ∃ r ∈ map.usable, (∃ f, r.Holds f) ∧ r.innerStop = a}
    survey.top.word.toNat

section Surveys

variable {map : MemoryMap} {survey : MemorySurvey} {count size : Word} {ranges : List PageRange}

theorem usableBytes_of_ofMap (hsurvey : ofMap map = .ok survey) :
    map.usableBytes = .ok survey.usableBytes := by
  obtain ⟨total, htotal, hrest⟩ := Checked.bind_eq_ok.mp hsurvey
  obtain ⟨ranges, _, hbounds⟩ := Checked.bind_eq_ok.mp hrest
  cases ranges with
  | nil => cases hbounds
  | cons first rest =>
      rw [← Except.ok.inj hbounds]
      exact Checked.mapError_eq_ok htotal

theorem isLeast_innerStart (hsurveyed : FrameAllocator.Surveyed map survey count size ranges) :
    IsLeast {a | ∃ r ∈ map.usable, (∃ f, r.Holds f) ∧ r.innerStart = a}
      survey.base.word.toNat := by
  have hbase := hsurveyed.bounds.base
  obtain ⟨hmem, hleast⟩ := FrameAllocator.isLeast_base hsurveyed
  have hbelow : ∀ r ∈ map.usable, (∃ f, r.Holds f) → survey.base.word.toNat ≤ r.innerStart := by
    rintro r hr ⟨f, hholds⟩
    have hle := hleast (MemoryMap.mem_wholeFrames_iff.mpr ⟨r, hr, MemoryRegion.holds_first hholds⟩)
    rw [Addr.page] at hle
    omega
  constructor
  · obtain ⟨r, hr, hholds⟩ := MemoryMap.mem_wholeFrames_iff.mp hmem
    have hle := (MemoryRegion.holds_iff.mp hholds).1
    have hge := hbelow r hr ⟨_, hholds⟩
    rw [Addr.page] at hle
    exact ⟨r, hr, ⟨_, hholds⟩, by omega⟩
  · rintro _ ⟨r, hr, hholds, rfl⟩
    exact hbelow r hr hholds

theorem isGreatest_innerStop (hsurveyed : FrameAllocator.Surveyed map survey count size ranges) :
    IsGreatest {a | ∃ r ∈ map.usable, (∃ f, r.Holds f) ∧ r.innerStop = a}
      survey.top.word.toNat := by
  have hbase := hsurveyed.bounds.base
  have htop := hsurveyed.top
  have hsome := hsurveyed.frameCount_pos
  obtain ⟨hmem, hgreatest⟩ := FrameAllocator.isGreatest_top hsurveyed
  rw [Addr.page] at hmem hgreatest
  have habove : ∀ r ∈ map.usable, (∃ f, r.Holds f) → r.innerStop ≤ survey.top.word.toNat := by
    rintro r hr ⟨f, hholds⟩
    have hlt := MemoryRegion.innerStart_lt_innerStop hholds
    have hle := hgreatest
      (MemoryMap.mem_wholeFrames_iff.mpr ⟨r, hr, MemoryRegion.holds_last hholds⟩)
    have hround : r.innerStop / 4096 * 4096 = r.innerStop := by
      rw [MemoryRegion.innerStop]
      omega
    omega
  constructor
  · obtain ⟨r, hr, hholds⟩ := MemoryMap.mem_wholeFrames_iff.mp hmem
    have hle := (MemoryRegion.holds_iff.mp hholds).2
    have hge := habove r hr ⟨_, hholds⟩
    exact ⟨r, hr, ⟨_, hholds⟩, by omega⟩
  · rintro _ ⟨r, hr, hholds, rfl⟩
    exact habove r hr hholds

/-- The survey of a map that fits the word finds that there is no whole page, or it is exact. -/
theorem ofMap_of_fitsWord (hfits : map.FitsWord) :
    ((∀ r ∈ map.usable, ∀ f, ¬r.Holds f) ∧ ofMap map = .error (.error .noUsablePage)) ∨
      ∃ survey count size ranges, survey.Describes map ∧
        FrameAllocator.Surveyed map survey count size ranges := by
  have hzero : (0 : Word).toNat = 0 := rfl
  obtain ⟨total, htotal, hvalue⟩ := Word.exists_foldlM_add MemoryRegion.length map.usable 0
    (by rw [hzero, Nat.zero_add]; exact hfits.total)
  obtain ⟨all, hall⟩ : ∃ all, map.usable.mapM MemoryRegion.interior = .ok all := by
    apply Checked.exists_mapM_eq_ok
    intro r hr
    obtain ⟨range, hrange, _⟩ := (hfits.regions r hr).exists_interior
    exact ⟨range, hrange⟩
  rcases ofMap_ends map with ⟨f, hfault⟩ | ⟨hpages, hnone⟩ | ⟨survey, hsurvey⟩
  · have hbytes : map.usableBytes = .ok total := htotal
    have hpages : map.usablePages = .ok (all.filter PageRange.isNonempty) := by
      rw [MemoryMap.usablePages, hall]
      rfl
    rw [ofMap, hbytes, hpages] at hfault
    cases hranges : all.filter PageRange.isNonempty with
    | nil =>
        rw [hranges] at hfault
        cases hfault
    | cons first rest =>
        rw [hranges] at hfault
        cases hfault
  · refine .inl ⟨fun r hr f hholds => ?_, hnone⟩
    obtain ⟨range, hrange, _⟩ := ((MemoryMap.usablePages_eq_ok hpages).2 f).mpr ⟨r, hr, hholds⟩
    exact absurd hrange List.not_mem_nil
  · obtain ⟨_, _, hbounds⟩ := ofMap_eq_ok hsurvey
    obtain ⟨size, hsize⟩ := hbounds.exists_bitmapBytes
    obtain ⟨count, ranges, hsurveyed⟩ := FrameAllocator.exists_surveyed hsurvey hsize
    refine .inr ⟨survey, count, size, ranges, ⟨?_, isLeast_innerStart hsurveyed,
      isGreatest_innerStop hsurveyed⟩, hsurveyed⟩
    have hsame := (usableBytes_of_ofMap hsurvey).symm.trans htotal
    rw [Except.ok.inj hsame, hvalue, hzero, Nat.zero_add]

end Surveys

/-! ## The first region with room -/

theorem firstFit_ends {required : Word} (hsome : 0 < required.toNat) {regions : List MemoryRegion}
    (hfits : ∀ r ∈ regions, r.FitsWord) :
    (∃ r location, FirstRoom regions required.toNat r ∧
        firstFit required regions = .ok (some location) ∧
        location.word.toNat = r.innerStart) ∨
      (∀ r ∈ regions, ¬r.HasRoom required.toNat) ∧ firstFit required regions = .ok none := by
  induction regions with
  | nil => exact .inr ⟨by simp, rfl⟩
  | cons r regions ih =>
      rw [List.forall_mem_cons] at hfits
      obtain ⟨range, hrange, hstart, hstop⟩ := hfits.1.exists_interior
      have hroom := PageRange.hasRoom_iff hsome hstart hstop
      have hstep : firstFit required (r :: regions) =
          if range.isNonempty && decide (required ≤ range.size) then .ok (some ⟨range.start⟩)
          else firstFit required regions := by
        rw [firstFit, hrange]
        rfl
      rw [hstep]
      by_cases hhere : r.HasRoom required.toNat
      · exact .inl ⟨r, ⟨range.start⟩, .head hhere, if_pos (hroom.mpr hhere), hstart⟩
      · rw [if_neg (fun hyes => hhere (hroom.mp hyes))]
        rcases ih hfits.2 with ⟨s, location, hfirst, hfit⟩ | ⟨hnone, hfit⟩
        · exact .inl ⟨s, location, hfirst.cons hhere, hfit⟩
        · exact .inr ⟨List.forall_mem_cons.mpr ⟨hhere, hnone⟩, hfit⟩

/-- Bytes for whole pages that hold `size` bytes. -/
def wholePages (size : Word) : Nat :=
  (size.toNat + 4095) / 4096 * 4096

/-- A place for a bitmap of `size` bytes: where the whole pages begin of the first region that has
room for it. -/
structure Place (survey : MemorySurvey) (map : MemoryMap) (size : Word) (location : PhysAddr)
    (r : MemoryRegion) : Prop where
  first : FirstRoom map.usable (wholePages size) r
  start : location.word.toNat = r.innerStart
  above : r.base.word.toNat ≤ location.word.toNat
  below : location.word.toNat + wholePages size ≤ r.base.word.toNat + r.length.toNat
  base : survey.base.word.toNat ≤ location.word.toNat
  top : location.word.toNat + wholePages size ≤ survey.top.word.toNat

section Places

variable {map : MemoryMap} {survey : MemorySurvey} {count size required : Word}
  {ranges : List PageRange}

theorem bitmapPlace_eq (hsize : survey.bitmapBytes = .ok size)
    (halign : Word.alignUp size pageSize = .ok required) :
    survey.bitmapPlace map =
      match firstFit required map.usable with
      | .ok (some location) => .ok location
      | .ok none => .error (.error (.noRoomForBitmap size))
      | .error f => .error (.fault f) := by
  simp only [bitmapPlace, hsize, Except.mapError, bind, Except.bind, halign]
  cases firstFit required map.usable with
  | error f => rfl
  | ok found => cases found <;> rfl

theorem bitmapPlace_ends (hfits : map.FitsWord) (hdescribes : survey.Describes map)
    (hsurveyed : FrameAllocator.Surveyed map survey count size ranges) :
    (∃ r location, survey.bitmapPlace map = .ok location ∧ survey.Place map size location r) ∨
      (∀ r ∈ map.usable, ¬r.HasRoom (wholePages size)) ∧
        survey.bitmapPlace map = .error (.error (.noRoomForBitmap size)) := by
  have hbytes := hsurveyed.bytes
  have hcount := hsurveyed.frameCount_pos
  have htop := hsurveyed.top
  have hlt := survey.top.word.toNat_lt
  have hround : size.toNat + 4096 < 2 ^ 64 := by
    omega
  obtain ⟨required, halign, hrequired⟩ :
      ∃ required, Word.alignUp size pageSize = .ok required ∧
        required.toNat = wholePages size := by
    rw [Word.alignUp_pageSize, if_pos hround]
    refine ⟨_, rfl, ?_⟩
    rw [UInt64.toNat_ofNat_of_lt' (by simp only [UInt64.size]; omega), wholePages]
  have hsome : 0 < wholePages size := by
    rw [wholePages]
    omega
  rw [bitmapPlace_eq hsurveyed.sized halign]
  rw [← hrequired] at hsome ⊢
  rcases firstFit_ends hsome hfits.regions with ⟨r, location, hfirst, hfit, hstart⟩ | ⟨hnone, hfit⟩
  · rw [hfit]
    rw [hrequired] at hfirst hsome
    have hroom : r.innerStart + wholePages size ≤ r.innerStop := hfirst.room
    have hholds : ∃ f, r.Holds f := by
      refine ⟨r.innerStart / 4096, ?_⟩
      rw [MemoryRegion.holds_iff]
      unfold MemoryRegion.innerStart MemoryRegion.innerStop at *
      omega
    have hlow := hdescribes.base.2 ⟨r, hfirst.mem, hholds, rfl⟩
    have hhigh := hdescribes.top.2 ⟨r, hfirst.mem, hholds, rfl⟩
    have habove := r.base_le_innerStart
    have hbelow := r.innerStop_le_stop
    exact .inl ⟨r, location, rfl, hfirst, hstart, by omega, by omega, by omega, by omega⟩
  · rw [hfit]
    exact .inr ⟨hnone, rfl⟩

end Places

end MemorySurvey

/-- Over a map that fits the word, the survey fails if no usable region holds a whole page, and
otherwise it is exact.  The bitmap, with a bit for each frame between the bounds, then goes to the
first region with room, inside that region and the bounds, and there is no place for it only if no
region has room.  Nothing faults. -/
theorem survey_and_bitmapPlace_are_exact {map : MemoryMap} (hfits : map.FitsWord)
    (log : Array LogEvent) :
    (map.survey log = .error (.error .noUsablePage) log ↔
        ∀ r ∈ map.usable, ∀ f, ¬r.Holds f) ∧
      ((∃ r ∈ map.usable, ∃ f, r.Holds f) →
        ∃ survey count size,
          map.survey log = .ok survey (log.push (.surveyed survey size)) ∧
          survey.Describes map ∧
          survey.frameCount = .ok count ∧
          survey.top.word.toNat = survey.base.word.toNat + count.toNat * 4096 ∧
          survey.bitmapBytes = .ok size ∧ size.toNat = (count.toNat + 7) / 8 ∧
          (survey.bitmapPlace map = .error (.error (.noRoomForBitmap size)) ↔
            ∀ r ∈ map.usable, ¬r.HasRoom (MemorySurvey.wholePages size)) ∧
          ((∃ r ∈ map.usable, r.HasRoom (MemorySurvey.wholePages size)) →
            ∃ r location, survey.bitmapPlace map = .ok location ∧
              survey.Place map size location r)) := by
  rcases MemorySurvey.ofMap_of_fitsWord hfits with
    ⟨hnone, hsurvey⟩ | ⟨survey, count, size, ranges, hdescribes, hsurveyed⟩
  · have hrun : map.survey log = .error (.error .noUsablePage) log := by
      rw [MemoryMap.survey, hsurvey]
      rfl
    refine ⟨iff_of_true hrun hnone, ?_⟩
    rintro ⟨r, hr, f, hholds⟩
    exact absurd hholds (hnone r hr f)
  · have hrun := FrameAllocator.survey_run hsurveyed.surveyed hsurveyed.sized log
    constructor
    · rw [hrun]
      obtain ⟨r, hr, ⟨f, hholds⟩, _⟩ := hdescribes.base.1
      exact iff_of_false (by rintro ⟨⟩) fun hnone => hnone r hr f hholds
    · intro _
      refine ⟨survey, count, size, hrun, hdescribes, hsurveyed.counted, hsurveyed.top,
        hsurveyed.sized, hsurveyed.bytes, ?_⟩
      rcases MemorySurvey.bitmapPlace_ends hfits hdescribes hsurveyed with
        ⟨r, location, hplace, hgood⟩ | ⟨hnone, hplace⟩
      · rw [hplace]
        exact ⟨iff_of_false (by rintro ⟨⟩) fun hnone => hnone r hgood.first.mem hgood.first.room,
          fun _ => ⟨r, location, rfl, hgood⟩⟩
      · refine ⟨iff_of_true hplace hnone, ?_⟩
        rintro ⟨r, hr, hroom⟩
        exact absurd hroom (hnone r hr)

/-- A region within one page, an empty one, a region of one page and a piece, which has no room for
the three pages of the bitmap, and a region that has. -/
def scatteredRegions : MemoryMap where
  regions := [⟨⟨0x1800⟩, 0x7FF, .usable⟩, ⟨⟨0x5000⟩, 0, .usable⟩,
    ⟨⟨0x6FFF⟩, 0x1800, .usable⟩, ⟨⟨0x8000⟩, 0x8000, .reserved⟩,
    ⟨⟨0x10000001⟩, 0x5000, .usable⟩]
  failAt := none

theorem survey_and_bitmapPlace_are_exact_scatteredRegions :
    scatteredRegions.FitsWord ∧
      MemorySurvey.Describes ⟨0x6FFF, ⟨0x7000⟩, ⟨0x10005000⟩⟩ scatteredRegions ∧
      ∃ r, MemorySurvey.Place ⟨0x6FFF, ⟨0x7000⟩, ⟨0x10005000⟩⟩ scatteredRegions 0x2000
        ⟨0x10001000⟩ r := by
  have hfits : scatteredRegions.FitsWord := by
    refine ⟨fun r hr => ?_, by decide⟩
    have hboth : ∀ r ∈ scatteredRegions.usable, r.base.word.toNat ≤ 2 ^ 64 - 4097 ∧
        r.base.word.toNat + r.length.toNat < 2 ^ 64 := by
      decide
    exact ⟨(hboth r hr).1, (hboth r hr).2⟩
  have hholds : ∃ r ∈ scatteredRegions.usable, ∃ f, r.Holds f :=
    ⟨⟨⟨0x6FFF⟩, 0x1800, .usable⟩, by decide, 7, by decide⟩
  obtain ⟨survey, count, size, hrun, hdescribes, _, _, hsize, _, _, hplaced⟩ :=
    (survey_and_bitmapPlace_are_exact hfits #[]).2 hholds
  have hsurvey : MemorySurvey.ofMap scatteredRegions =
      .ok ⟨0x6FFF, ⟨0x7000⟩, ⟨0x10005000⟩⟩ := rfl
  obtain rfl := Except.ok.inj (hsurvey.symm.trans (FrameAllocator.survey_eq_ok hrun))
  have hbytes : MemorySurvey.bitmapBytes ⟨0x6FFF, ⟨0x7000⟩, ⟨0x10005000⟩⟩ = .ok 0x2000 := rfl
  obtain rfl := Except.ok.inj (hbytes.symm.trans hsize)
  obtain ⟨r, location, hplace, hgood⟩ :=
    hplaced ⟨⟨⟨0x10000001⟩, 0x5000, .usable⟩, by decide, by decide⟩
  have hlocation : MemorySurvey.bitmapPlace ⟨0x6FFF, ⟨0x7000⟩, ⟨0x10005000⟩⟩ scatteredRegions =
      .ok ⟨0x10001000⟩ := rfl
  obtain rfl := Except.ok.inj (hlocation.symm.trans hplace)
  exact ⟨hfits, hdescribes, r, hgood⟩

end BootMemory
