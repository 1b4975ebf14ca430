import BootMemory.MemoryMap.Survey
import BootMemory.Proofs.Actions
import BootMemory.Proofs.Numbers

/-!
# What a survey finds

The page ranges of a survey hold exactly the frames that lie in a usable region as a whole, and
the bounds of the survey enclose them.
-/

namespace BootMemory

/-- The frame lies in the region as a whole. -/
def MemoryRegion.Holds (r : MemoryRegion) (f : Nat) : Prop :=
  r.base.word.toNat ≤ f * 4096 ∧ f * 4096 + 4096 ≤ r.base.word.toNat + r.length.toNat

instance (r : MemoryRegion) (f : Nat) : Decidable (r.Holds f) :=
  inferInstanceAs (Decidable (_ ∧ _))

namespace PageRange

def frames (range : PageRange) : Set Nat :=
  Set.Ico (range.start.toNat / 4096) (range.stop.toNat / 4096)

/-- A range of at least one page, which starts and stops where a page does. -/
structure Whole (range : PageRange) : Prop where
  start : range.start.toNat % 4096 = 0
  stop : range.stop.toNat % 4096 = 0
  nonempty : range.start.toNat < range.stop.toNat

theorem isNonempty_iff (range : PageRange) :
    range.isNonempty = true ↔ range.start.toNat < range.stop.toNat := by
  rw [isNonempty, decide_eq_true_iff, UInt64.lt_iff_toNat_lt]

end PageRange

theorem MemoryRegion.interior_eq_ok {r : MemoryRegion} {range : PageRange}
    (hinterior : r.interior = .ok range) :
    range.start.toNat = (r.base.word.toNat + 4095) / 4096 * 4096 ∧
      range.stop.toNat = (r.base.word.toNat + r.length.toNat) / 4096 * 4096 := by
  obtain ⟨start, hstart, hrest⟩ := Checked.bind_eq_ok.mp hinterior
  obtain ⟨stop, hstop, hrange⟩ := Checked.bind_eq_ok.mp hrest
  obtain ⟨sum, hsum, haddr⟩ := Checked.bind_eq_ok.mp hstop
  have hstartEq : range.start = start := congrArg PageRange.start (Except.ok.inj hrange).symm
  have hstopEq : range.stop = sum.pageFloor := by
    rw [← Except.ok.inj hrange, ← Except.ok.inj haddr]
  constructor
  · rw [hstartEq]
    rw [Word.alignUp_pageSize] at hstart
    split at hstart
    next hfits =>
      rw [← Except.ok.inj hstart, UInt64.toNat_ofNat_of_lt' (by simp only [UInt64.size]; omega)]
    next => cases hstart
  · rw [hstopEq, Word.toNat_pageFloor]
    by_cases hfits : r.base.word.toNat + r.length.toNat < 2 ^ 64
    · rw [Word.add_eq_ok hfits] at hsum
      rw [← Except.ok.inj hsum, Word.toNat_add hfits]
    · rw [Word.add_eq_error (Nat.not_lt.mp hfits)] at hsum
      cases hsum

/-- The ranges hold the frames that lie in a usable region as a whole, and no others. -/
theorem MemoryMap.usablePages_eq_ok {map : MemoryMap} {ranges : List PageRange}
    (hpages : map.usablePages = .ok ranges) :
    (∀ range ∈ ranges, range.Whole) ∧
      ∀ f, (∃ range ∈ ranges, f ∈ range.frames) ↔ ∃ r ∈ map.usable, r.Holds f := by
  obtain ⟨all, hall, hranges⟩ := Checked.bind_eq_ok.mp hpages
  cases hranges
  have hmem := Checked.mem_iff_of_mapM_eq_ok hall
  constructor
  · intro range hrange
    rw [List.mem_filter, PageRange.isNonempty_iff] at hrange
    obtain ⟨r, _, hinterior⟩ := (hmem range).mp hrange.1
    obtain ⟨hstart, hstop⟩ := MemoryRegion.interior_eq_ok hinterior
    exact ⟨by omega, by omega, hrange.2⟩
  · intro f
    constructor
    · rintro ⟨range, hrange, hlow, hhigh⟩
      obtain ⟨r, hr, hinterior⟩ := (hmem range).mp (List.mem_filter.mp hrange).1
      obtain ⟨hstart, hstop⟩ := MemoryRegion.interior_eq_ok hinterior
      exact ⟨r, hr, by omega, by omega⟩
    · rintro ⟨r, hr, hlow, hhigh⟩
      obtain ⟨range, hinterior⟩ := Checked.exists_of_mapM_eq_ok hall hr
      obtain ⟨hstart, hstop⟩ := MemoryRegion.interior_eq_ok hinterior
      have hrange : range ∈ all := (hmem range).mpr ⟨r, hr, hinterior⟩
      refine ⟨range, ?_, by omega, by omega⟩
      rw [List.mem_filter, PageRange.isNonempty_iff]
      exact ⟨hrange, by omega⟩

namespace MemorySurvey

/-- The bounds enclose the ranges and lie where pages start; some range begins at the one bound,
and some range ends at the other. -/
structure Bounds (survey : MemorySurvey) (ranges : List PageRange) : Prop where
  base : survey.base.word.toNat % 4096 = 0
  top : survey.top.word.toNat % 4096 = 0
  lowest : ∃ range ∈ ranges, range.start = survey.base.word
  highest : ∃ range ∈ ranges, range.stop = survey.top.word
  below : ∀ range ∈ ranges, survey.base.word.toNat ≤ range.start.toNat
  above : ∀ range ∈ ranges, range.stop.toNat ≤ survey.top.word.toNat
  nonempty : survey.base.word.toNat < survey.top.word.toNat

/-- Folding with a choice of the one or the other gives one of the values that is extreme in the
order the choice goes by. -/
theorem foldl_extreme {pick : Word → Word → Word} {before : Word → Word → Prop}
    (hrefl : ∀ a, before a a) (htrans : ∀ a b c, before a b → before b c → before a c)
    (hpick : ∀ a b, before (pick a b) a ∧ before (pick a b) b ∧ (pick a b = a ∨ pick a b = b))
    (values : List Word) (init : Word) :
    (∀ w ∈ init :: values, before (values.foldl pick init) w) ∧
      values.foldl pick init ∈ init :: values := by
  induction values generalizing init with
  | nil => simp [hrefl]
  | cons value rest ih =>
      obtain ⟨hinit, hvalue, hchosen⟩ := hpick init value
      obtain ⟨hbefore, hmem⟩ := ih (pick init value)
      have hfold := hbefore (pick init value) List.mem_cons_self
      constructor
      · intro w hw
        rcases List.mem_cons.mp hw with rfl | hw
        · exact htrans _ _ _ hfold hinit
        · rcases List.mem_cons.mp hw with rfl | hw
          · exact htrans _ _ _ hfold hvalue
          · exact hbefore w (List.mem_cons_of_mem _ hw)
      · rcases List.mem_cons.mp hmem with heq | hrest
        · rw [List.foldl_cons, heq]
          rcases hchosen with heq | heq <;> simp [heq]
        · exact List.mem_cons_of_mem _ (List.mem_cons_of_mem _ hrest)

theorem min_pick (a b : Word) :
    (min a b).toNat ≤ a.toNat ∧ (min a b).toNat ≤ b.toNat ∧ (min a b = a ∨ min a b = b) := by
  have hmin : min a b = if a ≤ b then a else b := rfl
  have hle := UInt64.le_iff_toNat_le (a := a) (b := b)
  rw [hmin]
  split
  next h => exact ⟨le_refl _, hle.mp h, .inl rfl⟩
  next h =>
    rw [hle, Nat.not_le] at h
    exact ⟨le_of_lt h, le_refl _, .inr rfl⟩

theorem max_pick (a b : Word) :
    a.toNat ≤ (max a b).toNat ∧ b.toNat ≤ (max a b).toNat ∧ (max a b = a ∨ max a b = b) := by
  have hmax : max a b = if a ≤ b then b else a := rfl
  have hle := UInt64.le_iff_toNat_le (a := a) (b := b)
  rw [hmax]
  split
  next h => exact ⟨hle.mp h, le_refl _, .inr rfl⟩
  next h =>
    rw [hle, Nat.not_le] at h
    exact ⟨le_refl _, le_of_lt h, .inl rfl⟩

theorem ofMap_eq_ok {map : MemoryMap} {survey : MemorySurvey} (hsurvey : ofMap map = .ok survey) :
    ∃ ranges, map.usablePages = .ok ranges ∧ survey.Bounds ranges := by
  obtain ⟨total, _, hrest⟩ := Checked.bind_eq_ok.mp hsurvey
  obtain ⟨ranges, hranges, hbounds⟩ := Checked.bind_eq_ok.mp hrest
  have hpages := Checked.mapError_eq_ok hranges
  have hwhole := (MemoryMap.usablePages_eq_ok hpages).1
  refine ⟨ranges, hpages, ?_⟩
  match ranges with
  | [] => cases hbounds
  | first :: rest =>
      obtain ⟨hlow, hlowMem⟩ := foldl_extreme (fun a => le_refl a.toNat)
        (fun a b c (hab : a.toNat ≤ b.toNat) (hbc : b.toNat ≤ c.toNat) => le_trans hab hbc)
        min_pick (rest.map PageRange.start) first.start
      obtain ⟨hhigh, hhighMem⟩ := foldl_extreme (fun a => le_refl a.toNat)
        (fun a b c (hba : b.toNat ≤ a.toNat) (hcb : c.toNat ≤ b.toNat) => le_trans hcb hba)
        max_pick (rest.map PageRange.stop) first.stop
      rw [List.foldl_map, ← List.map_cons, List.mem_map] at hlowMem hhighMem
      rw [List.foldl_map, ← List.map_cons] at hlow hhigh
      obtain ⟨lowest, hlowest, hlowEq⟩ := hlowMem
      obtain ⟨highest, hhighest, hhighEq⟩ := hhighMem
      rw [← Except.ok.inj hbounds]
      constructor
      · change (rest.foldl (fun low r => min low r.start) first.start).toNat % 4096 = 0
        rw [← hlowEq]
        exact (hwhole lowest hlowest).start
      · change (rest.foldl (fun high r => max high r.stop) first.stop).toNat % 4096 = 0
        rw [← hhighEq]
        exact (hwhole highest hhighest).stop
      · exact ⟨lowest, hlowest, hlowEq⟩
      · exact ⟨highest, hhighest, hhighEq⟩
      · intro range hrange
        exact hlow _ (List.mem_map_of_mem hrange)
      · intro range hrange
        exact hhigh _ (List.mem_map_of_mem hrange)
      · have hfirst := (hwhole first List.mem_cons_self).nonempty
        have hbelow := hlow _ (List.mem_map_of_mem (List.mem_cons_self (a := first)))
        have habove := hhigh _ (List.mem_map_of_mem (List.mem_cons_self (a := first)))
        exact lt_of_le_of_lt hbelow (lt_of_lt_of_le hfirst habove)

theorem frameCount_eq_ok {survey : MemorySurvey} {count : Word}
    (hcount : survey.frameCount = .ok count)
    (horder : survey.base.word.toNat < survey.top.word.toNat) :
    count.toNat = (survey.top.word.toNat - survey.base.word.toNat) / 4096 := by
  obtain ⟨bytes, hbytes, hdiv⟩ := Checked.bind_eq_ok.mp hcount
  rw [Addr.distance, Word.sub_eq_ok (le_of_lt horder)] at hbytes
  rw [← Except.ok.inj hdiv, ← Except.ok.inj hbytes, UInt64.toNat_div, toNat_pageSize,
    Word.toNat_sub (le_of_lt horder)]

theorem bitmapBytes_eq_ok {survey : MemorySurvey} {size : Word}
    (hsize : survey.bitmapBytes = .ok size) :
    ∃ count, survey.frameCount = .ok count ∧ size.toNat = (count.toNat + 7) / 8 := by
  obtain ⟨count, hcount, hrest⟩ := Checked.bind_eq_ok.mp hsize
  refine ⟨count, hcount, ?_⟩
  have height : (8 : Word).toNat = 8 := rfl
  have hlt := count.toNat_lt
  have hmod : count % 8 = 0 ↔ count.toNat % 8 = 0 := by
    rw [← UInt64.toNat_inj, UInt64.toNat_mod]
    rfl
  have hvalue := Except.ok.inj hrest
  rw [← hvalue]
  split
  next h =>
    rw [UInt64.toNat_div, height]
    have hzero := hmod.mp h
    omega
  next h =>
    have hne : ¬count.toNat % 8 = 0 := fun hzero => h (hmod.mpr hzero)
    rw [Word.toNat_add, UInt64.toNat_div, height]
    · have hone : (1 : Word).toNat = 1 := rfl
      omega
    · have hone : (1 : Word).toNat = 1 := rfl
      rw [UInt64.toNat_div, height]
      omega

end MemorySurvey

end BootMemory
