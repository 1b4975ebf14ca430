import Mathlib
import BootMemory.BinarySize

/-!
# What a shown size says

A size is shown as so many tenths of a unit, and those that do not fill another tenth are cut off.
So it never says more than there is, and less only by a part of a tenth.  Of two sizes in the same
unit the larger one never shows as less.  A larger unit is not left before it is exceeded, so the
same holds where the unit changes.
-/

namespace BootMemory

/-! ## The unit -/

namespace SizeUnit

variable {bytes : Nat} {unit : SizeUnit} {above : List SizeUnit}

theorem scale_pos (unit : SizeUnit) : 0 < unit.scale := by
  cases unit <;> decide

theorem scale_climb_le (hunit : unit.scale ≤ bytes) : (climb bytes unit above).scale ≤ bytes := by
  induction above generalizing unit with
  | nil => exact hunit
  | cons next above ih =>
      rw [climb]
      split
      next => exact hunit
      next hnext => exact ih (Nat.not_lt.mp hnext)

/-- The climb leaves no unit out that does not exceed the bytes, if the units stand in order. -/
theorem le_scale_climb (hsorted : (unit :: above).Pairwise (scale · ≤ scale ·)) {other : SizeUnit}
    (hother : other ∈ unit :: above) (hle : other.scale ≤ bytes) :
    other.scale ≤ (climb bytes unit above).scale := by
  induction above generalizing unit other with
  | nil =>
      rw [List.mem_singleton.mp hother]
      exact le_refl _
  | cons next above ih =>
      obtain ⟨hfirst, hrest⟩ := List.pairwise_cons.mp hsorted
      rw [climb]
      split
      next hnext =>
        rcases List.mem_cons.mp hother with rfl | hother
        · exact le_refl _
        · -- a unit from the next one on is as large as that, and exceeds the bytes
          exfalso
          rcases List.mem_cons.mp hother with rfl | hother
          · omega
          · have hnextLe := (List.pairwise_cons.mp hrest).1 other hother
            omega
      next hnext =>
        rcases List.mem_cons.mp hother with rfl | hother
        · have hstep := ih hrest List.mem_cons_self (Nat.not_lt.mp hnext)
          exact (hfirst next List.mem_cons_self).trans hstep
        · exact ih hrest hother hle

/-- The units in order. -/
def all : List SizeUnit :=
  [.byte, .kibibyte, .mebibyte, .gibibyte, .tebibyte]

theorem mem_all (unit : SizeUnit) : unit ∈ all := by
  cases unit <;> decide

theorem le_scale_largestWithin (hle : unit.scale ≤ bytes) :
    unit.scale ≤ (largestWithin bytes).scale :=
  le_scale_climb (by decide) (mem_all unit) hle

theorem scale_largestWithin_le (hsome : 0 < bytes) : (largestWithin bytes).scale ≤ bytes :=
  scale_climb_le hsome

theorem largestWithin_mono {more : Nat} (hle : bytes ≤ more) :
    (largestWithin bytes).scale ≤ (largestWithin more).scale := by
  rcases Nat.eq_zero_or_pos bytes with rfl | hsome
  · exact scale_pos _
  · exact le_scale_largestWithin ((scale_largestWithin_le hsome).trans hle)

theorem largestWithin_eq_byte_iff : largestWithin bytes = .byte ↔ bytes < 1024 := by
  have hstep : largestWithin bytes =
      if bytes < 1024 then .byte
      else climb bytes .kibibyte [.mebibyte, .gibibyte, .tebibyte] := rfl
  constructor
  · intro hbyte
    by_contra hmany
    have hle : kibibyte.scale ≤ (largestWithin bytes).scale :=
      le_scale_largestWithin (Nat.not_lt.mp hmany)
    rw [hbyte] at hle
    exact absurd hle (by decide)
  · intro hfew
    rw [hstep, if_pos hfew]

/-- All units but the last are left for the next one at 1024 of them. -/
theorem lt_mul_scale_largestWithin (hunit : largestWithin bytes ≠ .tebibyte) :
    bytes < 1024 * (largestWithin bytes).scale := by
  by_contra hmany
  obtain ⟨next, hnext⟩ : ∃ next : SizeUnit, next.scale = 1024 * (largestWithin bytes).scale := by
    cases hlargest : largestWithin bytes with
    | byte => exact ⟨.kibibyte, rfl⟩
    | kibibyte => exact ⟨.mebibyte, rfl⟩
    | mebibyte => exact ⟨.gibibyte, rfl⟩
    | gibibyte => exact ⟨.tebibyte, rfl⟩
    | tebibyte => exact absurd hlargest hunit
  have hle : next.scale ≤ (largestWithin bytes).scale := le_scale_largestWithin (by omega)
  have hpos := (largestWithin bytes).scale_pos
  omega

end SizeUnit

/-! ## The quantity -/

namespace BinarySize

/-- The bytes that are shown. -/
def quantity (size : BinarySize) : ℚ :=
  (size.whole + size.tenths / 10) * size.unit.scale

/-- The size says how many tenths of the largest of the four units there are in `bytes`. -/
structure Truncates (size : BinarySize) (bytes : Nat) : Prop where
  unit : size.unit.scale ∈ [2 ^ 10, 2 ^ 20, 2 ^ 30, 2 ^ 40]
  within : size.unit.scale ≤ bytes
  largest : ∀ scale ∈ [2 ^ 10, 2 ^ 20, 2 ^ 30, 2 ^ 40], scale ≤ bytes → scale ≤ size.unit.scale
  value : 10 * size.whole + size.tenths = 10 * bytes / size.unit.scale
  whole : 1 ≤ size.whole
  tenths : size.tenths ≤ 9
  carry : size.unit.scale ≠ 2 ^ 40 → size.whole ≤ 1023

section Quantities

variable (bytes : Nat)

theorem tenths_ofBytes :
    10 * (ofBytes bytes).whole + (ofBytes bytes).tenths =
      10 * bytes / (ofBytes bytes).unit.scale := by
  have hpos := (ofBytes bytes).unit.scale_pos
  change 10 * (bytes / (ofBytes bytes).unit.scale) +
    bytes % (ofBytes bytes).unit.scale * 10 / (ofBytes bytes).unit.scale = _
  generalize (ofBytes bytes).unit.scale = scale at hpos ⊢
  have hparts : 10 * bytes = bytes % scale * 10 + 10 * (bytes / scale) * scale := by
    have hdivision := Nat.div_add_mod bytes scale
    calc 10 * bytes = 10 * (scale * (bytes / scale) + bytes % scale) := by rw [hdivision]
      _ = bytes % scale * 10 + 10 * (bytes / scale) * scale := by ring
  rw [hparts, Nat.add_mul_div_right _ _ hpos, Nat.add_comm]

theorem quantity_ofBytes :
    (ofBytes bytes).quantity =
      ((10 * bytes / (ofBytes bytes).unit.scale * (ofBytes bytes).unit.scale : ℕ) : ℚ) / 10 := by
  rw [← tenths_ofBytes, quantity]
  push_cast
  ring

theorem quantity_le : (ofBytes bytes).quantity ≤ bytes := by
  have hle := Nat.div_mul_le_self (10 * bytes) (ofBytes bytes).unit.scale
  have hcast : ((10 * bytes / (ofBytes bytes).unit.scale * (ofBytes bytes).unit.scale : ℕ) : ℚ) ≤
      10 * bytes := by
    exact_mod_cast hle
  rw [quantity_ofBytes]
  linarith

/-- Less than a tenth of a unit is cut off. -/
theorem sub_quantity_lt :
    bytes - (ofBytes bytes).quantity < ((ofBytes bytes).unit.scale : ℚ) / 10 := by
  have hlt := Nat.lt_div_mul_add (a := 10 * bytes) (ofBytes bytes).unit.scale_pos
  have hcast : (10 * bytes : ℚ) <
      ((10 * bytes / (ofBytes bytes).unit.scale * (ofBytes bytes).unit.scale : ℕ) : ℚ) +
        (ofBytes bytes).unit.scale := by
    exact_mod_cast hlt
  rw [quantity_ofBytes]
  linarith

end Quantities

variable {bytes more : Nat}

theorem scale_le_quantity (hsome : 0 < bytes) :
    ((ofBytes bytes).unit.scale : ℚ) ≤ (ofBytes bytes).quantity := by
  have hunit : (ofBytes bytes).unit.scale ≤ bytes := SizeUnit.scale_largestWithin_le hsome
  have hten : 10 ≤ 10 * bytes / (ofBytes bytes).unit.scale := by
    rw [Nat.le_div_iff_mul_le (SizeUnit.scale_pos _)]
    omega
  have hcast : ((10 * (ofBytes bytes).unit.scale : ℕ) : ℚ) ≤
      ((10 * bytes / (ofBytes bytes).unit.scale * (ofBytes bytes).unit.scale : ℕ) : ℚ) := by
    exact_mod_cast Nat.mul_le_mul_right _ hten
  rw [quantity_ofBytes]
  push_cast at hcast ⊢
  linarith

theorem quantity_mono (hle : bytes ≤ more) : (ofBytes bytes).quantity ≤ (ofBytes more).quantity := by
  have hunits : (ofBytes bytes).unit.scale ≤ (ofBytes more).unit.scale :=
    SizeUnit.largestWithin_mono hle
  rcases hunits.eq_or_lt with hsame | hlarger
  · rw [quantity_ofBytes, quantity_ofBytes, hsame]
    gcongr
  · -- the larger unit exceeds the fewer bytes, and the more bytes show at least one of it
    have hfew : bytes < (ofBytes more).unit.scale := by
      by_contra hmany
      exact absurd (SizeUnit.le_scale_largestWithin (Nat.not_lt.mp hmany)) (Nat.not_le.mpr hlarger)
    have hsome : 0 < more := by
      rcases Nat.eq_zero_or_pos more with rfl | hsome
      · exact absurd hlarger (Nat.not_lt.mpr (SizeUnit.scale_pos _))
      · exact hsome
    calc (ofBytes bytes).quantity ≤ bytes := quantity_le bytes
      _ ≤ (ofBytes more).unit.scale := by exact_mod_cast hfew.le
      _ ≤ (ofBytes more).quantity := scale_le_quantity hsome

theorem truncates_ofBytes (hmany : 1024 ≤ bytes) : (ofBytes bytes).Truncates bytes := by
  have hsome : 0 < bytes := by
    omega
  have hpos := (ofBytes bytes).unit.scale_pos
  have hwithin : (ofBytes bytes).unit.scale ≤ bytes := SizeUnit.scale_largestWithin_le hsome
  have hbyte : (ofBytes bytes).unit ≠ .byte :=
    mt SizeUnit.largestWithin_eq_byte_iff.mp (Nat.not_lt.mpr hmany)
  refine ⟨?_, hwithin, ?_, tenths_ofBytes bytes, ?_, ?_, ?_⟩
  · cases hunit : (ofBytes bytes).unit with
    | byte => exact absurd hunit hbyte
    | _ => decide
  · intro scale hscale hle
    obtain ⟨other, rfl⟩ : ∃ other : SizeUnit, other.scale = scale := by
      simp only [List.mem_cons, List.not_mem_nil, or_false] at hscale
      rcases hscale with rfl | rfl | rfl | rfl
      exacts [⟨.kibibyte, rfl⟩, ⟨.mebibyte, rfl⟩, ⟨.gibibyte, rfl⟩, ⟨.tebibyte, rfl⟩]
    exact SizeUnit.le_scale_largestWithin hle
  · exact Nat.div_pos hwithin hpos
  · have hrest := Nat.mod_lt bytes hpos
    have htenths : bytes % (ofBytes bytes).unit.scale * 10 / (ofBytes bytes).unit.scale < 10 := by
      rw [Nat.div_lt_iff_lt_mul hpos]
      omega
    exact Nat.le_of_lt_succ htenths
  · intro hscale
    have hunit : (ofBytes bytes).unit ≠ .tebibyte := fun hlast => hscale (by rw [hlast]; rfl)
    have hlt : bytes < 1024 * (ofBytes bytes).unit.scale :=
      SizeUnit.lt_mul_scale_largestWithin hunit
    exact Nat.le_of_lt_succ ((Nat.div_lt_iff_lt_mul hpos).mpr hlt)

theorem unit_ofBytes_of_lt (hfew : bytes < 1024) : (ofBytes bytes).unit = .byte :=
  SizeUnit.largestWithin_eq_byte_iff.mpr hfew

theorem text_ofBytes_of_lt (hfew : bytes < 1024) :
    (ofBytes bytes).text = toString bytes ++ "B" := by
  have hunit : SizeUnit.largestWithin bytes = .byte := unit_ofBytes_of_lt hfew
  simp [ofBytes, text, hunit, SizeUnit.scale, SizeUnit.symbol, Nat.mod_one]

theorem quantity_ofBytes_of_lt (hfew : bytes < 1024) : (ofBytes bytes).quantity = bytes := by
  rw [quantity_ofBytes, unit_ofBytes_of_lt hfew, SizeUnit.scale, Nat.div_one, Nat.mul_one]
  push_cast
  ring

/-- The symbols of the four units above the byte, by their scales. -/
theorem scale_symbol_mem {unit : SizeUnit} (hunit : unit ≠ .byte) :
    (unit.scale, unit.symbol) ∈
      [(2 ^ 10, "KiB"), (2 ^ 20, "MiB"), (2 ^ 30, "GiB"), (2 ^ 40, "TiB")] := by
  cases unit with
  | byte => exact absurd rfl hunit
  | _ => decide

theorem text_ofBytes_of_le (hmany : 1024 ≤ bytes) :
    ∃ symbol, ((ofBytes bytes).unit.scale, symbol) ∈
        [(2 ^ 10, "KiB"), (2 ^ 20, "MiB"), (2 ^ 30, "GiB"), (2 ^ 40, "TiB")] ∧
      (ofBytes bytes).text = toString (ofBytes bytes).whole ++
        (if (ofBytes bytes).tenths = 0 then "" else "." ++ toString (ofBytes bytes).tenths) ++
        symbol := by
  have hbyte : (ofBytes bytes).unit ≠ .byte :=
    mt SizeUnit.largestWithin_eq_byte_iff.mp (Nat.not_lt.mpr hmany)
  refine ⟨(ofBytes bytes).unit.symbol, scale_symbol_mem hbyte, ?_⟩
  unfold text
  split
  · rw [String.append_empty]
  · rw [← String.append_assoc]

/-- Fewer than 1024 bytes are shown as they are.  More are shown in tenths of the largest unit that
they reach, with the symbol of that unit, and without a digit after the point if it is zero.  What
is shown is never more than there is and falls short by less than a tenth of the unit, and more
bytes never show as less. -/
theorem ofBytes_truncates_monotonically (bytes : Nat) :
    (bytes < 1024 →
      (ofBytes bytes).text = toString bytes ++ "B" ∧ (ofBytes bytes).quantity = bytes) ∧
      (1024 ≤ bytes → (ofBytes bytes).Truncates bytes ∧
        ∃ symbol, ((ofBytes bytes).unit.scale, symbol) ∈
            [(2 ^ 10, "KiB"), (2 ^ 20, "MiB"), (2 ^ 30, "GiB"), (2 ^ 40, "TiB")] ∧
          (ofBytes bytes).text = toString (ofBytes bytes).whole ++
            (if (ofBytes bytes).tenths = 0 then "" else "." ++ toString (ofBytes bytes).tenths) ++
            symbol) ∧
      (ofBytes bytes).quantity ≤ bytes ∧
      bytes - (ofBytes bytes).quantity < ((ofBytes bytes).unit.scale : ℚ) / 10 ∧
      ∀ more, bytes ≤ more → (ofBytes bytes).quantity ≤ (ofBytes more).quantity :=
  ⟨fun hfew => ⟨text_ofBytes_of_lt hfew, quantity_ofBytes_of_lt hfew⟩,
    fun hmany => ⟨truncates_ofBytes hmany, text_ofBytes_of_le hmany⟩, quantity_le bytes,
    sub_quantity_lt bytes, fun _ => quantity_mono⟩

/-- The last sizes in two units and the first ones in the next, and the two largest units. -/
theorem ofBytes_truncates_monotonically_boundaries :
    (ofBytes 1023).text = toString 1023 ++ "B" ∧
      (ofBytes 1048575).Truncates 1048575 ∧ (ofBytes 1048575).text = "1023.9KiB" ∧
      (ofBytes 1048576).text = "1MiB" ∧
      (ofBytes 1048575).quantity ≤ (ofBytes 1048576).quantity ∧
      (ofBytes (3 * 2 ^ 29)).Truncates (3 * 2 ^ 29) ∧ (ofBytes (3 * 2 ^ 29)).text = "1.5GiB" ∧
      (ofBytes (3 * 2 ^ 30)).text = "3GiB" ∧
      (ofBytes (2 ^ 40)).Truncates (2 ^ 40) ∧ (ofBytes (2 ^ 40)).text = "1TiB" ∧
      (ofBytes (2 ^ 64 - 1)).text = "16777215.9TiB" := by
  have hsmall := (ofBytes_truncates_monotonically 1023).1 (by decide)
  obtain ⟨_, hlarge, _, _, hmono⟩ := ofBytes_truncates_monotonically 1048575
  have hgibi := (ofBytes_truncates_monotonically (3 * 2 ^ 29)).2.1 (by decide)
  have htebi := (ofBytes_truncates_monotonically (2 ^ 40)).2.1 (by decide)
  exact ⟨hsmall.1, (hlarge (by decide)).1, by decide, by decide, hmono 1048576 (by decide),
    hgibi.1, by decide, by decide, htebi.1, by decide, by decide⟩

end BinarySize

end BootMemory
