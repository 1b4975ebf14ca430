import BootMemory.Proofs.Numbers

/-!
# Rounding to an alignment

Rounding down gives the greatest multiple of the alignment that is not above the word.  Rounding up
gives the least multiple that is not below it, but adds the whole alignment on the way.  So there is
one word that is refused although the answer would fit: the last multiple that the word holds, which
would be rounded to itself.  The number of pages in a length is found by rounding up, and it is
refused for the last page in the same way.
-/

namespace BootMemory

/-! ## Multiples -/

section Multiples

variable (n : Nat) {align : Nat} (hpos : 0 < align)

include hpos

theorem isGreatest_multiple : IsGreatest {m | align ∣ m ∧ m ≤ n} (n / align * align) := by
  constructor
  · exact ⟨Nat.dvd_mul_left _ _, Nat.div_mul_le_self n align⟩
  · rintro m ⟨⟨quotient, rfl⟩, hle⟩
    have hquotient : quotient ≤ n / align := by
      rwa [Nat.le_div_iff_mul_le hpos, Nat.mul_comm]
    rw [Nat.mul_comm]
    exact Nat.mul_le_mul_right align hquotient

theorem isLeast_multiple : IsLeast {m | align ∣ m ∧ n ≤ m} (n ⌈/⌉ align * align) := by
  have hcovers : n ≤ align * (n ⌈/⌉ align) := (ceilDiv_le_iff_le_mul hpos).mp le_rfl
  rw [Nat.mul_comm] at hcovers
  constructor
  · exact ⟨Nat.dvd_mul_left _ _, hcovers⟩
  · rintro m ⟨⟨quotient, rfl⟩, hle⟩
    have hquotient : n ⌈/⌉ align ≤ quotient := (ceilDiv_le_iff_le_mul hpos).mpr hle
    rw [Nat.mul_comm align]
    exact Nat.mul_le_mul_right align hquotient

theorem ceil_div_eq_ceilDiv : ⌈(n / align : ℚ)⌉₊ = n ⌈/⌉ align := by
  have hposRat : (0 : ℚ) < align := by
    exact_mod_cast hpos
  apply eq_of_forall_ge_iff
  intro bound
  rw [Nat.ceil_le, div_le_iff₀ hposRat, ceilDiv_le_iff_le_mul hpos, Nat.mul_comm]
  exact_mod_cast Iff.rfl

/-- In a room of whole multiples, adding the alignment stays inside if the least multiple does and
is not the number itself at the very end. -/
theorem add_lt_iff_ceilDiv_mul_lt {room : Nat} (hroom : align ∣ room) :
    n + align < room ↔ n ⌈/⌉ align * align < room ∧ n ≠ room - align := by
  obtain ⟨⟨_, hcovers⟩, hleast⟩ := isLeast_multiple n hpos
  constructor
  · intro hsum
    have hlast : n ⌈/⌉ align * align ≤ room - align :=
      hleast ⟨Nat.dvd_sub hroom dvd_rfl, by omega⟩
    exact ⟨by omega, by omega⟩
  · rintro ⟨hfits, hne⟩
    -- two multiples are at least the alignment apart
    have hapart : n ⌈/⌉ align * align + align ≤ room := by
      obtain ⟨quotient, rfl⟩ := hroom
      rw [Nat.mul_comm, Nat.mul_lt_mul_left hpos] at hfits
      calc n ⌈/⌉ align * align + align = align * (n ⌈/⌉ align + 1) := by ring
        _ ≤ align * quotient := Nat.mul_le_mul_left align hfits
    omega

end Multiples

namespace Word

variable (w : Word) {align : Word}

theorem dvd_two_pow_of_isPowerOfTwo (hpower : align.isPowerOfTwo = true) :
    align.toNat ∣ 2 ^ 64 := by
  obtain ⟨k, hk, halign, _⟩ := Word.exists_lowBits hpower
  rw [halign]
  exact Nat.pow_dvd_pow 2 hk.le

/-- Rounding up fails where the answer leaves the word, and for the last multiple in the word. -/
theorem exists_alignUp (hpower : align.isPowerOfTwo = true) :
    ∃ high, IsLeast {m | align.toNat ∣ m ∧ w.toNat ≤ m} high ∧
      Word.alignUp w align =
        if high < 2 ^ 64 ∧ w.toNat ≠ 2 ^ 64 - align.toNat then .ok (UInt64.ofNat high)
        else .error .addOverflow := by
  have hpos : 0 < align.toNat := Nat.pos_of_isPowerOfTwo (align.isPowerOfTwo_iff.mp hpower)
  refine ⟨_, isLeast_multiple w.toNat hpos, ?_⟩
  rw [Word.alignUp_eq w hpower]
  simp only [add_lt_iff_ceilDiv_mul_lt w.toNat hpos (dvd_two_pow_of_isPowerOfTwo hpower)]

theorem alignUp_of_dvd (hpower : align.isPowerOfTwo = true) (hdvd : align.toNat ∣ w.toNat) :
    Word.alignUp w align =
      if w.toNat = 2 ^ 64 - align.toNat then .error .addOverflow else .ok w := by
  obtain ⟨high, hhigh, hround⟩ := w.exists_alignUp hpower
  have hself : high = w.toNat := hhigh.unique ⟨⟨hdvd, le_rfl⟩, fun m hm => hm.2⟩
  have hlt := w.toNat_lt
  simp [hround, hself, hlt]

theorem exists_pageCount :
    ∃ high, IsLeast {m | 4096 ∣ m ∧ w.toNat ≤ m} high ∧
      Word.pageCount w =
        if high < 2 ^ 64 ∧ w.toNat ≠ 2 ^ 64 - 4096 then .ok (UInt64.ofNat ⌈(w.toNat / 4096 : ℚ)⌉₊)
        else .error .addOverflow := by
  have hpos : 0 < 4096 := by
    decide
  have hroom : 4096 ∣ 2 ^ 64 := by
    decide
  have hceil : ⌈(w.toNat / 4096 : ℚ)⌉₊ = (w.toNat + 4095) / 4096 := by
    exact_mod_cast ceil_div_eq_ceilDiv w.toNat hpos
  refine ⟨_, isLeast_multiple w.toNat hpos, ?_⟩
  simp only [hceil, Word.pageCount_eq, ← add_lt_iff_ceilDiv_mul_lt w.toNat hpos hroom]

/-- Rounding down finds the greatest multiple of the alignment that is not above the word.  Rounding
up finds the least one that is not below it, and the pages of a length come from that.  The last
multiple in the word, which is its own least multiple, is refused like the words past it. -/
theorem rounds_exactly_but_for_last_multiple (hpower : align.toNat.isPowerOfTwo) :
    (∃ low, IsGreatest {m | align.toNat ∣ m ∧ m ≤ w.toNat} low ∧
      Word.alignDown w align = .ok (UInt64.ofNat low)) ∧
    (∃ high, IsLeast {m | align.toNat ∣ m ∧ w.toNat ≤ m} high ∧
      Word.alignUp w align =
        if high < 2 ^ 64 ∧ w.toNat ≠ 2 ^ 64 - align.toNat then .ok (UInt64.ofNat high)
        else .error .addOverflow) ∧
    (align.toNat ∣ w.toNat → Word.alignUp w align =
      if w.toNat = 2 ^ 64 - align.toNat then .error .addOverflow else .ok w) ∧
    ∀ length : Word, ∃ high, IsLeast {m | 4096 ∣ m ∧ length.toNat ≤ m} high ∧
      Word.pageCount length =
        if high < 2 ^ 64 ∧ length.toNat ≠ 2 ^ 64 - 4096 then
          .ok (UInt64.ofNat ⌈(length.toNat / 4096 : ℚ)⌉₊)
        else .error .addOverflow := by
  have hpos : 0 < align.toNat := Nat.pos_of_isPowerOfTwo hpower
  have hpower := align.isPowerOfTwo_iff.mpr hpower
  exact ⟨⟨_, isGreatest_multiple w.toNat hpos, w.alignDown_eq hpower⟩, w.exists_alignUp hpower,
    w.alignUp_of_dvd hpower, exists_pageCount⟩

/-- The last page and the last address. -/
theorem rounds_exactly_but_for_last_multiple_lastPage :
    pageSize.toNat.isPowerOfTwo ∧ pageSize.toNat ∣ (0xFFFFFFFFFFFFF000 : Word).toNat ∧
      Word.alignUp 0xFFFFFFFFFFFFF000 pageSize = .error .addOverflow ∧
      ∃ low, IsGreatest {m | 4096 ∣ m ∧ m ≤ 0xFFFFFFFFFFFFFFFF} low ∧
        Word.alignDown 0xFFFFFFFFFFFFFFFF pageSize = .ok (UInt64.ofNat low) := by
  have hpower : pageSize.toNat.isPowerOfTwo := ⟨12, rfl⟩
  have hdvd : pageSize.toNat ∣ (0xFFFFFFFFFFFFF000 : Word).toNat := by
    decide
  have hpage := rounds_exactly_but_for_last_multiple 0xFFFFFFFFFFFFF000 hpower
  have haddress := rounds_exactly_but_for_last_multiple 0xFFFFFFFFFFFFFFFF hpower
  exact ⟨hpower, hdvd, hpage.2.2.1 hdvd, haddress.1⟩

end Word

end BootMemory
