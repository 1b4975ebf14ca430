import BootMemory.Proofs.Clipping

/-!
# Ranges of bits

Bytes are known by their bits, so a bitmap in a store of a given size is known by what is tested and
by the bytes before it.  Marking a range is known in this way from the bits that it changes.  So
marking the same range again changes nothing, and two ranges without a common bit are marked in
either order, also where they meet inside a byte.
-/

namespace BootMemory

theorem Bytes.ext_byteAt {a b : ByteArray} (hsize : a.size = b.size)
    (hbytes : ∀ i, byteAt a i = byteAt b i) : a = b := by
  apply ByteArray.ext
  apply Array.ext hsize
  intro i hleft hright
  have hina : i < a.size := hleft
  have hinb : i < b.size := hright
  have hbyte := hbytes i
  rwa [byteAt, byteAt, dif_pos hina, dif_pos hinb] at hbyte

namespace Bitmap

theorem byteAt_eq_of_taken {b c : Bitmap} {k : Nat}
    (hbits : ∀ bit, bit / 8 = k → b.taken bit = c.taken bit) :
    Bytes.byteAt b.store (b.origin + k) = Bytes.byteAt c.store (c.origin + k) := by
  apply UInt8.eq_of_toBitVec_eq
  apply BitVec.eq_of_getLsbD_eq
  intro i hi
  have hbyte : (8 * k + i) / 8 = k := by
    omega
  have hplace : (8 * k + i) % 8 = i := by
    omega
  have hbit := hbits (8 * k + i) hbyte
  rwa [taken_eq_getLsbD, taken_eq_getLsbD, byteIndex, byteIndex, hbyte, hplace] at hbit

theorem ext_taken {b c : Bitmap} (horigin : b.origin = c.origin)
    (hsize : b.store.size = c.store.size)
    (hbefore : ∀ i < b.origin, Bytes.byteAt b.store i = Bytes.byteAt c.store i)
    (htaken : ∀ bit, b.taken bit = c.taken bit) : b = c := by
  have hstore : b.store = c.store := by
    apply Bytes.ext_byteAt hsize
    intro i
    by_cases hi : i < b.origin
    · exact hbefore i hi
    · have hbyte := byteAt_eq_of_taken (k := i - b.origin) fun bit _ => htaken bit
      rwa [← horigin, Nat.add_sub_cancel' (Nat.not_lt.mp hi)] at hbyte
  cases b
  cases c
  simp_all

/-- The bits from the origin to the end of the store. -/
def bitCount (b : Bitmap) : Nat :=
  8 * (b.store.size - b.origin)

@[simp] theorem bitCount_markRange (b : Bitmap) (start count : Nat) (value : Bool) :
    (b.markRange start count value).bitCount = b.bitCount := by
  simp [bitCount]

section Ranges

variable (b : Bitmap) {start count first length : Nat}

theorem taken_markRange_of_le (hfits : start + count ≤ b.bitCount) (value : Bool) (bit : Nat) :
    (b.markRange start count value).taken bit =
      if start ≤ bit ∧ bit < start + count then value else b.taken bit := by
  apply taken_markRange
  unfold bitCount at hfits
  unfold byteIndex
  omega

theorem byteAt_markRange_of_lt_origin (start count : Nat) (value : Bool) {i : Nat}
    (hi : i < b.origin) :
    Bytes.byteAt (b.markRange start count value).store i = Bytes.byteAt b.store i :=
  b.byteAt_markRange_of_outside value le_rfl (.inl hi)

theorem markRange_self (hfits : start + count ≤ b.bitCount) (value : Bool) :
    (b.markRange start count value).markRange start count value =
      b.markRange start count value := by
  apply ext_taken
  · simp
  · simp
  · intro i hi
    rw [origin_markRange] at hi
    exact byteAt_markRange_of_lt_origin _ _ _ _ hi
  · intro bit
    rw [taken_markRange_of_le _ (by simpa using hfits), taken_markRange_of_le b hfits]
    split <;> rfl

theorem markRange_comm (hfits : start + count ≤ b.bitCount)
    (hfitsOther : first + length ≤ b.bitCount)
    (hdisjoint : Disjoint (Set.Ico start (start + count)) (Set.Ico first (first + length)))
    (value other : Bool) :
    (b.markRange start count value).markRange first length other =
      (b.markRange first length other).markRange start count value := by
  apply ext_taken
  · simp
  · simp
  · intro i hi
    rw [origin_markRange, origin_markRange] at hi
    simp [byteAt_markRange_of_lt_origin, hi]
  · intro bit
    -- a bit of one range is tested as that range is marked, whether it comes first or second
    have hnotBoth : start ≤ bit ∧ bit < start + count → ¬(first ≤ bit ∧ bit < first + length) :=
      fun hin hinOther => Set.disjoint_left.mp hdisjoint hin hinOther
    rw [taken_markRange_of_le _ (by simpa using hfitsOther), taken_markRange_of_le b hfits,
      taken_markRange_of_le _ (by simpa using hfits), taken_markRange_of_le b hfitsOther]
    by_cases hin : start ≤ bit ∧ bit < start + count
    · rw [if_neg (hnotBoth hin), if_pos hin, if_pos hin]
    · rw [if_neg hin, if_neg hin]

/-- Marking a range that lies in the store writes no byte beside it, gives the bits of the range
the value, and leaves all other bits.  Doing it again changes nothing, and it may be done before or
after any range without a common bit. -/
theorem markRange_writes_exactly (hfits : start + count ≤ b.bitCount) (value : Bool) :
    b.markRangeWithin (b.store.size - b.origin) start count value =
        .ok (b.markRange start count value) ∧
      (∀ bit, (b.markRange start count value).taken bit =
        if start ≤ bit ∧ bit < start + count then value else b.taken bit) ∧
      (b.markRange start count value).markRange start count value =
        b.markRange start count value ∧
      ∀ first length other, first + length ≤ b.bitCount →
        Disjoint (Set.Ico start (start + count)) (Set.Ico first (first + length)) →
        (b.markRange start count value).markRange first length other =
          (b.markRange first length other).markRange start count value :=
  ⟨b.markRangeWithin_eq_ok hfits value, b.taken_markRange_of_le hfits value,
    b.markRange_self hfits value,
    fun _ _ other hother hdisjoint => b.markRange_comm hfits hother hdisjoint value other⟩

end Ranges

def threeBytes : Bitmap :=
  ⟨⟨#[0xA5, 0x3C, 0x0F]⟩, 0⟩

/-- Two ranges that meet inside the second of three bytes. -/
theorem markRange_writes_exactly_threeBytes :
    3 + 9 ≤ threeBytes.bitCount ∧ 12 + 12 ≤ threeBytes.bitCount ∧
      Disjoint (Set.Ico 3 (3 + 9)) (Set.Ico 12 (12 + 12)) ∧
      (threeBytes.markRange 3 9 false).taken 12 = true ∧
      (threeBytes.markRange 3 9 false).markRange 12 12 true =
        (threeBytes.markRange 12 12 true).markRange 3 9 false := by
  have hfits : 3 + 9 ≤ threeBytes.bitCount := by
    decide
  have hother : 12 + 12 ≤ threeBytes.bitCount := by
    decide
  have hdisjoint : Disjoint (Set.Ico 3 (3 + 9)) (Set.Ico 12 (12 + 12)) := by
    simp
  have htaken : threeBytes.taken 12 = true := by
    decide
  obtain ⟨_, hbits, _, hswap⟩ := markRange_writes_exactly threeBytes hfits false
  exact ⟨hfits, hother, hdisjoint, (hbits 12).trans htaken, hswap 12 12 true hother hdisjoint⟩

end Bitmap

end BootMemory
