import BootMemory.Bytes

/-!
# Frame bitmaps

A bitmap is kept in the bytes of a larger store, from some origin on.  Bit `i` is bit `i % 8` of
byte `i / 8`, and a set bit means that the frame is taken.  A search sees only the predicate
`taken`, never the bytes, and so do later results: marking a range of bits changes these bits and
no other.
-/

namespace BootMemory

structure Bitmap where
  store : ByteArray
  origin : Nat

namespace Bitmap

def byteIndex (b : Bitmap) (i : Nat) : Nat :=
  b.origin + i / 8

def mask (i : Nat) : UInt8 :=
  1 <<< UInt8.ofNat (i % 8)

def taken (b : Bitmap) (i : Nat) : Bool :=
  Bytes.byteAt b.store (b.byteIndex i) &&& mask i != 0

def mark (b : Bitmap) (i : Nat) (value : Bool) : Bitmap :=
  let byte := Bytes.byteAt b.store (b.byteIndex i)
  let byte := if value then byte ||| mask i else byte &&& ~~~(mask i)
  { b with store := Bytes.put b.store (b.byteIndex i) byte }

def markRange (b : Bitmap) (start : Nat) : (count : Nat) → (value : Bool) → Bitmap
  | 0, _ => b
  | count + 1, value => markRange (b.mark start value) (start + 1) count value

def fill (b : Bitmap) (size : Nat) : Bitmap :=
  { b with store := Bytes.overwrite b.store b.origin (List.replicate size 0xFF) }

def countFree (b : Bitmap) (count : Nat) : Nat :=
  (List.range count).countP fun i => !b.taken i

theorem toBitVec_mask (i : Nat) : (mask i).toBitVec = BitVec.twoPow 8 (i % 8) := by
  have hlt : i % 8 < 8 := Nat.mod_lt _ (by decide)
  unfold mask
  generalize i % 8 = k at hlt
  revert k
  decide

/-- Testing a bit reads this bit of the byte that holds it. -/
theorem taken_eq_getLsbD (b : Bitmap) (i : Nat) :
    b.taken i = (Bytes.byteAt b.store (b.byteIndex i)).toBitVec.getLsbD (i % 8) := by
  have hlt : i % 8 < 8 := Nat.mod_lt _ (by decide)
  rw [Bool.eq_iff_iff, taken, bne_iff_ne, ne_eq, ← UInt8.toBitVec_inj, UInt8.toBitVec_and,
    toBitVec_mask, BitVec.and_twoPow]
  by_cases hbit : (Bytes.byteAt b.store (b.byteIndex i)).toBitVec.getLsbD (i % 8)
  · have hpow : BitVec.twoPow 8 (i % 8) ≠ 0#8 := by
      intro hzero
      have hself := BitVec.getLsbD_twoPow (w := 8) (i % 8) (i % 8)
      rw [hzero] at hself
      simp [hlt] at hself
    simpa [hbit] using hpow
  · simp [hbit]

@[simp] theorem origin_mark (b : Bitmap) (i : Nat) (value : Bool) :
    (b.mark i value).origin = b.origin := rfl

@[simp] theorem size_store_mark (b : Bitmap) (i : Nat) (value : Bool) :
    (b.mark i value).store.size = b.store.size := by
  simp [mark]

@[simp] theorem origin_markRange (b : Bitmap) (start count : Nat) (value : Bool) :
    (b.markRange start count value).origin = b.origin := by
  induction count generalizing b start with
  | zero => rfl
  | succ count ih => rw [markRange, ih, origin_mark]

@[simp] theorem size_store_markRange (b : Bitmap) (start count : Nat) (value : Bool) :
    (b.markRange start count value).store.size = b.store.size := by
  induction count generalizing b start with
  | zero => rfl
  | succ count ih => rw [markRange, ih, size_store_mark]

/-- Marking a bit changes that bit and no other, not even in the same byte. -/
theorem taken_mark (b : Bitmap) (i j : Nat) (value : Bool)
    (hfits : b.byteIndex i < b.store.size) :
    (b.mark i value).taken j = if i = j then value else b.taken j := by
  have hj : j % 8 < 8 := Nat.mod_lt _ (by decide)
  by_cases hbyte : i / 8 = j / 8
  · have hsame : b.byteIndex j = b.byteIndex i := by simp [byteIndex, hbyte]
    have hindex : (b.mark i value).byteIndex j = b.byteIndex i := by simp [byteIndex, hbyte]
    have hmod : i = j ↔ i % 8 = j % 8 := by omega
    rw [taken_eq_getLsbD, taken_eq_getLsbD, hindex, hsame]
    by_cases hij : i % 8 = j % 8
    · cases value <;> simp [mark, Bytes.byteAt_put, hfits, toBitVec_mask, hmod, hij, hj]
    · have hji : j % 8 ≠ i % 8 := Ne.symm hij
      cases value <;> simp [mark, Bytes.byteAt_put, hfits, toBitVec_mask, hmod, hij, hji, hj]
  · have hne : i ≠ j := fun heq => hbyte (heq ▸ rfl)
    simp [taken, mark, byteIndex, Bytes.byteAt_put, hbyte, hne]

/-- Marking a range changes the bits in it and no other. -/
theorem taken_markRange (b : Bitmap) (start count j : Nat) (value : Bool)
    (hfits : count = 0 ∨ b.byteIndex (start + count - 1) < b.store.size) :
    (b.markRange start count value).taken j =
      if start ≤ j ∧ j < start + count then value else b.taken j := by
  induction count generalizing b start with
  | zero => rw [markRange, if_neg (by omega)]
  | succ count ih =>
      have hlast : b.byteIndex (start + count) < b.store.size := by simpa using hfits
      have hfirst : b.byteIndex start < b.store.size := by
        unfold byteIndex at *
        omega
      have hrest : count = 0 ∨
          (b.mark start value).byteIndex (start + 1 + count - 1) <
            (b.mark start value).store.size := by
        rw [size_store_mark]
        unfold byteIndex at *
        rw [origin_mark]
        omega
      rw [markRange, ih _ _ hrest, taken_mark b start j value hfirst]
      by_cases hin : start + 1 ≤ j ∧ j < start + 1 + count
      · rw [if_pos hin, if_pos (by omega)]
      · rw [if_neg hin]
        by_cases heq : start = j
        · rw [if_pos heq, if_pos (by omega)]
        · rw [if_neg heq, if_neg (by omega)]

end Bitmap

/-- Continues a search for `count` free frames in a row with `remaining` frames to look at, the
next of them `next`, and `run` free frames in a row just before it. -/
def searchRun (taken : Nat → Bool) (count : Nat) : (remaining next run : Nat) → Option Nat
  | 0, _, _ => none
  | remaining + 1, next, run =>
      if taken next then searchRun taken count remaining (next + 1) 0
      else if run + 1 = count then some (next - run)
      else searchRun taken count remaining (next + 1) (run + 1)

/-- The lowest start, from `start` on, of `count` free frames in a row below `limit`. -/
def firstRun (taken : Nat → Bool) (count start limit : Nat) : Option Nat :=
  searchRun taken count (limit - start) start 0

end BootMemory
