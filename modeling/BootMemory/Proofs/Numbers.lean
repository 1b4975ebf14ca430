import BootMemory.Machine.Basic
import Mathlib

/-!
# The numbers behind words

Masks and shifts of words are divisions by powers of two.  The page of an address is a number,
and the index of a table entry is one of its digits in base 512, so two addresses take the same
way through the tables exactly if their page numbers agree up to the digits that are looked at.
-/

namespace BootMemory

theorem toNat_and_lowBits (w : Word) {k : Nat} (hk : k < 64) :
    (w &&& UInt64.ofNat (2 ^ k - 1)).toNat = w.toNat % 2 ^ k := by
  have hpow : 2 ^ k < 2 ^ 64 := Nat.pow_lt_pow_right (by decide) hk
  have hlt : 2 ^ k - 1 < UInt64.size := by
    simp only [UInt64.size]
    omega
  rw [UInt64.toNat_and, UInt64.toNat_ofNat_of_lt' hlt, Nat.and_two_pow_sub_one_eq_mod]

theorem toNat_and_not_lowBits (w : Word) (k : Nat) :
    (w &&& ~~~(UInt64.ofNat (2 ^ k - 1))).toNat = w.toNat / 2 ^ k * 2 ^ k := by
  have hbits :
      w.toBitVec &&& ~~~(BitVec.ofNat 64 (2 ^ k - 1)) = (w.toBitVec >>> k) <<< k := by
    apply BitVec.eq_of_getLsbD_eq
    intro i hi
    by_cases hlow : i < k
    · simp [hlow, BitVec.getLsbD_ofNat, Nat.testBit_two_pow_sub_one]
    · have hmask : (BitVec.ofNat 64 (2 ^ k - 1)).getLsbD i = false := by
        simp [BitVec.getLsbD_ofNat, Nat.testBit_two_pow_sub_one, hlow]
      rw [BitVec.getLsbD_and, BitVec.getLsbD_not, hmask, BitVec.getLsbD_shiftLeft,
        BitVec.getLsbD_ushiftRight, show k + (i - k) = i by omega]
      simp [hi, hlow]
  have hle : w.toNat / 2 ^ k * 2 ^ k ≤ w.toNat := Nat.div_mul_le_self _ _
  have hlt := w.toNat_lt
  rw [← UInt64.toNat_toBitVec, UInt64.toBitVec_and, UInt64.toBitVec_not,
    show (UInt64.ofNat (2 ^ k - 1)).toBitVec = BitVec.ofNat 64 (2 ^ k - 1) from rfl, hbits,
    BitVec.toNat_shiftLeft, BitVec.toNat_ushiftRight, UInt64.toNat_toBitVec,
    Nat.shiftRight_eq_div_pow, Nat.shiftLeft_eq]
  exact Nat.mod_eq_of_lt (by omega)

/-! ## Checked arithmetic -/

theorem Word.add_eq_ok {a b : Word} (h : a.toNat + b.toNat < 2 ^ 64) :
    Word.add a b = .ok (a + b) :=
  if_pos h

theorem Word.add_eq_error {a b : Word} (h : 2 ^ 64 ≤ a.toNat + b.toNat) :
    Word.add a b = .error .addOverflow :=
  if_neg (Nat.not_lt.mpr h)

theorem Word.toNat_add {a b : Word} (h : a.toNat + b.toNat < 2 ^ 64) :
    (a + b).toNat = a.toNat + b.toNat := by
  rw [UInt64.toNat_add]
  exact Nat.mod_eq_of_lt h

theorem Word.sub_eq_ok {a b : Word} (h : b.toNat ≤ a.toNat) :
    Word.sub a b = .ok (a - b) :=
  if_pos (UInt64.le_iff_toNat_le.mpr h)

theorem Word.toNat_sub {a b : Word} (h : b.toNat ≤ a.toNat) :
    (a - b).toNat = a.toNat - b.toNat :=
  UInt64.toNat_sub_of_le a b (UInt64.le_iff_toNat_le.mpr h)

theorem Word.mul_eq_ok {a b : Word} (h : a.toNat * b.toNat < 2 ^ 64) :
    Word.mul a b = .ok (a * b) :=
  if_pos h

theorem Word.toNat_mul {a b : Word} (h : a.toNat * b.toNat < 2 ^ 64) :
    (a * b).toNat = a.toNat * b.toNat := by
  rw [UInt64.toNat_mul]
  exact Nat.mod_eq_of_lt h

theorem Word.toNat_of_add_eq_ok {a b c : Word} (hadd : Word.add a b = .ok c) :
    c.toNat = a.toNat + b.toNat := by
  unfold Word.add at hadd
  split at hadd
  next hfits =>
    cases hadd
    exact Word.toNat_add hfits
  next => cases hadd

theorem Word.toNat_of_mul_eq_ok {a b c : Word} (hmul : Word.mul a b = .ok c) :
    c.toNat = a.toNat * b.toNat := by
  unfold Word.mul at hmul
  split at hmul
  next hfits =>
    cases hmul
    exact Word.toNat_mul hfits
  next => cases hmul

@[simp] theorem toNat_pageSize : pageSize.toNat = 4096 := rfl

/-! ## Alignments -/

theorem Word.isPowerOfTwo_iff (w : Word) : w.isPowerOfTwo = true ↔ w.toNat.isPowerOfTwo := by
  rw [isPowerOfTwo, Bool.and_eq_true, bne_iff_ne, beq_iff_eq, ne_eq, ← UInt64.toNat_inj,
    ← UInt64.toNat_inj, ← Nat.ne_zero_and_sub_one_eq_zero_iff_isPowerOfTwo]
  apply and_congr_right
  intro hsome
  have hone : (1 : Word).toNat ≤ w.toNat := Nat.pos_of_ne_zero hsome
  rw [UInt64.toNat_and, Word.toNat_sub hone]
  rfl

theorem Word.exists_lowBits {align : Word} (hpower : align.isPowerOfTwo = true) :
    ∃ k < 64, align.toNat = 2 ^ k ∧ align - 1 = UInt64.ofNat (2 ^ k - 1) := by
  obtain ⟨k, hk⟩ := align.isPowerOfTwo_iff.mp hpower
  have hlt : 2 ^ k < 2 ^ 64 := hk ▸ align.toNat_lt
  have hone : (1 : Word).toNat ≤ align.toNat := hk ▸ Nat.one_le_two_pow
  refine ⟨k, (Nat.pow_lt_pow_iff_right (by decide)).mp hlt, hk, ?_⟩
  apply UInt64.toNat_inj.mp
  rw [Word.toNat_sub hone, hk, UInt64.toNat_ofNat_of_lt']
  · rfl
  · simp only [UInt64.size]
    omega

section Alignment

variable (w : Word) {align : Word} (hpower : align.isPowerOfTwo = true)

include hpower

theorem Word.isMultipleOf_iff : w.isMultipleOf align = true ↔ w.toNat % align.toNat = 0 := by
  obtain ⟨k, hk, halign, hmask⟩ := Word.exists_lowBits hpower
  rw [Word.isMultipleOf, beq_iff_eq, ← UInt64.toNat_inj, hmask, toNat_and_lowBits w hk, halign]
  rfl

theorem Word.toNat_and_not_sub_one :
    (w &&& ~~~(align - 1)).toNat = w.toNat / align.toNat * align.toNat := by
  obtain ⟨k, _, halign, hmask⟩ := Word.exists_lowBits hpower
  rw [hmask, toNat_and_not_lowBits, halign]

theorem Word.alignDown_eq :
    Word.alignDown w align = .ok (UInt64.ofNat (w.toNat / align.toNat * align.toNat)) := by
  rw [Word.alignDown, if_pos hpower, ← Word.toNat_and_not_sub_one w hpower, UInt64.ofNat_toNat]

/-- Rounding up succeeds unless the alignment added to the word leaves it. -/
theorem Word.alignUp_eq :
    Word.alignUp w align =
      if w.toNat + align.toNat < 2 ^ 64 then
        .ok (UInt64.ofNat (w.toNat ⌈/⌉ align.toNat * align.toNat))
      else .error .addOverflow := by
  rw [Word.alignUp, if_pos hpower]
  split
  next hfits =>
    have hsum : (w + align).toNat = w.toNat + align.toNat := Word.toNat_add hfits
    have hpos : 0 < align.toNat := Nat.pos_of_isPowerOfTwo (align.isPowerOfTwo_iff.mp hpower)
    have hpred : (w + align - 1).toNat = w.toNat + align.toNat - 1 := by
      rw [Word.toNat_sub, hsum]
      · rfl
      · exact hsum ▸ Nat.le_add_left_of_le hpos
    rw [Word.add_eq_ok hfits, Nat.ceilDiv_eq_add_pred_div, ← hpred,
      ← Word.toNat_and_not_sub_one _ hpower, UInt64.ofNat_toNat]
    rfl
  next hover =>
    rw [Word.add_eq_error (Nat.not_lt.mp hover)]
    rfl

end Alignment

theorem Word.isMultipleOf_pageSize (w : Word) :
    w.isMultipleOf pageSize = true ↔ w.toNat % 4096 = 0 :=
  w.isMultipleOf_iff (show pageSize.isPowerOfTwo = true by decide)

theorem Word.isMultipleOf_eight (w : Word) :
    w.isMultipleOf 8 = true ↔ w.toNat % 8 = 0 :=
  w.isMultipleOf_iff (show Word.isPowerOfTwo 8 = true by decide)

theorem Word.alignUp_pageSize (w : Word) :
    Word.alignUp w pageSize =
      if w.toNat + 4096 < 2 ^ 64 then .ok (UInt64.ofNat ((w.toNat + 4095) / 4096 * 4096))
      else .error .addOverflow :=
  w.alignUp_eq (show pageSize.isPowerOfTwo = true by decide)

theorem Word.pageCount_eq (w : Word) :
    Word.pageCount w =
      if w.toNat + 4096 < 2 ^ 64 then .ok (UInt64.ofNat ((w.toNat + 4095) / 4096))
      else .error .addOverflow := by
  rw [Word.pageCount, Word.alignUp_pageSize]
  by_cases hfits : w.toNat + 4096 < 2 ^ 64
  · rw [if_pos hfits, if_pos hfits]
    apply congrArg Except.ok
    apply UInt64.toNat_inj.mp
    rw [UInt64.toNat_div, UInt64.toNat_ofNat_of_lt' (by simp only [UInt64.size]; omega),
      UInt64.toNat_ofNat_of_lt' (by simp only [UInt64.size]; omega), toNat_pageSize]
    omega
  · rw [if_neg hfits, if_neg hfits]
    rfl

theorem Word.toNat_pageCount {w count : Word} (hcount : Word.pageCount w = .ok count) :
    count.toNat = (w.toNat + 4095) / 4096 := by
  rw [Word.pageCount_eq] at hcount
  split at hcount
  next hfits =>
    rw [← Except.ok.inj hcount, UInt64.toNat_ofNat_of_lt' (by simp only [UInt64.size]; omega)]
  next => cases hcount

/-! ## Pages and frames -/

theorem Word.toNat_pageFloor (w : Word) : w.pageFloor.toNat = w.toNat / 4096 * 4096 :=
  toNat_and_not_lowBits w 12

namespace Addr

variable {kind : AddrKind}

def page (a : Addr kind) : Nat :=
  a.word.toNat / 4096

theorem page_lt (a : Addr kind) : a.page < 2 ^ 52 := by
  have hlt := a.word.toNat_lt
  unfold page
  omega

@[simp] theorem toNat_pageFloor (a : Addr kind) :
    a.pageFloor.word.toNat = a.page * 4096 :=
  Word.toNat_pageFloor a.word

@[simp] theorem page_pageFloor (a : Addr kind) : a.pageFloor.page = a.page := by
  rw [page, toNat_pageFloor]
  omega

@[simp] theorem toNat_pageOffset (a : Addr kind) :
    a.pageOffset.toNat = a.word.toNat % 4096 :=
  toNat_and_lowBits a.word (k := 12) (by decide)

theorem startsPage_iff (a : Addr kind) :
    a.startsPage = true ↔ a.word.toNat % 4096 = 0 :=
  Word.isMultipleOf_pageSize a.word

theorem startsPage_pageFloor (a : Addr kind) : a.pageFloor.startsPage = true := by
  rw [startsPage_iff, toNat_pageFloor]
  omega

theorem eq_pageFloor {start a : Addr kind} (hstart : start.startsPage = true)
    (hpage : start.page = a.page) : start = a.pageFloor := by
  have haligned := (startsPage_iff start).mp hstart
  have hfloor := a.toNat_pageFloor
  unfold page at hpage hfloor
  have hword : start.word = a.pageFloor.word := by
    apply UInt64.toNat_inj.mp
    omega
  cases start
  exact congrArg Addr.mk hword

end Addr

@[simp] theorem Frame.toNat_containing (a : PhysAddr) :
    (Frame.containing a).index.toNat = a.page := by
  rw [Frame.containing, UInt64.toNat_shiftRight]
  exact Nat.shiftRight_eq_div_pow _ _

def frameBase (f : Nat) : PhysAddr :=
  ⟨UInt64.ofNat (f * 4096)⟩

theorem aligned_frameBase (f : Nat) : (frameBase f).word.toNat % 8 = 0 := by
  rw [frameBase, UInt64.toNat_ofNat']
  omega

theorem toNat_frameBase {f : Nat} (hf : f < 2 ^ 52) :
    (frameBase f).word.toNat = f * 4096 := by
  rw [frameBase, UInt64.toNat_ofNat_of_lt']
  simp only [UInt64.size]
  omega

theorem page_frameBase {f : Nat} (hf : f < 2 ^ 52) : (frameBase f).page = f := by
  rw [Addr.page, toNat_frameBase hf]
  omega

theorem frameBase_injOn {f g : Nat} (hf : f < 2 ^ 52) (hg : g < 2 ^ 52)
    (hsame : frameBase f = frameBase g) : f = g := by
  rw [← page_frameBase hf, hsame, page_frameBase hg]

theorem startsPage_frameBase {f : Nat} (hf : f < 2 ^ 52) :
    (frameBase f).startsPage = true := by
  rw [Addr.startsPage_iff, toNat_frameBase hf]
  omega

theorem frameBase_page {a : PhysAddr} (ha : a.word.toNat % 4096 = 0) :
    frameBase a.page = a := by
  have hword : (frameBase a.page).word = a.word := by
    apply UInt64.toNat_inj.mp
    rw [toNat_frameBase a.page_lt, Addr.page]
    omega
  cases a
  exact congrArg Addr.mk hword

theorem Frame.start_eq_frameBase (n : Frame) : n.start = frameBase n.index.toNat := by
  apply congrArg Addr.mk
  apply UInt64.toNat_inj.mp
  rw [UInt64.toNat_shiftLeft, UInt64.toNat_ofNat', Nat.shiftLeft_eq]
  rfl

/-! ## Digits of a page number -/

/-- The index at a level of the tables is a digit of the page number in base 512. -/
theorem Addr.tableIndex_eq (virt : VirtAddr) {level : Nat} (hlow : 1 ≤ level)
    (hhigh : level ≤ 5) : virt.tableIndex level = virt.page / 512 ^ (level - 1) % 512 := by
  have hshift : 12 + (level - 1) * indexBits < 64 := by
    simp only [indexBits]
    omega
  have hpow : 2 ^ (12 + (level - 1) * indexBits) = 4096 * 512 ^ (level - 1) := by
    rw [indexBits, Nat.pow_add, Nat.mul_comm (level - 1), Nat.pow_mul]
  have hlowBits := toNat_and_lowBits
    (virt.word >>> UInt64.ofNat (12 + (level - 1) * indexBits)) (k := 9) (by decide)
  have hmod : (UInt64.ofNat (12 + (level - 1) * indexBits)).toNat % 64 =
      12 + (level - 1) * indexBits := by
    rw [UInt64.toNat_ofNat_of_lt' (by simp only [UInt64.size]; omega)]
    exact Nat.mod_eq_of_lt hshift
  rw [UInt64.toNat_shiftRight, hmod, Nat.shiftRight_eq_div_pow, hpow,
    ← Nat.div_div_eq_div_mul] at hlowBits
  exact hlowBits

theorem Addr.tableIndex_lt (virt : VirtAddr) (level : Nat) : virt.tableIndex level < 512 := by
  have hlowBits := toNat_and_lowBits
    (virt.word >>> UInt64.ofNat (12 + (level - 1) * indexBits)) (k := 9) (by decide)
  exact hlowBits.trans_lt (Nat.mod_lt _ (by decide))

theorem mod_pow_eq_iff_digits_eq {b : Nat} (hb : 0 < b) (m n k : Nat) :
    m % b ^ k = n % b ^ k ↔ ∀ i < k, m / b ^ i % b = n / b ^ i % b := by
  induction k with
  | zero => simp [Nat.mod_one]
  | succ k ih =>
      have hpos : 0 < b ^ k := Nat.pow_pos hb
      rw [Nat.pow_succ, Nat.mod_mul, Nat.mod_mul]
      constructor
      · intro heq
        have hlow : m % b ^ k = n % b ^ k := by
          have hmod := congrArg (· % b ^ k) heq
          simpa [Nat.add_mul_mod_self_left, Nat.mod_mod] using hmod
        have hdigit : m / b ^ k % b = n / b ^ k % b := by
          rw [hlow] at heq
          exact Nat.eq_of_mul_eq_mul_left hpos (Nat.add_left_cancel heq)
        intro i hi
        rcases Nat.lt_succ_iff_lt_or_eq.mp hi with hlt | rfl
        · exact ih.mp hlow i hlt
        · exact hdigit
      · intro hdigits
        rw [ih.mpr (fun i hi => hdigits i (Nat.lt_succ_of_lt hi)), hdigits k (Nat.lt_succ_self k)]

/-- The indices above a level are digits of one number. -/
theorem Addr.tableIndex_eq_above_iff {top below : Nat} (htop : top ≤ 5) (hbelow : below ≤ top)
    (a b : VirtAddr) :
    (∀ level, below < level → level ≤ top → a.tableIndex level = b.tableIndex level) ↔
      a.page / 512 ^ below % 512 ^ (top - below) = b.page / 512 ^ below % 512 ^ (top - below) := by
  have hdigit : ∀ (virt : VirtAddr) i, i < top - below →
      virt.page / 512 ^ below / 512 ^ i % 512 = virt.tableIndex (below + i + 1) := by
    intro virt i hi
    rw [tableIndex_eq virt (by omega) (by omega), Nat.add_sub_cancel, Nat.div_div_eq_div_mul,
      Nat.pow_add]
  rw [mod_pow_eq_iff_digits_eq (by decide)]
  constructor
  · intro hindices i hi
    rw [hdigit a i hi, hdigit b i hi]
    exact hindices _ (by omega) (by omega)
  · intro hdigits level hlow hhigh
    have hi : level - below - 1 < top - below := by
      omega
    have hplace : below + (level - below - 1) + 1 = level := by
      omega
    have hlevel := hdigits _ hi
    rwa [hdigit a _ hi, hdigit b _ hi, hplace] at hlevel

end BootMemory
