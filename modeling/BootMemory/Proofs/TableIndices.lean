import BootMemory.Proofs.Images

/-!
# Addresses cut into indices

An address is a page offset of twelve bits with a nine-bit index for each level above it, so the
levels together give back all bits that paging looks at, and none twice.  Addresses that take the
same entries from some level up agree on the bits of these levels and may differ below.  The slot of
an index lies in the table's own frame, and different indices have different slots.
-/

namespace BootMemory

namespace Addr

section Digits

variable (virt : VirtAddr) {level : Nat}

theorem tableIndex_eq_div_mod (hlow : 1 ≤ level) (hhigh : level ≤ 5) :
    virt.tableIndex level = virt.word.toNat / 2 ^ (12 + 9 * (level - 1)) % 2 ^ 9 := by
  have hpower : 2 ^ (12 + 9 * (level - 1)) = 4096 * 512 ^ (level - 1) := by
    rw [Nat.pow_add, Nat.pow_mul]
  rw [tableIndex_eq virt hlow hhigh, page, hpower, ← Nat.div_div_eq_div_mul]
  rfl

/-- Bit `i` of the index at a level is the bit of the address that is `i` above the lowest bit of
the level. -/
theorem testBit_tableIndex (hlow : 1 ≤ level) (hhigh : level ≤ 5) (i : Nat) :
    (virt.tableIndex level).testBit i =
      (decide (i < 9) && virt.word.toNat.testBit (12 + 9 * (level - 1) + i)) := by
  rw [tableIndex_eq_div_mod virt hlow hhigh, Nat.testBit_mod_two_pow, Nat.testBit_div_two_pow,
    Nat.add_comm i]

theorem mod_two_pow_succ (hhigh : level < 5) :
    virt.word.toNat % 2 ^ (12 + 9 * (level + 1)) =
      virt.word.toNat % 2 ^ (12 + 9 * level) +
        virt.tableIndex (level + 1) * 2 ^ (12 + 9 * level) := by
  have hpower : 2 ^ (12 + 9 * (level + 1)) = 2 ^ (12 + 9 * level) * 2 ^ 9 := by
    rw [← Nat.pow_add]
    rfl
  rw [hpower, Nat.mod_mul, tableIndex_eq_div_mod virt (Nat.le_add_left 1 level) hhigh,
    Nat.add_sub_cancel, Nat.mul_comm (2 ^ (12 + 9 * level))]

theorem mod_two_pow_eq_sum {top : Nat} (htop : top ≤ 5) :
    virt.word.toNat % 2 ^ (12 + 9 * top) =
      virt.pageOffset.toNat +
        ∑ level ∈ Finset.Icc 1 top, virt.tableIndex level * 2 ^ (12 + 9 * (level - 1)) := by
  induction top with
  | zero => simp
  | succ top ih =>
      rw [mod_two_pow_succ virt htop, ih (Nat.le_of_succ_le htop),
        Finset.sum_Icc_succ_top (Nat.le_add_left 1 top), Nat.add_sub_cancel, Nat.add_assoc]

end Digits

/-- Each bit from `12 + 9 * below` on belongs to one of the levels above `below`. -/
theorem tableIndex_eq_above_iff_testBit {top : Nat} (htop : top ≤ 5) (below : Nat) (a b : VirtAddr) :
    (∀ level, below < level → level ≤ top → a.tableIndex level = b.tableIndex level) ↔
      ∀ i, 12 + 9 * below ≤ i → i < 12 + 9 * top →
        a.word.toNat.testBit i = b.word.toNat.testBit i := by
  constructor
  · intro hindices i hlow hhigh
    -- the level that bit `i` belongs to, and then the place of the bit in its index
    have hlevel : a.tableIndex ((i - 12) / 9 + 1) = b.tableIndex ((i - 12) / 9 + 1) :=
      hindices _ (by omega) (by omega)
    have hbit := congrArg (Nat.testBit · ((i - 12) % 9)) hlevel
    have hplace : 12 + 9 * ((i - 12) / 9) + (i - 12) % 9 = i := by
      omega
    have hlt : (i - 12) % 9 < 9 := Nat.mod_lt _ (by decide)
    simpa [testBit_tableIndex _ (Nat.le_add_left 1 _) (show (i - 12) / 9 + 1 ≤ 5 by omega), hplace,
      hlt] using hbit
  · intro hbits level hlow hhigh
    apply Nat.eq_of_testBit_eq
    intro i
    rw [testBit_tableIndex a (by omega) (by omega), testBit_tableIndex b (by omega) (by omega)]
    by_cases hi : i < 9
    · rw [hbits _ (by omega) (by omega)]
    · simp [hi]

theorem pageFloor_eq_of_tableIndex_eq {a b : VirtAddr} (ha : a.isCanonical = true)
    (hb : b.isCanonical = true)
    (hindices : ∀ level, 1 ≤ level → level ≤ 4 → a.tableIndex level = b.tableIndex level) :
    a.pageFloor = b.pageFloor := by
  have hkey : a.pageKey 4 = b.pageKey 4 := by
    simpa [pageKey] using (tableIndex_eq_above_iff (by decide) (Nat.zero_le 4) a b).mp hindices
  have hpage : a.page = b.page :=
    page_eq_of_pageKey_eq (.inl rfl) (a.isCanonical_iff.mp ha) (b.isCanonical_iff.mp hb) hkey
  exact eq_pageFloor a.startsPage_pageFloor (by rw [page_pageFloor, hpage])

end Addr

/-- A slot is one whole word of the table's frame, and no other index has it. -/
structure Machine.SlotOf (table entry : PhysAddr) (index : Nat) : Prop where
  aligned : 8 ∣ entry.word.toNat
  first : table.word.toNat ≤ entry.word.toNat
  last : entry.word.toNat + 8 ≤ table.word.toNat + 4096
  only : ∀ other < entryCount, slot table other = .ok entry → other = index

theorem Machine.exists_slot {table : PhysAddr} (htable : table.startsPage = true) {index : Nat}
    (hindex : index < entryCount) :
    ∃ entry, slot table index = .ok entry ∧
      entry.word.toNat = table.word.toNat + index * 8 := by
  have haligned := table.startsPage_iff.mp htable
  have hlt := table.word.toNat_lt
  have hcount : index < 512 := hindex
  refine ⟨_, slot_of_startsPage htable hindex, UInt64.toNat_ofNat_of_lt' ?_⟩
  simp only [UInt64.size]
  omega

theorem Machine.exists_slotOf {table : PhysAddr} (htable : table.startsPage = true) {index : Nat}
    (hindex : index < entryCount) :
    ∃ entry, slot table index = .ok entry ∧ SlotOf table entry index := by
  have haligned := table.startsPage_iff.mp htable
  have hcount : index < 512 := hindex
  obtain ⟨entry, hentry, hvalue⟩ := exists_slot htable hindex
  refine ⟨entry, hentry, by omega, by omega, by omega, ?_⟩
  intro other hother hsame
  obtain ⟨same, hslot, hsum⟩ := exists_slot htable hother
  obtain rfl := Except.ok.inj (hsame.symm.trans hslot)
  omega

/-- With four or five levels, the page offset and the indices add up to the part of an address that
paging looks at, and the indices above a level are the bits above it.  Canonical addresses with the
same four indices lie in one page.  In a table, every index has an aligned slot of its own. -/
theorem tableIndices_decompose_addresses (depth : PagingDepth) (virt other : VirtAddr) :
    virt.word.toNat % 2 ^ (12 + 9 * depth.top) =
        virt.pageOffset.toNat +
          ∑ level ∈ Finset.Icc 1 depth.top, virt.tableIndex level * 2 ^ (12 + 9 * (level - 1)) ∧
      (∀ below, (∀ level, below < level → level ≤ depth.top →
          virt.tableIndex level = other.tableIndex level) ↔
        ∀ i, 12 + 9 * below ≤ i → i < 12 + 9 * depth.top →
          virt.word.toNat.testBit i = other.word.toNat.testBit i) ∧
      (virt.isCanonical = true → other.isCanonical = true →
        (∀ level, 1 ≤ level → level ≤ 4 → virt.tableIndex level = other.tableIndex level) →
        virt.pageFloor = other.pageFloor) ∧
      ∀ table : PhysAddr, table.startsPage = true → ∀ level, 1 ≤ level → level ≤ depth.top →
        ∃ entry, Machine.slot table (virt.tableIndex level) = .ok entry ∧
          Machine.SlotOf table entry (virt.tableIndex level) := by
  have htop : depth.top ≤ 5 := by
    cases depth <;> decide
  refine ⟨virt.mod_two_pow_eq_sum htop, ?_, Addr.pageFloor_eq_of_tableIndex_eq, ?_⟩
  · exact fun below => Addr.tableIndex_eq_above_iff_testBit htop below virt other
  · exact fun table htable level _ _ => Machine.exists_slotOf htable (virt.tableIndex_lt level)

/-- Two addresses of one page in the upper half, and the last table but one. -/
theorem tableIndices_decompose_addresses_upperHalf :
    Addr.isCanonical ⟨0xFFFFFF8040201123⟩ = true ∧ Addr.isCanonical ⟨0xFFFFFF8040201FFF⟩ = true ∧
      (∀ level, 1 ≤ level → level ≤ 4 →
        Addr.tableIndex ⟨0xFFFFFF8040201123⟩ level = Addr.tableIndex ⟨0xFFFFFF8040201FFF⟩ level) ∧
      (⟨0xFFFFFF8040201123⟩ : VirtAddr).pageFloor = Addr.pageFloor ⟨0xFFFFFF8040201FFF⟩ ∧
      (⟨0xFFFFFFFFFFFFE000⟩ : PhysAddr).startsPage = true ∧
      ∃ entry, Machine.slot ⟨0xFFFFFFFFFFFFE000⟩ (Addr.tableIndex ⟨0xFFFFFF8040201123⟩ 4) =
          .ok entry ∧
        Machine.SlotOf ⟨0xFFFFFFFFFFFFE000⟩ entry (Addr.tableIndex ⟨0xFFFFFF8040201123⟩ 4) := by
  have hlow : Addr.isCanonical ⟨0xFFFFFF8040201123⟩ = true := by
    decide
  have hhigh : Addr.isCanonical ⟨0xFFFFFF8040201FFF⟩ = true := by
    decide
  have htable : (⟨0xFFFFFFFFFFFFE000⟩ : PhysAddr).startsPage = true := by
    decide
  have hindices : ∀ level, 1 ≤ level → level ≤ 4 →
      Addr.tableIndex ⟨0xFFFFFF8040201123⟩ level =
        Addr.tableIndex ⟨0xFFFFFF8040201FFF⟩ level := by
    intro level hfirst hlast
    interval_cases level <;> rfl
  obtain ⟨_, _, hpage, hslot⟩ := tableIndices_decompose_addresses .four
    ⟨0xFFFFFF8040201123⟩ ⟨0xFFFFFF8040201FFF⟩
  exact ⟨hlow, hhigh, hindices, hpage hlow hhigh hindices, htable,
    hslot _ htable 4 (by decide) (by decide)⟩

end BootMemory
