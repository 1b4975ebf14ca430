import BootMemory.Proofs.Entries

/-!
# Entries and their parts

Flags come from the named ones, from rights and from the flag bits of a word, and are joined, set and
cleared.  None of that gives them a bit of an address.  So an entry made of any address and any such
flags is taken apart into the same flags and the address bits, and what an entry is taken apart into
makes the same entry again, whatever its bits are.
-/

namespace BootMemory

theorem testBit_and_frameMask (w : Word) (i : Nat) :
    (w &&& frameMask).toNat.testBit i = (decide (12 ≤ i ∧ i ≤ 51) && w.toNat.testBit i) := by
  have hmask : (w &&& frameMask).toNat = w.toNat % 2 ^ 52 / 2 ^ 12 * 2 ^ 12 :=
    toNat_and_frameMask w
  rw [hmask, Nat.testBit_mul_two_pow, Nat.testBit_div_two_pow, Nat.testBit_mod_two_pow]
  by_cases hlow : 12 ≤ i
  · have hplace : i - 12 + 12 = i := by
      omega
    have hhigh : i < 52 ↔ i ≤ 51 := by
      omega
    simp [hlow, hplace, hhigh]
  · simp [hlow]

namespace EntryFlags

/-- The flags that the operations on flags can make. -/
inductive Formed : EntryFlags → Prop
  | constant {flags : EntryFlags}
      (hflags : flags ∈ [empty, present, writable, user, largePage, executeDisabled, node]) :
      Formed flags
  | ofBits (bits : Word) : Formed (.ofBits bits)
  | ofRights (rights : AccessRights) : Formed (.ofRights rights)
  | ofEntry (e : TableEntry) : Formed e.flags
  | union {a b : EntryFlags} (ha : Formed a) (hb : Formed b) : Formed (a.union b)
  | set {a b : EntryFlags} (ha : Formed a) (hb : Formed b) (on : Bool) : Formed (a.set b on)

theorem avoidsFrame_ofBits (bits : Word) : (ofBits bits).AvoidsFrame := by
  have hnone : ~~~frameMask &&& frameMask = 0 := by
    decide
  change bits &&& ~~~frameMask &&& frameMask = 0
  rw [UInt64.and_assoc, hnone, UInt64.and_zero]

theorem AvoidsFrame.union {a b : EntryFlags} (ha : a.AvoidsFrame) (hb : b.AvoidsFrame) :
    (a.union b).AvoidsFrame := by
  change (a.bits ||| b.bits) &&& frameMask = 0
  rw [Word.or_and_distrib, show a.bits &&& frameMask = 0 from ha,
    show b.bits &&& frameMask = 0 from hb, UInt64.or_zero]

theorem AvoidsFrame.without {a : EntryFlags} (ha : a.AvoidsFrame) (b : EntryFlags) :
    (a.without b).AvoidsFrame := by
  change a.bits &&& ~~~b.bits &&& frameMask = 0
  rw [UInt64.and_assoc, UInt64.and_comm (~~~b.bits), ← UInt64.and_assoc,
    show a.bits &&& frameMask = 0 from ha, UInt64.zero_and]

theorem Formed.avoidsFrame {flags : EntryFlags} (hformed : flags.Formed) : flags.AvoidsFrame := by
  induction hformed with
  | @constant flags hflags =>
      have hall : ∀ flag ∈ [empty, present, writable, user, largePage, executeDisabled, node],
          flag.bits &&& frameMask = 0 := by
        decide
      exact hall flags hflags
  | ofBits bits => exact avoidsFrame_ofBits bits
  | ofRights rights => exact ofRights_avoidsFrame rights
  | ofEntry e => exact avoidsFrame_ofBits e.bits
  | union _ _ ha hb => exact ha.union hb
  | set _ _ on ha hb =>
      cases on with
      | true => exact ha.union hb
      | false => exact ha.without _

theorem AvoidsFrame.testBit_eq_false {flags : EntryFlags} (hflags : flags.AvoidsFrame) {i : Nat}
    (hlow : 12 ≤ i) (hhigh : i ≤ 51) : flags.bits.toNat.testBit i = false := by
  have hbit := testBit_and_frameMask flags.bits i
  rw [show flags.bits &&& frameMask = 0 from hflags] at hbit
  simpa [hlow, hhigh] using hbit.symm

end EntryFlags

namespace TableEntry

theorem make_address_flags (e : TableEntry) : make e.address e.flags = e := by
  apply congrArg TableEntry.mk
  change e.bits &&& frameMask &&& frameMask ||| e.bits &&& ~~~frameMask = e.bits
  rw [UInt64.and_assoc, UInt64.and_self, Word.and_or_and_not]

/-- Flags that can be made have no bit of an address.  With any address they make an entry that has
these flags, the address bits 12 to 51 and no other, and is present if the flags say so.  Every word
is the entry made of its own address and flags. -/
theorem entries_decode_both_ways {flags : EntryFlags} (hformed : flags.Formed) (addr : PhysAddr)
    (bits : Word) :
    (∀ i, 12 ≤ i → i ≤ 51 → flags.bits.toNat.testBit i = false) ∧
      (make addr flags).flags = flags ∧
      (∀ i, (make addr flags).address.word.toNat.testBit i =
        (decide (12 ≤ i ∧ i ≤ 51) && addr.word.toNat.testBit i)) ∧
      (make addr flags).isPresent = flags.contains .present ∧
      (make (TableEntry.address ⟨bits⟩) (TableEntry.flags ⟨bits⟩)).bits = bits := by
  have hflags := hformed.avoidsFrame
  refine ⟨fun i => hflags.testBit_eq_false, flags_make hflags, ?_, ?_, ?_⟩
  · intro i
    rw [address_make hflags, testBit_and_frameMask]
  · rw [isPresent_eq_contains, flags_make hflags]
  · rw [make_address_flags]

/-- The flags of a large page that user mode was allowed to write and then was not. -/
def sealedPage : EntryFlags :=
  ((EntryFlags.ofRights (.union .write .user)).union .largePage).set .writable false

/-- An address, and a word, with all bits set that are no bits of the other part. -/
theorem entries_decode_both_ways_sealedPage :
    sealedPage.Formed ∧ (make ⟨0xFFF0000000201FFF⟩ sealedPage).flags = sealedPage ∧
      (make ⟨0xFFF0000000201FFF⟩ sealedPage).isPresent = true ∧
      (make (TableEntry.address ⟨0xFFF0000000201FFF⟩)
        (TableEntry.flags ⟨0xFFF0000000201FFF⟩)).bits = 0xFFF0000000201FFF := by
  have hwritable : EntryFlags.writable.Formed := .constant (by decide)
  have hlarge : EntryFlags.largePage.Formed := .constant (by decide)
  have hformed : sealedPage.Formed :=
    ((EntryFlags.Formed.ofRights (.union .write .user)).union hlarge).set hwritable false
  have hcontains : sealedPage.contains .present = true := by
    decide
  obtain ⟨_, hflags, _, hpresent, hbits⟩ :=
    entries_decode_both_ways hformed ⟨0xFFF0000000201FFF⟩ 0xFFF0000000201FFF
  exact ⟨hformed, hflags, hpresent.trans hcontains, hbits⟩

end TableEntry

end BootMemory
