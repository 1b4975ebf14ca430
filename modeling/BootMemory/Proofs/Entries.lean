import BootMemory.Paging.Entry
import BootMemory.Proofs.Numbers

/-!
# Reading back table entries

An entry is made of address bits and flag bits that do not meet, so both are read back as they
were put in.  The entries that the memory system writes are present; those that lead to tables
never map a large page.
-/

namespace BootMemory

theorem toNat_and_frameMask (w : Word) :
    (w &&& frameMask).toNat = w.toNat % 2 ^ 52 / 4096 * 4096 := by
  have hsplit : frameMask = UInt64.ofNat (2 ^ 52 - 1) &&& ~~~(UInt64.ofNat (2 ^ 12 - 1)) := by
    decide
  rw [hsplit, ← UInt64.and_assoc, toNat_and_not_lowBits, toNat_and_lowBits w (by decide)]
  rfl

theorem Word.or_and_distrib (a b c : Word) : (a ||| b) &&& c = (a &&& c) ||| (b &&& c) :=
  UInt64.eq_of_toBitVec_eq BitVec.and_or_distrib_right

/-- What a mask keeps and what it drops are the whole word. -/
theorem Word.and_or_and_not (w mask : Word) : w &&& mask ||| w &&& ~~~mask = w := by
  rw [UInt64.and_comm w, UInt64.and_comm w, ← Word.or_and_distrib]
  simp

namespace EntryFlags

/-- Flags that keep clear of the bits of an address. -/
def AvoidsFrame (flags : EntryFlags) : Prop :=
  flags.bits &&& frameMask = 0

theorem AvoidsFrame.and_not_frameMask {flags : EntryFlags} (hflags : flags.AvoidsFrame) :
    flags.bits &&& ~~~frameMask = flags.bits := by
  have hsplit := Word.and_or_and_not flags.bits frameMask
  rwa [show flags.bits &&& frameMask = 0 from hflags, UInt64.zero_or] at hsplit

theorem node_avoidsFrame : node.AvoidsFrame := by
  unfold AvoidsFrame
  decide

theorem ofRights_eq (rights : AccessRights) :
    ofRights rights =
      ⟨0x1 ||| (if rights.contains .write then 0x2 else 0) |||
        (if rights.contains .execute then 0 else 0x8000000000000000) |||
        (if rights.contains .user then 0x4 else 0)⟩ := by
  unfold ofRights
  cases rights.contains .write <;> cases rights.contains .execute <;>
    cases rights.contains .user <;> rfl

theorem ofRights_avoidsFrame (rights : AccessRights) : (ofRights rights).AvoidsFrame := by
  rw [ofRights_eq, AvoidsFrame]
  cases rights.contains .write <;> cases rights.contains .execute <;>
    cases rights.contains .user <;> decide

theorem ofRights_contains_present (rights : AccessRights) :
    (ofRights rights).contains present = true := by
  rw [ofRights_eq]
  cases rights.contains .write <;> cases rights.contains .execute <;>
    cases rights.contains .user <;> decide

end EntryFlags

namespace TableEntry

def frame (e : TableEntry) : Nat :=
  e.address.page

theorem frame_lt (e : TableEntry) : e.frame < 2 ^ 40 := by
  have haddress : e.address.word.toNat = e.bits.toNat % 2 ^ 52 / 4096 * 4096 :=
    toNat_and_frameMask e.bits
  rw [frame, Addr.page, haddress]
  omega

theorem address_eq_frameBase (e : TableEntry) : e.address = frameBase e.frame := by
  have haddress : e.address.word.toNat = e.bits.toNat % 2 ^ 52 / 4096 * 4096 :=
    toNat_and_frameMask e.bits
  exact (frameBase_page (by rw [haddress]; omega)).symm

theorem isPresent_eq_contains (e : TableEntry) : e.isPresent = e.flags.contains .present := by
  have hpresent : (~~~frameMask) &&& EntryFlags.present.bits = EntryFlags.present.bits := by
    decide
  have hbit : (e.bits &&& EntryFlags.present.bits).toNat = e.bits.toNat % 2 :=
    toNat_and_lowBits e.bits (k := 1) (by decide)
  have hone : EntryFlags.present.bits.toNat = 1 := rfl
  have hzero : (0 : Word).toNat = 0 := rfl
  rw [isPresent, flags, EntryFlags.contains, EntryFlags.ofBits, UInt64.and_assoc, hpresent,
    Bool.eq_iff_iff, bne_iff_ne, beq_iff_eq, ne_eq, ← UInt64.toNat_inj, ← UInt64.toNat_inj,
    hbit, hone, hzero]
  omega

section Make

variable {addr : PhysAddr} {flags : EntryFlags}

theorem address_make (hflags : flags.AvoidsFrame) :
    (make addr flags).address = ⟨addr.word &&& frameMask⟩ := by
  have hzero : flags.bits &&& frameMask = 0 := hflags
  apply congrArg Addr.mk
  change (addr.word &&& frameMask ||| flags.bits) &&& frameMask = addr.word &&& frameMask
  rw [Word.or_and_distrib, hzero, UInt64.or_zero, UInt64.and_assoc, UInt64.and_self]

theorem flags_make (hflags : flags.AvoidsFrame) : (make addr flags).flags = flags := by
  have hmask : frameMask &&& ~~~frameMask = 0 := by
    decide
  apply congrArg EntryFlags.mk
  change (addr.word &&& frameMask ||| flags.bits) &&& ~~~frameMask = flags.bits
  rw [Word.or_and_distrib, hflags.and_not_frameMask, UInt64.and_assoc, hmask, UInt64.and_zero,
    UInt64.zero_or]

theorem frame_make (hflags : flags.AvoidsFrame) {f : Nat} (hf : f < 2 ^ 40) :
    (make (frameBase f) flags).frame = f := by
  rw [frame, address_make hflags, Addr.page, toNat_and_frameMask,
    toNat_frameBase (lt_trans hf (by decide))]
  omega

theorem isPresent_make_node : (make addr .node).isPresent = true := by
  rw [isPresent_eq_contains, flags_make EntryFlags.node_avoidsFrame]
  decide

theorem isLargePage_make_node : (make addr .node).isLargePage = false := by
  rw [isLargePage, flags_make EntryFlags.node_avoidsFrame]
  decide

theorem isPresent_make_ofRights (rights : AccessRights) :
    (make addr (.ofRights rights)).isPresent = true := by
  rw [isPresent_eq_contains, flags_make (EntryFlags.ofRights_avoidsFrame rights)]
  exact EntryFlags.ofRights_contains_present rights

end Make

end TableEntry

end BootMemory
