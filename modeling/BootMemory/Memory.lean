import BootMemory.Address.Arithmetic
import BootMemory.Bytes

/-!
# Physical memory

A block of physical memory at a base address.  Every access names the address of its first byte;
an address outside the block is a fault, and so is an access that runs past its end.  Words are
little-endian and lie at multiples of their size.
-/

namespace BootMemory

structure Memory where
  base : PhysAddr
  bytes : ByteArray

namespace Memory

def empty : Memory := ⟨⟨0⟩, ByteArray.empty⟩

/-- Cleared memory of `length` bytes at `base`, both whole pages. -/
def create (base : PhysAddr) (length : Word) : Except Fault Memory :=
  if !base.startsPage then .error .unalignedMemoryBase
  else if length % pageSize ≠ 0 then .error .unalignedMemoryLength
  else .ok ⟨base, ⟨Array.replicate length.toNat 0⟩⟩

def size (m : Memory) : Nat :=
  m.bytes.size

def offset (m : Memory) (addr : PhysAddr) : Except Fault Nat :=
  if m.base.word ≤ addr.word ∧ addr.word.toNat - m.base.word.toNat < m.size then
    .ok (addr.word.toNat - m.base.word.toNat)
  else .error (.outsideMemory addr)

def wordOffset (m : Memory) (addr : PhysAddr) : Except Fault Nat :=
  if addr.word.isMultipleOf 8 then m.offset addr else .error .unalignedEntry

/-- Where `length` bytes from `addr` on are kept, for a write. -/
def spanOffset (m : Memory) (addr : PhysAddr) (length : Nat) : Except Fault Nat := do
  let i ← m.offset addr
  if m.size < i + length then .error .writePastEnd else return i

def wordAt (m : Memory) (i : Nat) : Word :=
  UInt64.ofNat (ofLittleEndian (Bytes.slice m.bytes i 8))

def readWord (m : Memory) (addr : PhysAddr) : Except Fault Word := do
  return m.wordAt (← m.wordOffset addr)

def overwrite (m : Memory) (i : Nat) (values : List UInt8) : Memory :=
  { m with bytes := Bytes.overwrite m.bytes i values }

def overwriteWord (m : Memory) (i : Nat) (value : Word) : Memory :=
  m.overwrite i (toLittleEndian 8 value.toNat)

@[simp] theorem size_overwrite (m : Memory) (i : Nat) (values : List UInt8) :
    (m.overwrite i values).size = m.size :=
  Bytes.size_overwrite m.bytes i values

theorem wordAt_overwriteWord (m : Memory) (i : Nat) (value : Word) (hfits : i + 8 ≤ m.size) :
    (m.overwriteWord i value).wordAt i = value := by
  have hbytes := Bytes.slice_overwrite m.bytes i (toLittleEndian 8 value.toNat)
    (by rwa [length_toLittleEndian])
  rw [length_toLittleEndian] at hbytes
  have hlt : value.toNat < 1 <<< (8 * 8) := value.toNat_lt
  rw [wordAt, overwriteWord, overwrite, hbytes, ofLittleEndian_toLittleEndian,
    Nat.mod_eq_of_lt hlt, UInt64.ofNat_toNat]

theorem wordAt_overwriteWord_of_disjoint (m : Memory) (i j : Nat) (value : Word)
    (hdisjoint : j + 8 ≤ i ∨ i + 8 ≤ j) :
    (m.overwriteWord i value).wordAt j = m.wordAt j := by
  rw [wordAt, overwriteWord, overwrite,
    Bytes.slice_overwrite_of_disjoint _ _ _ _ _ (by rwa [length_toLittleEndian]), wordAt]

def read (m : Memory) (addr : PhysAddr) (length : Word) : Except Fault ByteArray := do
  let i ← m.offset addr
  let past ← Word.add addr.word length
  let stop ← Word.add m.base.word (UInt64.ofNat m.size)
  if stop < past then .error .readPastEnd
  else return m.bytes.extract i (i + length.toNat)

/-- The words that are not zero among the `count` words from `addr` on, with their addresses;
`skipped` words lie before the first of them. -/
def nonzeroWordsFrom (m : Memory) (addr : PhysAddr) :
    (count skipped : Nat) → Except Fault (List (PhysAddr × Word))
  | 0, _ => return []
  | count + 1, skipped => do
      let place ← addr.add (UInt64.ofNat (8 * skipped))
      let value ← m.readWord place
      let rest ← nonzeroWordsFrom m addr count (skipped + 1)
      return if value = 0 then rest else (place, value) :: rest

def nonzeroWords (m : Memory) (addr : PhysAddr) (count : Word) :
    Except Fault (List (PhysAddr × Word)) :=
  nonzeroWordsFrom m addr count.toNat 0

/-- One step of the fingerprint: fold in a byte, then multiply. -/
def mixByte (hash : Word) (byte : UInt8) : Word :=
  (hash ^^^ byte.toUInt64) * 0x100000001b3

/-- The 64-bit FNV-1a fingerprint of all bytes, which are read as one block. -/
def fingerprint (m : Memory) : Except Fault Word := do
  let bytes ← m.read m.base (UInt64.ofNat m.size)
  return bytes.foldl mixByte 0xcbf29ce484222325

end Memory

end BootMemory
