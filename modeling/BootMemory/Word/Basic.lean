/-!
# Machine words

Addresses, lengths and counts of the machine are 64-bit words.  This module fixes the word type,
the page size, the written form of a word and its little-endian bytes.  The main statements say
that the bytes of a number determine it and are determined by it.
-/

namespace BootMemory

/-- A 64-bit machine word. -/
abbrev Word := UInt64

/-- Bytes in a page, and in a physical frame. -/
def pageSize : Word := 4096

/-- Base-two logarithm of the page size. -/
def pageShift : Word := 12

namespace Word

/-- Lower-case hexadecimal without leading zeros, after the mark `0x`. -/
def hex (w : Word) : String :=
  "0x" ++ String.ofList (Nat.toDigits 16 w.toNat)

/-- Whether exactly one bit is set. -/
def isPowerOfTwo (w : Word) : Bool :=
  w != 0 && w &&& (w - 1) == 0

/-- Whether `w` is a multiple of `align`, which is a power of two. -/
def isMultipleOf (w align : Word) : Bool :=
  w &&& (align - 1) == 0

/-- The start of the page that holds byte `w`. -/
def pageFloor (w : Word) : Word :=
  w &&& ~~~(pageSize - 1)

end Word

/-- The number whose base-256 digits, least significant first, are `bytes`. -/
def ofLittleEndian : List UInt8 → Nat
  | [] => 0
  | byte :: rest => byte.toNat + 256 * ofLittleEndian rest

/-- The `count` lowest base-256 digits of `value`, least significant first. -/
def toLittleEndian : (count value : Nat) → List UInt8
  | 0, _ => []
  | count + 1, value => UInt8.ofNat value :: toLittleEndian count (value / 256)

@[simp] theorem length_toLittleEndian (count value : Nat) :
    (toLittleEndian count value).length = count := by
  induction count generalizing value with
  | zero => rfl
  | succ count ih => simp [toLittleEndian, ih]

/-- Writing a number in `count` digits keeps exactly its lowest `8 * count` bits. -/
theorem ofLittleEndian_toLittleEndian (count value : Nat) :
    ofLittleEndian (toLittleEndian count value) = value % 1 <<< (8 * count) := by
  induction count generalizing value with
  | zero => simp [toLittleEndian, ofLittleEndian, Nat.mod_one]
  | succ count ih =>
      have hshift : 1 <<< (8 * (count + 1)) = 256 * 1 <<< (8 * count) := by
        rw [Nat.shiftLeft_eq, Nat.shiftLeft_eq, Nat.mul_succ, Nat.pow_add]
        omega
      rw [toLittleEndian, ofLittleEndian, ih, hshift, Nat.mod_mul]
      simp

/-- A list of digits is read back from the number it denotes. -/
theorem toLittleEndian_ofLittleEndian (bytes : List UInt8) :
    toLittleEndian bytes.length (ofLittleEndian bytes) = bytes := by
  induction bytes with
  | nil => rfl
  | cons byte rest ih =>
      have hbyte : byte.toNat < 256 := byte.toNat_lt
      have hquot : (byte.toNat + 256 * ofLittleEndian rest) / 256 = ofLittleEndian rest := by
        omega
      have hdigit : UInt8.ofNat (byte.toNat + 256 * ofLittleEndian rest) = byte := by
        apply UInt8.toNat_inj.mp
        simp
      rw [List.length_cons, ofLittleEndian, toLittleEndian, hquot, ih, hdigit]

end BootMemory
