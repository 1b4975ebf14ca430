/-!
# Text from any bytes

Bytes that are to be shown but need not be UTF-8 are decoded with replacement: each maximal piece
of an encoded character that is cut short, and each byte that starts no character, is shown as
the replacement character U+FFFD.
-/

namespace BootMemory.Text

/-- The character that stands for bytes that encode none. -/
def replacement : Char := '\ufffd'

/-- The start of an encoded character. -/
structure PartialChar where
  value : Nat
  missing : Nat
  low : UInt8
  high : UInt8

inductive LeadByte where
  | complete (c : Char)
  | partly (p : PartialChar)

/-- Reads the first byte of a character.  The bounds on the second byte leave out overlong forms,
surrogates and values beyond the last code point. -/
def leadByte (byte : UInt8) : LeadByte :=
  let value := byte.toNat
  if byte < 0x80 then .complete (Char.ofNat value)
  else if byte < 0xC2 then .complete replacement
  else if byte < 0xE0 then .partly ⟨value - 0xC0, 1, 0x80, 0xBF⟩
  else if byte = 0xE0 then .partly ⟨value - 0xE0, 2, 0xA0, 0xBF⟩
  else if byte = 0xED then .partly ⟨value - 0xE0, 2, 0x80, 0x9F⟩
  else if byte < 0xF0 then .partly ⟨value - 0xE0, 2, 0x80, 0xBF⟩
  else if byte = 0xF0 then .partly ⟨value - 0xF0, 3, 0x90, 0xBF⟩
  else if byte < 0xF4 then .partly ⟨value - 0xF0, 3, 0x80, 0xBF⟩
  else if byte = 0xF4 then .partly ⟨value - 0xF0, 3, 0x80, 0x8F⟩
  else .complete replacement

/-- Decodes with the start of a character pending, if there is one. -/
def decodeFrom : Option PartialChar → List UInt8 → List Char
  | none, [] => []
  | some _, [] => [replacement]
  | none, byte :: rest =>
      match leadByte byte with
      | .complete c => c :: decodeFrom none rest
      | .partly p => decodeFrom (some p) rest
  | some p, byte :: rest =>
      if p.low ≤ byte ∧ byte ≤ p.high then
        let value := p.value * 64 + (byte.toNat - 0x80)
        if p.missing ≤ 1 then Char.ofNat value :: decodeFrom none rest
        else decodeFrom (some ⟨value, p.missing - 1, 0x80, 0xBF⟩) rest
      else
        replacement ::
          match leadByte byte with
          | .complete c => c :: decodeFrom none rest
          | .partly q => decodeFrom (some q) rest

def ofBytesLossy (bytes : List UInt8) : String :=
  String.ofList (decodeFrom none bytes)

def ofBytes? (bytes : List UInt8) : Option String :=
  String.fromUTF8? bytes.toByteArray

end BootMemory.Text
