import BootMemory.Bytes
import BootMemory.Word.Basic

/-!
# Archive records

A boot archive is a sequence of records, one for each file: a magic number, the size of the
header and of the contents, the length of the name and the name, then the contents, filled up
with zeros to a multiple of eight.
-/

namespace BootMemory

structure ArchiveFile where
  name : String
  contents : ByteArray

inductive RecordError where
  /-- The name has more bytes than a record can say. -/
  | nameTooLong (length : Nat)
  | bufferTooSmall (required provided : Nat)
  deriving DecidableEq

def RecordError.message : RecordError → String
  | .nameTooLong length =>
      "file name is " ++ toString length ++ " bytes long, at most 255 fit in a record"
  | .bufferTooSmall required provided =>
      "header buffer holds " ++ toString provided ++ " bytes, " ++ toString required ++ " required"

def RecordError.debugText : RecordError → String
  | .nameTooLong length => "NameTooLong(" ++ toString length ++ ")"
  | .bufferTooSmall required provided =>
      "BufferTooSmall \x7b required: " ++ toString required ++ ", provided: " ++
        toString provided ++ " \x7d"

namespace Archive

def magic : List UInt8 := [0x4c, 0x4f, 0x52, 0x44]

/-- Contents are filled up to a multiple of this. -/
def alignment : Nat := 8

/-- Bytes in a header without the name. -/
def fixedHeaderSize : Nat := 21

/-- Bytes in the longest name. -/
def maxNameLength : Nat := 255

def padding (size : Nat) : Nat :=
  (alignment - size % alignment) % alignment

def header (name : String) (size : Nat) : List UInt8 :=
  let bytes := name.toUTF8.data.toList
  magic ++ toLittleEndian 8 (fixedHeaderSize + bytes.length) ++ toLittleEndian 8 size ++
    [UInt8.ofNat bytes.length] ++ bytes

/-- Bytes in the header for `name`, which has to be short enough for a record. -/
def headerSize (name : String) : Except RecordError Nat :=
  if maxNameLength < name.utf8ByteSize then .error (.nameTooLong name.utf8ByteSize)
  else .ok (fixedHeaderSize + name.utf8ByteSize)

/-- Writes a header to the start of `buffer` and answers its size. -/
def writeHeader (buffer : ByteArray) (name : String) (size : Nat) :
    Except RecordError (Nat × ByteArray) := do
  let required ← headerSize name
  if buffer.size < required then .error (.bufferTooSmall required buffer.size)
  else return (required, Bytes.overwrite buffer 0 (header name size))

def record (file : ArchiveFile) : Except RecordError ByteArray := do
  let _ ← headerSize file.name
  let size := file.contents.size
  return (header file.name size).toByteArray ++ file.contents ++
    (List.replicate (padding size) 0).toByteArray

end Archive

end BootMemory
