import BootMemory.Image.Elf
import BootMemory.Word.Basic

/-!
# Reading ELF files

The parser that is used: it reads the file header and the table of program headers, in both word
sizes and both byte orders.  A section header table, where the header claims one, has to lie inside
the file; nothing else of it is used but its first header, which holds the two counts that can be
too large for the file header.
-/

namespace BootMemory.Elf

inductive Class where
  | bits32
  | bits64
  deriving DecidableEq

inductive ByteOrder where
  | little
  | big
  deriving DecidableEq

/-- How the numbers of a file are laid out. -/
structure Encoding where
  width : Class
  order : ByteOrder
  deriving DecidableEq

def ByteOrder.number : ByteOrder → List UInt8 → Nat
  | .little, bytes => ofLittleEndian bytes
  | .big, bytes => ofLittleEndian bytes.reverse

/-- The number in the `count` bytes at `offset`, if they are in the file. -/
def number? (e : Encoding) (file : ByteArray) (offset count : Nat) : Option Nat :=
  if offset + count ≤ file.size then some (e.order.number (Bytes.slice file offset count))
  else none

namespace Class

def addressSize : Class → Nat
  | .bits32 => 4
  | .bits64 => 8

def headerSize : Class → Nat
  | .bits32 => 52
  | .bits64 => 64

def programHeaderSize : Class → Nat
  | .bits32 => 32
  | .bits64 => 56

def sectionHeaderSize : Class → Nat
  | .bits32 => 40
  | .bits64 => 64

end Class

/-- Bytes in the identification at the start of a file. -/
def identificationSize : Nat := 16

/-- The part of the file header that matters here. -/
structure FileHeader where
  kind : Nat
  version : Nat
  entry : Nat
  programHeaders : Nat
  sectionHeaders : Nat
  programHeaderSize : Nat
  programHeaderCount : Nat
  sectionHeaderSize : Nat
  sectionHeaderCount : Nat
  deriving DecidableEq

/-- The sizes in a section header that stand in for counts of the file header. -/
structure SectionHeader where
  size : Nat
  info : Nat
  deriving DecidableEq

def readEncoding (file : ByteArray) : Except ParseError Encoding :=
  if file.size < identificationSize then .error .malformed
  else if Bytes.slice file 0 4 ≠ magic then .error .badMagic
  else if Bytes.byteAt file 6 ≠ 1 then .error .unsupportedVersion
  else
    match Bytes.byteAt file 4, Bytes.byteAt file 5 with
    | 1, 1 => .ok ⟨.bits32, .little⟩
    | 1, 2 => .ok ⟨.bits32, .big⟩
    | 2, 1 => .ok ⟨.bits64, .little⟩
    | 2, 2 => .ok ⟨.bits64, .big⟩
    | _, _ => .error .malformed

/-- Reads the file header, which has to be in the file as a whole. -/
def readFileHeader (e : Encoding) (file : ByteArray) : Option FileHeader := do
  if file.size < e.width.headerSize then none
  let address := e.width.addressSize
  let sizes := 24 + 3 * address + 4
  return {
    kind := ← number? e file 16 2
    version := ← number? e file 20 4
    entry := ← number? e file 24 address
    programHeaders := ← number? e file (24 + address) address
    sectionHeaders := ← number? e file (24 + 2 * address) address
    programHeaderSize := ← number? e file (sizes + 2) 2
    programHeaderCount := ← number? e file (sizes + 4) 2
    sectionHeaderSize := ← number? e file (sizes + 6) 2
    sectionHeaderCount := ← number? e file (sizes + 8) 2 }

def readSectionHeader (e : Encoding) (file : ByteArray) (offset : Nat) : Option SectionHeader := do
  if file.size < offset + e.width.sectionHeaderSize then none
  else
    let address := e.width.addressSize
    return {
      size := ← number? e file (offset + 8 + 3 * address) address
      info := ← number? e file (offset + 12 + 4 * address) 4 }

def readProgramHeader (e : Encoding) (file : ByteArray) (offset : Nat) : Option ProgramHeader :=
  match e.width with
  | .bits32 => do
      return {
        kind := ← number? e file offset 4
        offset := ← number? e file (offset + 4) 4
        virtualAddress := ← number? e file (offset + 8) 4
        fileSize := ← number? e file (offset + 16) 4
        memorySize := ← number? e file (offset + 20) 4
        flags := ← number? e file (offset + 24) 4 }
  | .bits64 => do
      return {
        kind := ← number? e file offset 4
        flags := ← number? e file (offset + 4) 4
        offset := ← number? e file (offset + 8) 8
        virtualAddress := ← number? e file (offset + 16) 8
        fileSize := ← number? e file (offset + 32) 8
        memorySize := ← number? e file (offset + 40) 8 }

def checkSections (e : Encoding) (file : ByteArray) (header : FileHeader) : Option Unit := do
  if header.sectionHeaders = 0 then return ()
  let count ←
    if header.sectionHeaderCount = 0 then
      (readSectionHeader e file header.sectionHeaders).map SectionHeader.size
    else some header.sectionHeaderCount
  if header.sectionHeaderSize ≠ e.width.sectionHeaderSize then none
  if file.size < header.sectionHeaders + count * header.sectionHeaderSize then none
  return ()

/-- Reads the program header table of a file, which may have none. -/
def readSegments (e : Encoding) (file : ByteArray) (header : FileHeader) :
    Option (List ProgramHeader) := do
  if header.programHeaders = 0 then return []
  let count ←
    if header.programHeaderCount = 0xffff then
      (readSectionHeader e file header.sectionHeaders).map SectionHeader.info
    else some header.programHeaderCount
  if header.programHeaderSize ≠ e.width.programHeaderSize then none
  if file.size < header.programHeaders + count * header.programHeaderSize then none
  (List.range count).mapM fun i =>
    readProgramHeader e file (header.programHeaders + i * header.programHeaderSize)

def readBody (e : Encoding) (file : ByteArray) : Option File := do
  let header ← readFileHeader e file
  checkSections e file header
  let segments ← readSegments e file header
  return ⟨header.kind, header.version, header.entry, segments⟩

def parse : Parser := fun file => do
  let e ← readEncoding file
  match readBody e file with
  | some parsed => return parsed
  | none => .error .malformed

end BootMemory.Elf
