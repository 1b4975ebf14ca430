import BootMemory.Address.Basic
import BootMemory.Image.Elf

/-!
# Executable images

An image is checked as a whole before any of it is loaded: it has to be an executable of the
current version, and each part of it that goes into memory has to come from inside the file and
go to one half of the canonical addresses.  Each part is then looked up again, and what is found is
a segment with its own bytes.
-/

namespace BootMemory

inductive ImageError where
  /-- The file does not start with the magic number. -/
  | badMagic
  /-- The header or the program header table cannot be read. -/
  | malformed
  /-- The file is of another kind. -/
  | notExecutable (kind : Nat)
  /-- The format is of another version. -/
  | unsupportedVersion
  /-- The bytes of a segment are not all in the file. -/
  | segmentOutOfBounds (index : Nat)
  /-- The addresses of a segment are not canonical, or lie in both halves. -/
  | badSegmentAddress (index : Nat)
  deriving DecidableEq

def ImageError.message : ImageError → String
  | .badMagic => "missing ELF magic"
  | .malformed => "malformed ELF header or program header table"
  | .notExecutable kind => "ELF type " ++ toString kind ++ " is not an executable"
  | .unsupportedVersion => "unsupported ELF version"
  | .segmentOutOfBounds index => "segment " ++ toString index ++ " lies outside the image"
  | .badSegmentAddress index =>
      "segment " ++ toString index ++ " has a non-canonical address range"

/-- A part of an image that goes into memory. -/
structure Segment where
  index : Nat
  virt : VirtAddr
  /-- Bytes in memory, at least one. -/
  memorySize : Word
  writable : Bool
  executable : Bool
  /-- The first bytes in memory; the others are zero. -/
  contents : List UInt8
  deriving DecidableEq

/-- What is left to load of an image that was checked: where it starts, and its parts with their
places in the table. -/
structure Executable where
  entry : VirtAddr
  parts : List (Elf.ProgramHeader × Nat)
  deriving DecidableEq

namespace Elf

def executableKind : Nat := 2

def currentVersion : Nat := 1

namespace ProgramHeader

/-- Whether the header describes a part that goes into memory and takes up room there. -/
def isLoadable (h : ProgramHeader) : Bool :=
  h.kind == 1 && h.memorySize != 0

def isWritable (h : ProgramHeader) : Bool :=
  h.flags.testBit 1

def isExecutable (h : ProgramHeader) : Bool :=
  h.flags.testBit 0

/-- Bytes that come from the file; those beyond the size in memory are ignored. -/
def contentsSize (h : ProgramHeader) : Nat :=
  min h.fileSize h.memorySize

def contents? (h : ProgramHeader) (file : ByteArray) : Option (List UInt8) :=
  if h.offset + h.contentsSize ≤ file.size then
    some (Bytes.slice file h.offset h.contentsSize)
  else none

def lastAddress (h : ProgramHeader) : Nat :=
  h.virtualAddress + h.memorySize - 1

def liesInOneHalf (h : ProgramHeader) : Bool :=
  let first : VirtAddr := ⟨UInt64.ofNat h.virtualAddress⟩
  let last : VirtAddr := ⟨UInt64.ofNat h.lastAddress⟩
  h.lastAddress < UInt64.size && first.isCanonical && last.isCanonical &&
    first.word >>> 47 == last.word >>> 47

/-- What has to hold of each part before any of them is loaded. -/
def check (h : ProgramHeader) (file : ByteArray) (index : Nat) : Except ImageError Unit :=
  if (h.contents? file).isNone then .error (.segmentOutOfBounds index)
  else if h.liesInOneHalf then .ok ()
  else .error (.badSegmentAddress index)

def segment (h : ProgramHeader) (file : ByteArray) (index : Nat) : Except ImageError Segment :=
  match h.contents? file with
  | none => .error (.segmentOutOfBounds index)
  | some contents =>
      .ok {
        index
        virt := ⟨UInt64.ofNat h.virtualAddress⟩
        memorySize := UInt64.ofNat h.memorySize
        writable := h.isWritable
        executable := h.isExecutable
        contents }

end ProgramHeader

/-- The loadable headers of a table with their places in it. -/
def loadable (headers : List ProgramHeader) : List (ProgramHeader × Nat) :=
  headers.zipIdx.filter fun entry => entry.1.isLoadable

end Elf

namespace Executable

/-- Checks the image in a file. -/
def ofImage (parse : Elf.Parser) (file : ByteArray) : Except ImageError Executable := do
  if Bytes.slice file 0 4 ≠ Elf.magic then .error .badMagic
  let parsed ← match parse file with
    | .ok parsed => .ok parsed
    | .error .badMagic => .error .badMagic
    | .error .unsupportedVersion => .error .unsupportedVersion
    | .error .malformed => .error .malformed
  if parsed.kind ≠ Elf.executableKind then .error (.notExecutable parsed.kind)
  if parsed.version ≠ Elf.currentVersion then .error .unsupportedVersion
  let parts := Elf.loadable parsed.segments
  parts.forM fun part => part.1.check file part.2
  return ⟨⟨UInt64.ofNat parsed.entry⟩, parts⟩

end Executable

end BootMemory
