import BootMemory.Bytes

/-!
# The ELF format

What a loader is told of an ELF file: what kind of file it is, where it starts, and the table of
program headers.  How that is read from the bytes is left to a parser.
-/

namespace BootMemory.Elf

def magic : List UInt8 := [0x7f, 0x45, 0x4c, 0x46]

/-- Why a file header or a program header table cannot be read. -/
inductive ParseError where
  | badMagic
  | unsupportedVersion
  | malformed
  deriving DecidableEq

structure ProgramHeader where
  kind : Nat
  flags : Nat
  offset : Nat
  virtualAddress : Nat
  fileSize : Nat
  memorySize : Nat
  deriving DecidableEq

structure File where
  kind : Nat
  version : Nat
  entry : Nat
  segments : List ProgramHeader
  deriving DecidableEq

/-- A way to read files. -/
abbrev Parser := ByteArray → Except ParseError File

end BootMemory.Elf
