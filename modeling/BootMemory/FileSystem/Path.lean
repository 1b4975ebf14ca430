import BootMemory.Text.Lossy

/-!
# Paths

A path is a sequence of bytes that a slash cuts into components.  Repeated and trailing slashes
and a dot that stands for the directory itself make no difference, except for a dot at the very
start; two dots are kept, because what they mean depends on links.
-/

namespace BootMemory

abbrev FileName := List UInt8

structure Path where
  bytes : List UInt8
  deriving DecidableEq

inductive PathComponent where
  /-- The root, at the start of an absolute path. -/
  | root
  /-- The directory itself, at the start of a relative path. -/
  | current
  | parent
  | entry (name : FileName)
  deriving DecidableEq

namespace PathComponent

def bytes : PathComponent → List UInt8
  | .root => [0x2f]
  | .current => [0x2e]
  | .parent => [0x2e, 0x2e]
  | .entry name => name

end PathComponent

namespace Path

def slash : UInt8 := 0x2f

def dot : UInt8 := 0x2e

def ofString (s : String) : Path :=
  ⟨s.toUTF8.data.toList⟩

def text (p : Path) : String :=
  Text.ofBytesLossy p.bytes

/-- The pieces between slashes, the empty ones included. -/
def split : List UInt8 → List (List UInt8)
  | [] => [[]]
  | byte :: rest =>
      if byte = slash then [] :: split rest
      else
        match split rest with
        | [] => [[byte]]
        | piece :: pieces => (byte :: piece) :: pieces

def isAbsolute (p : Path) : Bool :=
  p.bytes.head? == some slash

/-- The component that a piece stands for after the start of a path. -/
def ofPiece : List UInt8 → Option PathComponent
  | [] => none
  | [0x2e] => none
  | [0x2e, 0x2e] => some .parent
  | name => some (.entry name)

def components (p : Path) : List PathComponent :=
  let body := (split p.bytes).filterMap ofPiece
  if p.isAbsolute then .root :: body
  else if (split p.bytes).head? = some [dot] then .current :: body
  else body

def join (p : Path) (name : FileName) : Path :=
  if p.bytes.getLast? = some slash ∨ p.bytes = [] then ⟨p.bytes ++ name⟩
  else ⟨p.bytes ++ slash :: name⟩

/-- What is left of `components` after `start`, if it starts with it. -/
def stripPrefix? : (start components : List PathComponent) → Option (List PathComponent)
  | [], rest => some rest
  | _ :: _, [] => none
  | c :: start, d :: rest => if c = d then stripPrefix? start rest else none

end Path

end BootMemory
