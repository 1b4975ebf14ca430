import BootMemory.Log

/-!
# The console

Log records are written to a serial line as text that names the level, the place in the program
and the target.  A record is lost if the line fails.
-/

namespace BootMemory

structure LogRecord where
  level : LogLevel
  target : String
  file : Option String
  line : Option Nat
  message : String
  deriving DecidableEq

/-- A record as one line.  An unknown place is file `unknown`, line 0. -/
def LogRecord.text (r : LogRecord) : String :=
  "[" ++ r.level.name ++ " " ++ r.file.getD "unknown" ++ ":" ++ toString (r.line.getD 0) ++ " " ++
    r.target ++ "] " ++ r.message ++ "\n"

/-- A serial line either carries what is written to it or fails every write. -/
inductive SerialLine where
  | working
  | broken
  deriving DecidableEq

/-- A console writes to a serial line once it has been attached to one. -/
structure Console where
  serial : Option SerialLine
  deriving DecidableEq

namespace Console

def initial : Console := ⟨none⟩

def attach (_ : Console) (line : SerialLine) : Console := ⟨some line⟩

def isAttached (c : Console) : Bool :=
  c.serial.isSome

/-- What the serial line carries when a record is logged. -/
def written (c : Console) (r : LogRecord) : String :=
  match c.serial with
  | some .working => r.text
  | some .broken => ""
  | none => ""

end Console

end BootMemory
