/-!
# Sizes for people

A size in bytes is shown in the largest binary unit that does not exceed it, cut to one decimal
digit, and the digit is left out when it is zero.
-/

namespace BootMemory

inductive SizeUnit where
  | byte
  | kibibyte
  | mebibyte
  | gibibyte
  | tebibyte
  deriving DecidableEq

namespace SizeUnit

def scale : SizeUnit → Nat
  | .byte => 1
  | .kibibyte => 1 <<< 10
  | .mebibyte => 1 <<< 20
  | .gibibyte => 1 <<< 30
  | .tebibyte => 1 <<< 40

def symbol : SizeUnit → String
  | .byte => "B"
  | .kibibyte => "KiB"
  | .mebibyte => "MiB"
  | .gibibyte => "GiB"
  | .tebibyte => "TiB"

/-- Goes from a unit up through those above it, as long as the next one does not exceed `bytes`. -/
def climb (bytes : Nat) (unit : SizeUnit) : (above : List SizeUnit) → SizeUnit
  | [] => unit
  | next :: above => if bytes < next.scale then unit else climb bytes next above

/-- The largest unit that does not exceed `bytes`. -/
def largestWithin (bytes : Nat) : SizeUnit :=
  climb bytes .byte [.kibibyte, .mebibyte, .gibibyte, .tebibyte]

end SizeUnit

/-- A rounded size: `whole` units and `tenths` tenths of one. -/
structure BinarySize where
  whole : Nat
  tenths : Nat
  unit : SizeUnit
  deriving DecidableEq

namespace BinarySize

/-- The size of `bytes` bytes, cut to tenths of its unit. -/
def ofBytes (bytes : Nat) : BinarySize :=
  let unit := SizeUnit.largestWithin bytes
  ⟨bytes / unit.scale, bytes % unit.scale * 10 / unit.scale, unit⟩

/-- The written form: a digit after the point only if it is not zero. -/
def text (size : BinarySize) : String :=
  if size.tenths = 0 then toString size.whole ++ size.unit.symbol
  else toString size.whole ++ "." ++ toString size.tenths ++ size.unit.symbol

end BinarySize

end BootMemory
