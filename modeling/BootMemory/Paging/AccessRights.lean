/-!
# Access rights

The rights asked for when memory is mapped.  Reading is always implied by a mapping; writing,
executing and access from user mode are granted one by one.
-/

namespace BootMemory

/-- A set of access rights, one bit each. -/
structure AccessRights where
  bits : UInt8
  deriving DecidableEq

namespace AccessRights

def none : AccessRights := ⟨0⟩

def read : AccessRights := ⟨1⟩

def write : AccessRights := ⟨2⟩

def execute : AccessRights := ⟨4⟩

/-- The right of user mode to use the page at all. -/
def user : AccessRights := ⟨8⟩

def union (p q : AccessRights) : AccessRights :=
  ⟨p.bits ||| q.bits⟩

def contains (p q : AccessRights) : Bool :=
  p.bits &&& q.bits == q.bits

def ofLetter? : Char → Option AccessRights
  | 'R' => some read
  | 'W' => some write
  | 'X' => some execute
  | 'U' => some user
  | _ => Option.none

/-- The set of the rights that the letters of `s` stand for. -/
def ofLetters? (s : String) : Option AccessRights :=
  s.toList.foldlM (fun rights letter => (ofLetter? letter).map rights.union) AccessRights.none

def debugText (p : AccessRights) : String :=
  "Protection(" ++ toString p.bits.toNat ++ ")"

end AccessRights

end BootMemory
