import BootMemory.FileSystem.Walk

/-!
# File systems

A file system is a tree of files with a current directory, from which relative paths start.
Absolute paths start at the top of the tree.
-/

namespace BootMemory

structure FileSystem where
  top : FileTree
  here : Place

namespace FileSystem

/-- A file system whose current directory is empty and lies two levels below the top. -/
def initial : FileSystem :=
  let outer : FileName := "tmp".toUTF8.data.toList
  let inner : FileName := "work".toUTF8.data.toList
  ⟨.directory [(outer, .directory [(inner, .directory [])])], [inner, outer]⟩

def locate (s : FileSystem) (goal : WalkGoal) (p : Path) : Except PathError Place :=
  if p.bytes.contains 0 then .error .zeroByte
  else if p.bytes.isEmpty then .error .notFound
  else if p.isTooLong then .error .nameTooLong
  else s.top.walk goal maxLinks (FileTree.startOf p s.here) (goal.steps p)

def find? (s : FileSystem) (p : Path) : Option FileTree :=
  match s.locate .existing p with
  | .ok place => s.top.at? place
  | .error _ => none

def read? (s : FileSystem) (p : Path) : Option ByteArray :=
  match s.find? p with
  | some (.file contents) => some contents
  | _ => none

/-- The file system with `node` at a place whose directory is there. -/
def put (s : FileSystem) (node : FileTree) (place : Place) : FileSystem :=
  { s with top := s.top.put node place }

/-- Creates an empty file, or empties the one that is there, and answers its place. -/
def create (s : FileSystem) (p : Path) : Except PathError (Place × FileSystem) := do
  let place ← s.locate .writable p
  return (place, s.put (.file ByteArray.empty) place)

/-- Makes the directories that `pieces` name one below the other from a place on, where they are
missing, and answers the place of the last one. -/
def makeDirectoriesFrom (s : FileSystem) (place : Place) :
    (pieces : List FileName) → Option (FileSystem × Place)
  | [] => some (s, place)
  | piece :: rest =>
      match s.top.walk .existing maxLinks place [piece] with
      | .ok below =>
          match s.top.at? below with
          | some (.directory _) => makeDirectoriesFrom s below rest
          | _ => none
      | .error _ =>
          match s.top.at? (piece :: place) with
          | none =>
              makeDirectoriesFrom (s.put (.directory []) (piece :: place)) (piece :: place) rest
          | some _ => none

/-- The file system with the directory that `p` names, and those above it. -/
def makeDirectories (s : FileSystem) (p : Path) : Option FileSystem :=
  (makeDirectoriesFrom s (FileTree.startOf p s.here) p.steps).map Prod.fst

/-- The file system with `node` under the last name of `p`, and the directories above it. -/
def plant (s : FileSystem) (p : Path) (node : FileTree) : Option FileSystem :=
  match p.steps.reverse with
  | [] => none
  | last :: before => do
      let (s, place) ← makeDirectoriesFrom s (FileTree.startOf p s.here) before.reverse
      if (s.top.at? (last :: place)).isSome then none
      else return s.put node (last :: place)

/-- The file system with the given contents in the file that `p` names, and the directories above
it. -/
def writeFile (s : FileSystem) (p : Path) (contents : ByteArray) : Option FileSystem := do
  let (s, _) ← makeDirectoriesFrom s (FileTree.startOf p s.here) p.steps.dropLast
  match s.create p with
  | .ok (place, s) => return s.put (.file contents) place
  | .error _ => none

end FileSystem

end BootMemory
