import BootMemory.FileSystem.Tree

/-!
# Walking along a path

A walk takes the pieces of a path one after the other, through links, to the place that the path
names.  All links on the way count towards one limit, those at the end of the path too.  A walk to
a file that is going to be written may end at a name that is not there yet, but not at a directory.
-/

namespace BootMemory

inductive PathError where
  /-- A path with a zero byte is not handed to the operating system at all. -/
  | zeroByte
  | notFound
  | notDirectory
  | isDirectory
  | nameTooLong
  | tooManyLinks
  deriving DecidableEq

namespace PathError

/-- The number of the error, if the operating system has found it. -/
def number? : PathError → Option Nat
  | .zeroByte => none
  | .notFound => some 2
  | .notDirectory => some 20
  | .isDirectory => some 21
  | .nameTooLong => some 36
  | .tooManyLinks => some 40

def kind : PathError → String
  | .zeroByte => "InvalidInput"
  | .notFound => "NotFound"
  | .notDirectory => "NotADirectory"
  | .isDirectory => "IsADirectory"
  | .nameTooLong => "InvalidFilename"
  | .tooManyLinks => "FilesystemLoop"

def description : PathError → String
  | .zeroByte => "file name contained an unexpected NUL byte"
  | .notFound => "No such file or directory"
  | .notDirectory => "Not a directory"
  | .isDirectory => "Is a directory"
  | .nameTooLong => "File name too long"
  | .tooManyLinks => "Too many levels of symbolic links"

def message (e : PathError) : String :=
  match e.number? with
  | some number => e.description ++ " (os error " ++ toString number ++ ")"
  | none => e.description

def debugText (e : PathError) : String :=
  let details := "kind: " ++ e.kind ++ ", message: \"" ++ e.description ++ "\" \x7d"
  match e.number? with
  | some number => "Os \x7b code: " ++ toString number ++ ", " ++ details
  | none => "Error \x7b " ++ details

end PathError

/-- Bytes in the longest name of a file. -/
def maxFileNameLength : Nat := 255

/-- Bytes in the longest path. -/
def maxPathLength : Nat := 4095

/-- Links that are followed in one walk. -/
def maxLinks : Nat := 40

namespace Path

def isTooLong (p : Path) : Bool :=
  maxPathLength < p.bytes.length

/-- The pieces of a path that name something. -/
def steps (p : Path) : List FileName :=
  (split p.bytes).filter fun piece => !piece.isEmpty

def endsInSlash (p : Path) : Bool :=
  p.bytes.getLast? == some slash

end Path

/-- What a walk is for. -/
inductive WalkGoal where
  /-- Something that is there. -/
  | existing
  /-- A file that is there or can be created. -/
  | writable
  deriving DecidableEq

/-- The pieces to take.  A slash at the end asks for a directory: a last name that is there has to
be one, and a file that is going to be written cannot have such a name at all. -/
def WalkGoal.steps (goal : WalkGoal) (p : Path) : List FileName :=
  if p.endsInSlash then
    match goal with
    | .existing => p.steps ++ [[Path.dot]]
    | .writable => p.steps.dropLast ++ [[Path.dot]]
  else p.steps

namespace FileTree

/-- Where a path starts that is met at `here`. -/
def startOf (p : Path) (here : Place) : Place :=
  if p.isAbsolute then [] else here

/-- Takes the pieces of a path from a place on, through at most `links` links.  The top of the tree
is its own parent. -/
def walk (t : FileTree) (goal : WalkGoal) (links : Nat) (here : Place) (pieces : List FileName) :
    Except PathError Place :=
  match pieces with
  | [] => if goal = .existing then .ok here else .error .isDirectory
  | piece :: rest =>
      match t.at? here with
      | some (.directory entries) =>
          if piece = [Path.dot] then walk t goal links here rest
          else if piece = [Path.dot, Path.dot] then walk t goal links here.tail rest
          else if maxFileNameLength < piece.length then .error .nameTooLong
          else
            match entries.lookup piece with
            | none =>
                if goal = .writable ∧ rest = [] then .ok (piece :: here) else .error .notFound
            | some (.directory _) => walk t goal links (piece :: here) rest
            | some (.link target) =>
                match links with
                | 0 => .error .tooManyLinks
                | links + 1 =>
                    let followed := if rest = [] then goal.steps target
                      else WalkGoal.existing.steps target ++ rest
                    walk t goal links (startOf target here) followed
            | some _ => if rest = [] then .ok (piece :: here) else .error .notDirectory
      | _ => .error .notDirectory
termination_by (links, pieces.length)

end FileTree

end BootMemory
