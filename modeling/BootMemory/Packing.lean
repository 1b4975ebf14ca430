import BootMemory.Archive.Record
import BootMemory.FileSystem.Basic
import BootMemory.Text.Quoted

/-!
# Packing a tree of files

A packed tree is the archive of its regular files, depth first, with the entries of each
directory in the order of the bytes of their names.  Names that start with a dot, links and
special files are left out.  A file is named by its path below the root.

Directories and files are opened by the path of the root with their names after it, which may
be too long.  All directories are read before the first file is.
-/

namespace BootMemory

inductive PackError where
  | notDirectory (root : Path)
  /-- The path does not lead through the root. -/
  | outsideRoot
  | notUtf8 (path : Path)
  | format (e : RecordError)
  /-- A directory or a file cannot be opened. -/
  | unreadable (e : PathError)
  deriving DecidableEq

namespace PackError

def message : PackError → String
  | .notDirectory root => root.text ++ " is not a directory"
  | .outsideRoot => "prefix not found"
  | .notUtf8 path => path.text ++ " is not valid UTF-8"
  | .format e => e.message
  | .unreadable e => e.message

def debugText : PackError → String
  | .outsideRoot => "StripPrefixError(())"
  | .format e => e.debugText
  | .unreadable e => e.debugText
  | e => Text.quote e.message

end PackError

/-- A directory or regular file that packing comes to: the names that lead to it, and its contents
if it is a file. -/
structure Visit where
  names : List FileName
  contents? : Option ByteArray

structure FoundFile where
  names : List FileName
  contents : ByteArray

namespace Visit

def under (name : FileName) (v : Visit) : Visit :=
  { v with names := name :: v.names }

def file? (v : Visit) : Option FoundFile :=
  v.contents?.map (FoundFile.mk v.names)

def isDirectory (v : Visit) : Bool :=
  v.contents?.isNone

end Visit

def isHidden (name : FileName) : Bool :=
  name.head? == some Path.dot

def namedInOrder {α : Type} (a b : FileName × α) : Bool :=
  decide (a.1 ≤ b.1)

mutual

/-- The directories and regular files at and below a node, in order. -/
def FileTree.visits : FileTree → List Visit
  | .file contents => [⟨[], some contents⟩]
  | .directory entries =>
      ⟨[], none⟩ :: ((FileTree.visitsByName entries).mergeSort namedInOrder).flatMap Prod.snd
  | .link _ => []
  | .special => []

/-- The visits to each entry that is not left out, with its name. -/
def FileTree.visitsByName : List (FileName × FileTree) → List (FileName × List Visit)
  | [] => []
  | (name, node) :: rest =>
      if isHidden name then FileTree.visitsByName rest
      else (name, (FileTree.visits node).map (Visit.under name)) :: FileTree.visitsByName rest

end

def FileTree.found (t : FileTree) : List FoundFile :=
  t.visits.filterMap Visit.file?

def PathComponent.archiveText? (c : PathComponent) : Option String :=
  (Text.ofBytes? c.bytes).map ("/" ++ ·)

/-- The name in an archive of the file at `path`: the components below `root`, each after a
slash. -/
def nameBelow (root path : Path) : Except PackError String :=
  match Path.stripPrefix? root.components path.components with
  | none => .error .outsideRoot
  | some below =>
      match below.mapM PathComponent.archiveText? with
      | none => .error (.notUtf8 path)
      | some names => .ok (String.join names)

structure Packed where
  out : ByteArray
  /-- One line for each file, oldest first. -/
  lines : Array String

abbrev Packing (α : Type) := EStateM PackError Packed α

namespace Packing

def start : Packed := ⟨ByteArray.empty, #[]⟩

def append (file : ArchiveFile) : Packing Unit := do
  match Archive.record file with
  | .ok bytes => modify fun p => { p with out := p.out ++ bytes }
  | .error e => throw (.format e)

def fileLine (file : ArchiveFile) : String :=
  "[f] " ++ file.name ++ " (" ++ toString file.contents.size ++ " bytes)"

/-- What becomes of opening the node that `names` lead to from `root`. -/
def openBelow (root : Path) (names : List FileName) : Packing Unit :=
  if (names.foldl Path.join root).isTooLong then throw (.unreadable .nameTooLong) else pure ()

def packFile (root : Path) (f : FoundFile) : Packing Unit := do
  match nameBelow root (f.names.foldl Path.join root) with
  | .error e => throw e
  | .ok name =>
      openBelow root f.names
      let file : ArchiveFile := ⟨name, f.contents⟩
      modify fun p => { p with lines := p.lines.push (fileLine file) }
      append file

/-- Packs what was found at `root`, which has to be a directory, and answers the number of
files. -/
def packAt (root : Path) : Option FileTree → Packing Nat
  | some (.directory entries) => do
      let node := FileTree.directory entries
      (node.visits.filter Visit.isDirectory).forM fun v => openBelow root v.names
      node.found.forM (packFile root)
      return node.found.length
  | _ => throw (.notDirectory root)

def pack (files : FileSystem) (root : Path) : Packing Nat :=
  packAt root (files.find? root)

end Packing

end BootMemory
