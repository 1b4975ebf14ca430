import BootMemory.FileSystem.Path

/-!
# Trees of files

A tree of files is a file or a directory with everything under it.  A place in a tree is the list
of names that leads to it from the top.
-/

namespace BootMemory

/-- A file, a directory or something else that has a name. -/
inductive FileTree where
  | file (contents : ByteArray)
  | directory (entries : List (FileName × FileTree))
  | link (target : Path)
  /-- A socket, a device or the like. -/
  | special

/-- The names that lead from the top of a tree to a place in it, the last one first. -/
abbrev Place := List FileName

namespace FileTree

def entry? (t : FileTree) (name : FileName) : Option FileTree :=
  match t with
  | .directory entries => entries.lookup name
  | _ => none

def at? (t : FileTree) : Place → Option FileTree
  | [] => some t
  | name :: above => (t.at? above).bind fun parent => parent.entry? name

/-- Entries with `node` under `name`, in place of what was there. -/
def setEntry (name : FileName) (node : FileTree) :
    List (FileName × FileTree) → List (FileName × FileTree)
  | [] => [(name, node)]
  | entry :: rest =>
      if entry.1 = name then (name, node) :: rest else entry :: setEntry name node rest

def put (t : FileTree) (node : FileTree) : Place → FileTree
  | [] => node
  | name :: above =>
      match t.at? above with
      | some (.directory entries) => t.put (.directory (setEntry name node entries)) above
      | _ => t

end FileTree

end BootMemory
