import BootMemory.CommandLine

/-!
# The packer program

The command line of the packer on the files of the system: this layer reads the directory into a
tree and writes the archive, and leaves every decision to the pure functions.
-/

namespace BootMemory

/-- What there is at `path`.  Names that packing leaves out are not read, nor is a file whose path
is too long, because packing does not come to open it. -/
partial def readTree (path : Path) (entry : IO.FS.DirEntry) : IO FileTree := do
  if path.isTooLong then
    return .file ByteArray.empty
  match (← entry.path.symlinkMetadata).type with
  | .file => return .file (← IO.FS.readBinFile entry.path)
  | .dir => readDirectory path entry
  | _ => return .special
where
  readDirectory (path : Path) (entry : IO.FS.DirEntry) : IO FileTree := do
    let mut entries := #[]
    for below in ← entry.path.readDir do
      let name := (Path.ofString below.fileName).bytes
      unless isHidden name do
        entries := entries.push (name, ← readTree (path.join name) below)
    return .directory entries.toList

/-- The directory that the archive is made from, if it is one. -/
def readRoot (input : String) : IO (Option FileTree) := do
  let root : IO.FS.DirEntry := ⟨".", input⟩
  if ← root.path.isDir then
    return some (← readTree.readDirectory (Path.ofString input) root)
  else
    return none

/-- The errors of the system that a path can cause, by their numbers, which come with either
sign. -/
def pathError? (code : UInt32) : Option PathError :=
  [.notFound, .notDirectory, .isDirectory, .nameTooLong, .tooManyLinks].find? fun e =>
    PathError.number? e = some code.toNat ∨ PathError.number? e = some (-code).toNat

/-- The text for an error of the system. -/
def describe (e : IO.Error) : String :=
  let known : Option PathError :=
    match e with
    | .noFileOrDirectory _ code _ => pathError? code
    | .inappropriateType _ code _ => pathError? code
    | .invalidArgument _ code _ => pathError? code
    | .otherError code _ => pathError? code
    | _ => none
  (known.map PathError.debugText).getD (toString e)

def packFiles (request : PackRequest) : IO UInt32 := do
  IO.FS.writeBinFile request.output ByteArray.empty
  let packing := Packing.packAt (Path.ofString request.input) (← readRoot request.input)
  let report := CommandLine.report request (packing.run Packing.start)
  IO.print report.stdout
  IO.eprint report.stderr
  IO.FS.writeBinFile request.output report.archive
  return UInt32.ofNat report.code

def runProgram (args : List String) : IO UInt32 := do
  match CommandLine.parse args with
  | .help =>
      IO.print CommandLine.helpText
      return 0
  | .usageError =>
      IO.eprint CommandLine.helpText
      return 2
  | .run request =>
      try packFiles request
      catch e =>
        IO.eprint (CommandLine.errorLine (describe e))
        return 1

end BootMemory

def main (args : List String) : IO UInt32 :=
  BootMemory.runProgram args
