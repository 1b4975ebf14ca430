import BootMemory.Packing

/-!
# The command line of the packer

The packer is given a directory and the name of the archive to write.  Arguments are read from
left to right and the first fault among them decides, except that a request for help ends the
reading where it stands.
-/

namespace BootMemory

structure PackRequest where
  input : String
  output : String
  deriving DecidableEq

inductive Invocation where
  | run (request : PackRequest)
  | help
  | usageError
  deriving DecidableEq

inductive ValueOption where
  | input
  | output
  deriving DecidableEq

structure OptionValues where
  input : Option String
  output : Option String

namespace CommandLine

def defaultOutput : String := "initrd.img"

def helpText : String :=
  "Packs a directory tree into an Ember boot archive\n\n" ++
  "Usage: initrd [OPTIONS] --input <INPUT>\n\n" ++
  "Options:\n" ++
  "  -i, --input <INPUT>    Directory to pack; its contents appear at the archive root\n" ++
  "  -o, --output <OUTPUT>  Output archive file [default: initrd.img]\n" ++
  "  -h, --help             Print help\n"

def ofLetter? : Char → Option ValueOption
  | 'i' => some .input
  | 'o' => some .output
  | _ => none

def ofLongName? (name : List Char) : Option ValueOption :=
  if name = "input".toList then some .input
  else if name = "output".toList then some .output
  else none

def OptionValues.get (values : OptionValues) : ValueOption → Option String
  | .input => values.input
  | .output => values.output

/-- The values with one more.  Each option is given once, and its value is not empty. -/
def OptionValues.add? (values : OptionValues) (option : ValueOption) (value : List Char) :
    Option OptionValues :=
  if value.isEmpty || (OptionValues.get values option).isSome then none
  else
    match option with
    | .input => some { values with input := some (String.ofList value) }
    | .output => some { values with output := some (String.ofList value) }

/-- What one argument says by itself. -/
inductive Argument where
  | attached (option : ValueOption) (value : List Char)
  /-- An option whose value is the next argument. -/
  | separate (option : ValueOption)
  | help
  | endOfOptions
  /-- A value, or an argument that no option asks for. -/
  | plain
  | unknown
  deriving DecidableEq

def Argument.ofChars : List Char → Argument
  | ['-'] => .plain
  | ['-', '-'] => .endOfOptions
  | '-' :: '-' :: long =>
      let name := long.takeWhile (· != '=')
      let rest := long.dropWhile (· != '=')
      match ofLongName? name with
      | some option =>
          match rest with
          | [] => .separate option
          | _ :: value => .attached option value
      | none => if long = "help".toList then .help else .unknown
  | '-' :: letter :: rest =>
      if letter = 'h' then .help
      else
        match ofLetter? letter, rest with
        | some option, [] => .separate option
        | some option, '=' :: value => .attached option value
        | some option, value => .attached option value
        | none, _ => .unknown
  | _ => .plain

/-- What is asked for when all arguments have been read.  The input has to be given. -/
def finish (values : OptionValues) : Invocation :=
  match values.input with
  | some input => .run ⟨input, values.output.getD defaultOutput⟩
  | none => .usageError

def read (values : OptionValues) : List (List Char) → Invocation
  | [] => finish values
  | argument :: rest =>
      match Argument.ofChars argument with
      | .help => .help
      | .attached option value =>
          match OptionValues.add? values option value with
          | some values => read values rest
          | none => .usageError
      | .separate option =>
          match rest with
          | value :: rest =>
              match Argument.ofChars value with
              | .plain =>
                  match OptionValues.add? values option value with
                  | some values => read values rest
                  | none => .usageError
              | _ => .usageError
          | [] => .usageError
      | .endOfOptions => if rest.isEmpty then finish values else .usageError
      | .plain => .usageError
      | .unknown => .usageError

def parse (args : List String) : Invocation :=
  read ⟨none, none⟩ (args.map String.toList)

/-- What a run of the packer tells its user, and the archive if it comes to write one. -/
structure Report where
  code : Nat
  stdout : String
  stderr : String
  archive : ByteArray

/-- A run of the packer: what it tells its user and the files it leaves behind. -/
structure Outcome where
  code : Nat
  stdout : String
  stderr : String
  files : FileSystem

def errorLine (debugText : String) : String :=
  "Error: " ++ debugText ++ "\n"

def unlines (lines : List String) : String :=
  String.join (lines.map (· ++ "\n"))

def summary (count : Nat) (output : String) : String :=
  "packed " ++ toString count ++ " files into " ++ output

/-- The report of a packing.  The archive holds the records written before an error. -/
def report (request : PackRequest) : EStateM.Result PackError Packed Nat → Report
  | .ok count packed =>
      ⟨0, unlines (packed.lines.toList ++ [summary count request.output]), "", packed.out⟩
  | .error e packed => ⟨1, unlines packed.lines.toList, errorLine e.debugText, packed.out⟩

/-- Packs as requested.  The archive is created before the input is read. -/
def runRequest (request : PackRequest) (files : FileSystem) : Outcome :=
  match files.create (Path.ofString request.output) with
  | .error e => ⟨1, "", errorLine e.debugText, files⟩
  | .ok (place, created) =>
      let packing := Packing.pack created (Path.ofString request.input)
      let report := report request (packing.run Packing.start)
      ⟨report.code, report.stdout, report.stderr, created.put (.file report.archive) place⟩

def run (args : List String) (files : FileSystem) : Outcome :=
  match parse args with
  | .run request => runRequest request files
  | .help => ⟨0, helpText, "", files⟩
  | .usageError => ⟨2, "", "", files⟩

end CommandLine

end BootMemory
