import MiniJava.Code.Listing
import MiniJava.Compile
import MiniJava.Tree.Format

namespace MiniJava.CommandLine

/-!
# The command line

One file with a typed unit is compiled to a listing of its code, to assembly or
to both. The arguments are taken apart here, and the work is a function of the
texts of the files that it reads; files are read and written elsewhere.

A flag is a word after two hyphens, or a letter after one hyphen. Letters may be
joined, and a value follows its option as the next argument, after an equals
sign, or joined to a letter. After two hyphens alone, everything is a file name.
No option may be given twice.
-/

/-- What a command is asked to do. -/
structure Arguments where
  file : String
  listing : Bool
  assembly : Bool
  both : Bool
  optimize : Bool
  registers? : Option Int32
  options? : Option String
  output? : Option String
  deriving DecidableEq

/-- Why arguments are not followed. -/
inductive Stop where
  /-- The command's usage was asked for. -/
  | help
  /-- The arguments are not understood. -/
  | misuse
  deriving DecidableEq

/-- An option without a value. -/
inductive Flag where
  | listing
  | assembly
  | both
  | optimize
  deriving DecidableEq

/-- An option with a value. -/
inductive Key where
  | registers
  | options
  | output
  deriving DecidableEq

/-- What has been read off the arguments so far. -/
structure Draft where
  file? : Option String := none
  flags : List Flag := []
  registers? : Option Int32 := none
  options? : Option String := none
  output? : Option String := none
  deriving DecidableEq

namespace Draft

/-- Adds a flag. -/
def addFlag (draft : Draft) (flag : Flag) : Except Stop Draft :=
  if flag ∈ draft.flags then
    .error .misuse else .ok { draft with flags := flag :: draft.flags }

/-- Adds flags in order. -/
def addFlags (draft : Draft) : List Flag → Except Stop Draft
  | [] => .ok draft
  | flag :: rest => do (← draft.addFlag flag).addFlags rest

/-- Adds the file to compile. -/
def addFile (draft : Draft) (path : String) : Except Stop Draft :=
  if draft.file?.isSome || path.isEmpty then
    .error .misuse
  else
    .ok { draft with file? := some path }

/-- Adds files in order; more than one is too many. -/
def addFiles (draft : Draft) : List String → Except Stop Draft
  | [] => .ok draft
  | path :: rest => do (← draft.addFile path).addFiles rest

/-- The register count that a value denotes. -/
def registerCount? (text : String) : Option Int32 :=
  match Decimal.int? text with
  | some count =>
      if -2147483648 ≤ count ∧ count ≤ 2147483647 then
        some (Int32.ofInt count) else none
  | none => none

/-- Adds an option with its value. -/
def addValue (draft : Draft) (key : Key) (value : String) : Except Stop Draft :=
  match key with
  | .registers =>
      match draft.registers?, registerCount? value with
      | none, some count => .ok { draft with registers? := some count }
      | _, _ => .error .misuse
  | .options =>
      if draft.options?.isSome || value.isEmpty then
        .error .misuse
      else
        .ok { draft with options? := some value }
  | .output =>
      if draft.output?.isSome || value.isEmpty then
        .error .misuse
      else
        .ok { draft with output? := some value }

/-- The arguments, once there is a file. -/
def finish (draft : Draft) : Except Stop Arguments :=
  match draft.file? with
  | none => .error .misuse
  | some file =>
      .ok
        { file
          listing := decide (.listing ∈ draft.flags)
          assembly := decide (.assembly ∈ draft.flags)
          both := decide (.both ∈ draft.flags)
          optimize := decide (.optimize ∈ draft.flags)
          registers? := draft.registers?
          options? := draft.options?
          output? := draft.output? }

end Draft

/-- An argument by itself. -/
inductive Argument where
  | file (path : String)
  /-- Two hyphens alone. -/
  | separator
  | flags (flags : List Flag)
  /-- Flags, then an option whose value is joined to it or comes next. -/
  | option (flags : List Flag) (key : Key) (value? : Option String)
  | help (flags : List Flag)
  | unknown (flags : List Flag)
  deriving DecidableEq

namespace Argument

/-- An argument of joined letters, after its hyphen and some flags. -/
def ofLetters : List Flag → List Char → Argument
  | before, [] => .flags before
  | before, 'o' :: rest => ofLetters (before ++ [.optimize]) rest
  | before, 'r' :: [] => .option before .registers none
  | before, 'r' :: '=' :: value =>
      .option before .registers (some (String.ofList value))
  | before, 'r' :: value => .option before .registers (some (String.ofList value))
  | before, 'h' :: _ => .help before
  | before, _ :: _ => .unknown before

/--
An argument with a word after two hyphens, and a value if there was an equals sign.
-/
def ofWord (word : String) (value? : Option String) : Argument :=
  match word, value? with
  | "ir", none => .flags [.listing]
  | "asm", none => .flags [.assembly]
  | "both", none => .flags [.both]
  | "optimize", none => .flags [.optimize]
  | "registers", value? => .option [] .registers value?
  | "config", value? => .option [] .options value?
  | "output", value? => .option [] .output value?
  | "help", none => .help []
  | _, _ => .unknown []

/-- What an argument is. -/
def ofString (text : String) : Argument :=
  match text.toList with
  | ['-'] => .file text
  | ['-', '-'] => .separator
  | '-' :: '-' :: rest =>
      let word := rest.takeWhile (· ≠ '=')
      match rest.drop word.length with
      | _ :: value => ofWord (String.ofList word) (some (String.ofList value))
      | [] => ofWord (String.ofList word) none
  | '-' :: letters => ofLetters [] letters
  | _ => .file text

end Argument

/-- Whether an argument may be the value of the option before it. -/
def mayFollow (key : Key) (value : String) : Bool :=
  match value.toList with
  | ['-'] => true
  | '-' :: _ => key = .registers
  | _ => true

/-- Reads arguments in order. -/
def read : Draft → List String → Except Stop Draft
  | draft, [] => .ok draft
  | draft, argument :: rest =>
      match Argument.ofString argument with
      | .separator => draft.addFiles rest
      | .file path => do read (← draft.addFile path) rest
      | .flags flags => do read (← draft.addFlags flags) rest
      | .option flags key (some value) => do
          read (← (← draft.addFlags flags).addValue key value) rest
      | .option flags key none =>
          match rest with
          | value :: rest => do
              let draft ← draft.addFlags flags
              if mayFollow key value then
                read (← draft.addValue key value) rest
              else
                .error .misuse
          | [] => .error .misuse
      | .help flags => do
          let _ ← draft.addFlags flags
          .error .help
      | .unknown _ => .error .misuse

/-- Takes the arguments of a command apart. -/
def parse (arguments : List String) : Except Stop Arguments := do
  (← read {} arguments).finish

/-- How the command is used. -/
def usage : String :=
  "Usage: [OPTIONS] <FILE>\n\n" ++
    "Compiles a typed unit to Jasmin assembly.\n\n" ++
    "  --ir                 list the code\n" ++
    "  --asm                write the assembly (the default)\n" ++
    "  --both               do both\n" ++
    "  -o, --optimize       propagate and fold constants first\n" ++
    "  -r, --registers <N>  let locals share N registers\n" ++
    "  --config <FILE>      read options from a file\n" ++
    "  --output <FILE>      write to a file\n"

/-- Why a file cannot be read or written. -/
inductive FileProblem where
  | missing
  | denied
  | notDirectory
  | isDirectory
  | nameTooLong
  deriving DecidableEq

namespace FileProblem

/-- All problems with files. -/
def all : List FileProblem :=
  [.missing, .denied, .notDirectory, .isDirectory, .nameTooLong]

/-- The number that the system has for a problem. -/
def code : FileProblem → Nat
  | .missing => 2
  | .denied => 13
  | .notDirectory => 20
  | .isDirectory => 21
  | .nameTooLong => 36

/-- The system's words for a problem. -/
def words : FileProblem → String
  | .missing => "No such file or directory"
  | .denied => "Permission denied"
  | .notDirectory => "Not a directory"
  | .isDirectory => "Is a directory"
  | .nameTooLong => "File name too long"

/-- What is said about a problem. -/
def message (problem : FileProblem) : String :=
  problem.words ++ " (os error " ++ Decimal.ofNat problem.code ++ ")"

end FileProblem

/-- What is said about a file that holds no text. -/
def notText : String :=
  "stream did not contain valid UTF-8"

/-- Why a command fails. -/
inductive Problem where
  | readingOptions (path cause : String)
  | parsingOptions (path : String) (fault : Fault)
  | readingUnit (path cause : String)
  | parsingUnit (path : String) (fault : Fault)
  | compiling (error : CompileError)
  | generating (error : CompileError)
  | writing (path cause : String)
  deriving DecidableEq

namespace Problem

/-- What was being done. -/
def context : Problem → String
  | .readingOptions path _ => "reading config '" ++ path ++ "'"
  | .parsingOptions path _ => "parsing config '" ++ path ++ "'"
  | .readingUnit path _ => "reading '" ++ path ++ "'"
  | .parsingUnit path _ => "parsing typed unit '" ++ path ++ "'"
  | .compiling _ => "compilation failed"
  | .generating _ => "code generation failed"
  | .writing path _ => "writing '" ++ path ++ "'"

/-- What is wrong with a text. -/
def faultText : Fault → String
  | .truncated => "the text ends too early"
  | .malformed => "the text is not JSON"
  | .mismatched => "the value does not have the expected shape"

/-- What went wrong. -/
def cause : Problem → String
  | .readingOptions _ cause => cause
  | .parsingOptions _ fault => faultText fault
  | .readingUnit _ cause => cause
  | .parsingUnit _ fault => faultText fault
  | .compiling error => error.message
  | .generating error => error.message
  | .writing _ cause => cause

/-- The text with every line after the first one indented. -/
def indented (text : String) : String :=
  String.ofList (text.toList.flatMap fun character =>
    if character = '\n' then "\n    ".toList else [character])

/-- The report of a problem. -/
def report (problem : Problem) : String :=
  "Error: " ++ problem.context ++ "\n\nCaused by:\n    " ++
    indented problem.cause ++ "\n"

end Problem

/-- What a command writes, and where if not to its output. -/
structure Output where
  text : String
  destination? : Option String
  deriving DecidableEq

namespace Arguments

/-- The files that a command reads. -/
def inputs (arguments : Arguments) : List String :=
  arguments.options?.toList ++ [arguments.file]

/-- The options of a compilation: arguments count more than the file of options. -/
def options (arguments : Arguments) (files : String → Except String String) :
    Except Problem Options := do
  let base : Options ←
    match arguments.options? with
    | none => pure {}
    | some path =>
        match files path with
        | .error cause => throw (.readingOptions path cause)
        | .ok text =>
            match Options.parse text with
            | .error fault => throw (.parsingOptions path fault)
            | .ok options => pure options
  return {
    optimize := base.optimize || arguments.optimize
    registers := arguments.registers? <|> base.registers }

/-- The unit to compile. -/
def unit (arguments : Arguments) (files : String → Except String String) :
    Except Problem TypedUnit :=
  match files arguments.file with
  | .error cause => .error (.readingUnit arguments.file cause)
  | .ok text =>
      match TypedUnit.parse text with
      | .error fault => .error (.parsingUnit arguments.file fault)
      | .ok unit => .ok unit

/-- Whether the code is listed. -/
def wantsListing (arguments : Arguments) : Bool :=
  arguments.listing || arguments.both

/-- Whether assembly is written, which is so unless only a listing is asked for. -/
def wantsAssembly (arguments : Arguments) : Bool :=
  arguments.assembly || arguments.both || !arguments.listing

/-- Does the work of a command on the texts of files. -/
def run (arguments : Arguments) (files : String → Except String String) :
    Except Problem Output := do
  let options ← arguments.options files
  let unit ← arguments.unit files
  let code ← (unit.lower options).mapError .compiling
  let listing :=
    if arguments.wantsListing then
      String.join (code.listing.map (· ++ "\n")) ++ "\n"
    else
      ""
  let assembly ←
    if arguments.wantsAssembly then
      (assemble options.budget code).2.mapError .generating
    else
      pure ""
  return { text := listing ++ assembly, destination? := arguments.output? }

end Arguments

end MiniJava.CommandLine
