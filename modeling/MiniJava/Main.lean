import MiniJava.CommandLine

namespace MiniJava.CommandLine

/-!
# The program

Reads the files of a command, does its work, and writes what comes out.
-/

/-- The number that the system has for a failed access; it may come negated. -/
def systemCode : IO.Error → Option Nat
  | .noFileOrDirectory _ code _ => some (unsigned code)
  | .permissionDenied _ code _ => some (unsigned code)
  | .inappropriateType _ code _ => some (unsigned code)
  | .invalidArgument _ code _ => some (unsigned code)
  | _ => none
where
  /-- The code without its sign. -/
  unsigned (code : UInt32) : Nat :=
    min code.toNat (0 - code).toNat

/-- What is said about a failed access. -/
def describe (error : IO.Error) : String :=
  match FileProblem.all.find? fun problem => systemCode error =
    some problem.code with
  | some problem => problem.message
  | none => toString error

/-- The text of a file, or why it cannot be read. -/
def readText (path : String) : IO (Except String String) := do
  try
    match String.fromUTF8? (← IO.FS.readBinFile path) with
    | some text => return .ok text
    | none => return .error notText
  catch error =>
    return .error (describe error)

/-- Writes the output of a command to its destination. -/
def Output.write (output : Output) : IO (Except Problem Unit) := do
  match output.destination? with
  | none =>
      IO.print output.text
      return .ok ()
  | some path =>
      try
        IO.FS.writeFile path output.text
        return .ok ()
      catch error =>
        return .error (.writing path (describe error))

/-- Runs a command; tells its exit code. -/
def command (arguments : List String) : IO UInt32 := do
  match parse arguments with
  | .error .help =>
      IO.print usage
      return 0
  | .error .misuse =>
      IO.eprint usage
      return 2
  | .ok arguments =>
      let files ← arguments.inputs.mapM fun path => do
        return (path, ← readText path)
      let lookup (path : String) : Except String String :=
        (files.lookup path).getD (.error "not read")
      match arguments.run lookup with
      | .error problem =>
          IO.eprint problem.report
          return 1
      | .ok output =>
          match ← output.write with
          | .error problem =>
              IO.eprint problem.report
              return 1
          | .ok _ => return 0

end MiniJava.CommandLine

/-- The program's entry. -/
def main (arguments : List String) : IO UInt32 :=
  MiniJava.CommandLine.command arguments
