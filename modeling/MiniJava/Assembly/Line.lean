import MiniJava.Code.Method
import MiniJava.Jvm.Instr

namespace MiniJava.Assembly

/-!
# Lines of assembly

An assembly text is a list of lines. Code and limits are indented; labels and
everything else are not.
-/

open Code (Visibility)

/-- A line of assembly. -/
inductive Line where
  | blank
  | classHeader (name : String)
  | superHeader (path : String)
  | field (visibility : Visibility) (name descriptor : String)
  | comment (content : String)
  | methodStart (visibility : Visibility) (isStatic : Bool)
    (name descriptor : String)
  | stackLimit (limit : Int)
  | localsLimit (limit : Nat)
  | code (instr : Jvm.Instr)
  | methodEnd
  deriving DecidableEq

namespace Line

/-- The blanks before code. -/
def indentation : String :=
  "    "

/-- The text of a line. -/
def text : Line → String
  | .blank => ""
  | .classHeader name => ".class " ++ name
  | .superHeader path => ".super " ++ path
  | .field visibility name descriptor =>
      ".field " ++ visibility.modifier ++ "'" ++ name ++ "' " ++ descriptor
  | .comment content => ";" ++ content
  | .methodStart visibility isStatic name descriptor =>
      ".method " ++ visibility.modifier ++
        (if isStatic then "static " else "") ++ name ++
        descriptor
  | .stackLimit limit => indentation ++ ".limit stack " ++ Decimal.ofInt limit
  | .localsLimit limit => indentation ++ ".limit locals " ++ Decimal.ofNat limit
  | .code instr => if instr.isLabel then instr.text else indentation ++ instr.text
  | .methodEnd => ".end method"

end Line

/-- The text of lines, with a line break after the last one. -/
def render (lines : List Line) : String :=
  "\n".intercalate (lines.map Line.text) ++ "\n"

end MiniJava.Assembly
