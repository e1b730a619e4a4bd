import MiniJava.Code.Method

namespace MiniJava.Code

/-!
# The listing of a class

The text of three-address code, line by line.
-/

/-- The modifiers of a method, each with a blank after it. -/
def Method.modifiers (method : Method) : String :=
  method.visibility.modifier ++ if method.isStatic then "static " else ""

/-- The lines of a method. -/
def Method.listing (method : Method) : List String :=
  let params := ", ".intercalate (method.params.map Operand.text)
  ["  .method " ++ method.modifiers ++ method.name ++ "(" ++ params ++ ")." ++
      method.returnType.text ++ " \x7b"] ++
    method.instrs.map (fun instr => "    " ++ instr.text ++ ";") ++
    ["  \x7d"]

/-- The line of a field. -/
def Field.listing (field : Field) : String :=
  "  .field " ++ field.visibility.modifier ++ field.name ++ "." ++
    field.type.text ++ ";"

/-- The line that opens a class. -/
def ClassCode.heading (unit : ClassCode) : String :=
  match unit.superClass with
  | some parent => unit.name ++ " extends " ++ parent ++ " \x7b"
  | none => unit.name ++ " \x7b"

/-- The lines of a class. Its constructor only calls that of its parent. -/
def ClassCode.listing (unit : ClassCode) : List String :=
  unit.imports.map (fun path => "import " ++ path ++ ";") ++
    [unit.heading] ++
    unit.fields.map Field.listing ++
    ["  .construct " ++ unit.name ++ "().V \x7b",
      "    invokespecial(this, \"<init>\").V;",
      "  \x7d"] ++
    unit.methods.flatMap Method.listing ++
    ["\x7d"]

end MiniJava.Code
