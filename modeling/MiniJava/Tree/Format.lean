import MiniJava.Json.Shape
import MiniJava.Json.Value
import MiniJava.Tree.Unit

namespace MiniJava

open Json (Shape Fields Choice Place)

/-!
# The JSON form of units and options

For each type of the tree, its shape and its written form. Writing gives every
field, defaults and nulls included; reading lets defaults be left out.
-/

namespace TypeName

/-- The shape of a type. -/
def shape : Shape TypeName := fun place node => do
  let fields ← Fields.ofNode ["name", "is_array"] place node
  let name := fields.get "name" .text
  let isArray := fields.get "is_array" .bool
  fields.settle [name.fault?, isArray.fault?]
  return {
    name := ← name.required
    isArray := ← isArray.withDefault false }

/-- The written form of a type. -/
def toJson (type : TypeName) : Json :=
  .object [("name", .string type.name), ("is_array", .bool type.isArray)]

end TypeName

namespace Operator

/-- The shape of an operator: its sign. -/
def shape : Shape Operator :=
  .word (Operator.all.map fun operator => (operator.sign, operator))

/-- The written form of an operator. -/
def toJson (operator : Operator) : Json :=
  .string operator.sign

end Operator

namespace Expr

/-- The kinds of expressions, in order. -/
def kinds : List String :=
  ["int_lit", "bool_lit", "var_ref", "this", "binary", "method_call", "new_object",
    "new_array", "array_access", "length"]

/--
The expression that a choice holds.

Each expression inside another stands at least one level deeper, so the number
of levels bounds the recursion.
-/
def ofChoice : (levels : Nat) → Choice → Except Fault Expr
  | 0, _ => .error .malformed
  | levels + 1, choice => do
      let expr : Shape Expr := fun place node => do
        ofChoice levels (← Choice.ofNode kinds place node)
      let fields := choice.fields
      match choice.kind with
      | "int_lit" =>
          let fields ← fields ["value"]
          let value ← fields.required "value" .int32
          return .literal (.int value)
      | "bool_lit" =>
          let fields ← fields ["value"]
          let value ← fields.required "value" .bool
          return .literal (.bool value)
      | "var_ref" =>
          let fields ← fields ["name", "ty"]
          let name ← fields.required "name" .text
          let type ← fields.required "ty" TypeName.shape
          return .var name type
      | "this" =>
          let fields ← fields ["ty"]
          let type ← fields.required "ty" TypeName.shape
          return .receiver type
      | "binary" =>
          let fields ← fields ["op", "left", "right", "ty"]
          let operator ← fields.required "op" Operator.shape
          let left ← fields.required "left" expr
          let right ← fields.required "right" expr
          let type ← fields.required "ty" TypeName.shape
          return .binary operator left right type
      | "method_call" =>
          let fields ← fields ["target", "name", "args", "ty"]
          let target ← fields.required "target" expr
          let method ← fields.required "name" .text
          let arguments ← fields.withDefault "args" [] (.list expr)
          let type ← fields.required "ty" TypeName.shape
          return .call target method arguments type
      | "new_object" =>
          let fields ← fields ["class_name", "ty"]
          let className ← fields.required "class_name" .text
          let type ← fields.required "ty" TypeName.shape
          return .newObject className type
      | "new_array" =>
          let fields ← fields ["size", "ty"]
          let size ← fields.required "size" expr
          let type ← fields.required "ty" TypeName.shape
          return .newArray size type
      | "array_access" =>
          let fields ← fields ["array", "index", "ty"]
          let array ← fields.required "array" expr
          let index ← fields.required "index" expr
          let type ← fields.required "ty" TypeName.shape
          return .element array index type
      | "length" =>
          let fields ← fields ["array", "ty"]
          let array ← fields.required "array" expr
          let type ← fields.required "ty" TypeName.shape
          return .length array type
      | _ => .error .mismatched

/-- The shape of an expression. -/
def shape : Shape Expr := fun place node => do
  ofChoice Json.nestingLimit (← Choice.ofNode kinds place node)

/-- The written form of a literal. -/
def literalJson : Literal → Json
  | .int value => .object [("kind", .string "int_lit"), ("value", .int value.toInt)]
  | .bool value => .object [("kind", .string "bool_lit"), ("value", .bool value)]

mutual

/-- The written form of an expression. -/
def toJson : Expr → Json
  | .literal value => literalJson value
  | .var name type =>
      .object
        [("kind", .string "var_ref"), ("name", .string name), ("ty", type.toJson)]
  | .receiver type => .object [("kind", .string "this"), ("ty", type.toJson)]
  | .binary operator left right type =>
      .object
        [("kind", .string "binary"), ("op", operator.toJson), ("left", toJson left),
        ("right", toJson right), ("ty", type.toJson)]
  | .call target method arguments type =>
      .object [("kind", .string "method_call"), ("target", toJson target),
        ("name", .string method), ("args", .array (listJson arguments)),
        ("ty", type.toJson)]
  | .newObject className type =>
      .object [("kind", .string "new_object"), ("class_name", .string className),
        ("ty", type.toJson)]
  | .newArray size type =>
      .object
        [("kind", .string "new_array"), ("size", toJson size), ("ty", type.toJson)]
  | .element array index type =>
      .object [("kind", .string "array_access"), ("array", toJson array),
        ("index", toJson index), ("ty", type.toJson)]
  | .length array type =>
      .object
        [("kind", .string "length"), ("array", toJson array), ("ty", type.toJson)]

/-- The written forms of a list of expressions. -/
def listJson : List Expr → List Json
  | [] => []
  | expr :: rest => toJson expr :: listJson rest

end

end Expr

/-- The written form of a table, in the order of its names. -/
def Json.ofMap
    {α : Type}
    (toJson : α → Json)
    (table : Std.ExtTreeMap String α) : Json :=
  .object (table.toList.map fun (name, content) => (name, toJson content))

namespace Stmt

/-- The kinds of statements, in order. -/
def kinds : List String :=
  ["assign", "expr", "return"]

/-- The statement that a choice holds. -/
def ofChoice (choice : Choice) : Except Fault Stmt := do
  let fields := choice.fields
  match choice.kind with
  | "assign" =>
      let fields ← fields ["name", "ty", "value"]
      let name ← fields.required "name" .text
      let type ← fields.required "ty" TypeName.shape
      let value ← fields.required "value" Expr.shape
      return .assign name type value
  | "expr" =>
      let fields ← fields ["expr"]
      let value ← fields.required "expr" Expr.shape
      return .evaluate value
  | "return" =>
      let fields ← fields ["value"]
      let value ← fields.nullable "value" Expr.shape
      return .ret value
  | _ => .error .mismatched

/-- The shape of a statement. -/
def shape : Shape Stmt := fun place node => do
  ofChoice (← Choice.ofNode kinds place node)

/-- The written form of a statement. -/
def toJson : Stmt → Json
  | .assign name type value =>
      .object
        [("kind", .string "assign"), ("name", .string name), ("ty", type.toJson),
        ("value", value.toJson)]
  | .evaluate value => .object [("kind", .string "expr"), ("expr", value.toJson)]
  | .ret value =>
      .object [("kind", .string "return"), ("value", .ofOption Expr.toJson value)]

end Stmt

namespace Declaration

/-- The shape of a declaration. -/
def shape : Shape Declaration := fun place node => do
  let fields ← Fields.ofNode ["name", "ty"] place node
  let name := fields.get "name" .text
  let type := fields.get "ty" TypeName.shape
  fields.settle [name.fault?, type.fault?]
  return {
    name := ← name.required
    type := ← type.required }

/-- The written form of a declaration. -/
def toJson (declaration : Declaration) : Json :=
  .object [("name", .string declaration.name), ("ty", declaration.type.toJson)]

end Declaration

namespace MethodDef

/-- The shape of a method. -/
def shape : Shape MethodDef := fun place node => do
  let fields ← Fields.ofNode
    ["name", "is_public", "is_static", "return_type", "params", "locals", "body"]
      place node
  let name := fields.get "name" .text
  let isPublic := fields.get "is_public" .bool
  let isStatic := fields.get "is_static" .bool
  let returnType := fields.get "return_type" TypeName.shape
  let params := fields.get "params" (.list Declaration.shape)
  let locals := fields.get "locals" (.list Declaration.shape)
  let body := fields.get "body" (.list Stmt.shape)
  fields.settle
    [name.fault?, isPublic.fault?, isStatic.fault?, returnType.fault?,
      params.fault?, locals.fault?, body.fault?]
  return {
    name := ← name.required
    isPublic := ← isPublic.withDefault true
    isStatic := ← isStatic.withDefault false
    returnType := ← returnType.required
    params := ← params.withDefault []
    locals := ← locals.withDefault []
    body := ← body.withDefault [] }

/-- The written form of a method. -/
def toJson (method : MethodDef) : Json :=
  .object [("name", .string method.name), ("is_public", .bool method.isPublic),
    ("is_static", .bool method.isStatic), ("return_type", method.returnType.toJson),
    ("params", .ofList Declaration.toJson method.params),
    ("locals", .ofList Declaration.toJson method.locals),
    ("body", .ofList Stmt.toJson method.body)]

end MethodDef

namespace ClassDef

/-- The shape of a class. -/
def shape : Shape ClassDef := fun place node => do
  let fields ← Fields.ofNode ["name", "super_class", "fields", "methods"] place node
  let name := fields.get "name" .text
  let superClass := fields.get "super_class" (.optional .text)
  let declarations := fields.get "fields" (.list Declaration.shape)
  let methods := fields.get "methods" (.list MethodDef.shape)
  fields.settle
    [name.fault?, superClass.fault?, declarations.fault?, methods.fault?]
  return {
    name := ← name.required
    superClass := ← superClass.withDefault none
    fields := ← declarations.withDefault []
    methods := ← methods.withDefault [] }

/-- The written form of a class. -/
def toJson (definition : ClassDef) : Json :=
  .object [("name", .string definition.name),
    ("super_class", .ofOption .string definition.superClass),
    ("fields", .ofList Declaration.toJson definition.fields),
    ("methods", .ofList MethodDef.toJson definition.methods)]

end ClassDef

namespace Program

/-- The shape of a program. -/
def shape : Shape Program := fun place node => do
  let fields ← Fields.ofNode ["imports", "class"] place node
  let imports := fields.get "imports" (.list .text)
  let mainClass := fields.get "class" ClassDef.shape
  fields.settle [imports.fault?, mainClass.fault?]
  return {
    imports := ← imports.withDefault []
    mainClass := ← mainClass.required }

/-- The written form of a program. -/
def toJson (program : Program) : Json :=
  .object [("imports", .ofList .string program.imports),
    ("class", program.mainClass.toJson)]

end Program

namespace Symbols

/-- The shape of a table of symbols. -/
def shape : Shape Symbols := fun place node => do
  let fields ← Fields.ofNode
    ["class_name", "super_class", "imports", "methods", "return_types", "params",
      "locals", "fields"] place node
  let className := fields.get "class_name" .text
  let superClass := fields.get "super_class" (.optional .text)
  let imports := fields.get "imports" (.list .text)
  let methods := fields.get "methods" (.list .text)
  let returnTypes := fields.get "return_types" (.map TypeName.shape)
  let params := fields.get "params" (.map (.list Declaration.shape))
  let locals := fields.get "locals" (.map (.list Declaration.shape))
  let declarations := fields.get "fields" (.list Declaration.shape)
  fields.settle
    [className.fault?, superClass.fault?, imports.fault?, methods.fault?,
      returnTypes.fault?, params.fault?, locals.fault?, declarations.fault?]
  return {
    className := ← className.required
    superClass := ← superClass.withDefault none
    imports := ← imports.required
    methods := ← methods.required
    returnTypes := ← returnTypes.required
    params := ← params.required
    locals := ← locals.required
    fields := ← declarations.required }

/-- The written form of a table of symbols. -/
def toJson (symbols : Symbols) : Json :=
  .object [("class_name", .string symbols.className),
    ("super_class", .ofOption .string symbols.superClass),
    ("imports", .ofList .string symbols.imports),
    ("methods", .ofList .string symbols.methods),
    ("return_types", .ofMap TypeName.toJson symbols.returnTypes),
    ("params", .ofMap (.ofList Declaration.toJson) symbols.params),
    ("locals", .ofMap (.ofList Declaration.toJson) symbols.locals),
    ("fields", .ofList Declaration.toJson symbols.fields)]

end Symbols

namespace Severity

/-- The word for a severity. -/
def word : Severity → String
  | .error => "error"
  | .warning => "warning"
  | .log => "log"

/-- The shape of a severity: its word. -/
def shape : Shape Severity :=
  .word ([Severity.error, .warning, .log].map fun severity =>
    (severity.word, severity))

end Severity

namespace Report

/-- The shape of a report. -/
def shape : Shape Report := fun place node => do
  let fields ← Fields.ofNode ["severity", "line", "column", "message"] place node
  let severity := fields.get "severity" Severity.shape
  let line := fields.get "line" .nat64
  let column := fields.get "column" .nat64
  let message := fields.get "message" .text
  fields.settle [severity.fault?, line.fault?, column.fault?, message.fault?]
  return {
    severity := ← severity.required
    line := ← line.withDefault 0
    column := ← column.withDefault 0
    message := ← message.required }

/-- The written form of a report. -/
def toJson (report : Report) : Json :=
  .object
    [("severity", .string report.severity.word), ("line", .nat report.line.toNat),
    ("column", .nat report.column.toNat), ("message", .string report.message)]

end Report

namespace TypedUnit

/-- The shape of a unit. -/
def shape : Shape TypedUnit := fun place node => do
  let fields ← Fields.ofNode ["program", "table", "reports"] place node
  let program := fields.get "program" Program.shape
  let symbols? := fields.get "table" (.optional Symbols.shape)
  let reports := fields.get "reports" (.list Report.shape)
  fields.settle [program.fault?, symbols?.fault?, reports.fault?]
  return {
    program := ← program.required
    symbols? := ← symbols?.withDefault none
    reports := ← reports.withDefault [] }

/-- The written form of a unit. -/
def toJson (unit : TypedUnit) : Json :=
  .object [("program", unit.program.toJson),
    ("table", .ofOption Symbols.toJson unit.symbols?),
    ("reports", .ofList Report.toJson unit.reports)]

/-- The unit that a text holds. -/
def parse (text : String) : Except Fault TypedUnit :=
  Json.parse shape text

end TypedUnit

namespace Options

/-- The shape of options. -/
def shape : Shape Options := fun place node => do
  let fields ← Fields.ofNode ["optimize", "registerAllocation"] place node
  let optimize := fields.get "optimize" .bool
  let registers := fields.get "registerAllocation" (.optional .int32)
  fields.settle [optimize.fault?, registers.fault?]
  return {
    optimize := ← optimize.withDefault false
    registers := ← registers.withDefault none }

/-- The written form of options. -/
def toJson (options : Options) : Json :=
  .object [("optimize", .bool options.optimize),
    ("registerAllocation",
      .ofOption (fun count => .int count.toInt) options.registers)]

/-- The options that a text holds. -/
def parse (text : String) : Except Fault Options :=
  Json.parse shape text

end Options

end MiniJava
