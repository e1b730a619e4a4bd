import Std.Data.ExtTreeMap
import MiniJava.Tree.Basic

namespace MiniJava

/-!
# Symbols of a class

What the class declares, by method. The table may come with a program or be
collected from it. Methods are listed in order; where two share a name, the
later one's declarations hold for both.
-/

/-- The last part of a dotted path. -/
def lastSegment (path : String) : String :=
  String.ofList (path.toList.reverse.takeWhile (· ≠ '.')).reverse

/-- The declarations of a class. -/
structure Symbols where
  className : String
  superClass : Option String
  imports : List String
  methods : List String
  returnTypes : Std.ExtTreeMap String TypeName
  params : Std.ExtTreeMap String (List Declaration)
  locals : Std.ExtTreeMap String (List Declaration)
  fields : List Declaration

namespace Symbols

/-- The table with the declarations of one more method. -/
def addMethod (symbols : Symbols) (method : MethodDef) : Symbols :=
  { symbols with
    methods := symbols.methods ++ [method.name]
    returnTypes := symbols.returnTypes.insert method.name method.returnType
    params := symbols.params.insert method.name method.params
    locals := symbols.locals.insert method.name method.locals }

/-- The declarations of a program. -/
def ofProgram (program : Program) : Symbols :=
  program.mainClass.methods.foldl addMethod
    { className := program.mainClass.name
      superClass := program.mainClass.superClass
      imports := program.imports
      methods := []
      returnTypes := ∅
      params := ∅
      locals := ∅
      fields := program.mainClass.fields }

/-- Whether the class declares a method of this name. -/
def hasMethod (symbols : Symbols) (name : String) : Bool :=
  symbols.methods.any (· == name)

/-- The declared return type of a method. -/
def returnType? (symbols : Symbols) (method : String) : Option TypeName :=
  symbols.returnTypes[method]?

/-- The parameters of a method. -/
def paramsOf (symbols : Symbols) (method : String) : List Declaration :=
  symbols.params[method]?.getD []

/-- The declared locals of a method. -/
def localsOf (symbols : Symbols) (method : String) : List Declaration :=
  symbols.locals[method]?.getD []

/-- Whether a name is a declared local of a method. -/
def isLocal (symbols : Symbols) (method name : String) : Bool :=
  (symbols.localsOf method).any (·.name == name)

/-- Whether a name is a declared parameter of a method. -/
def isParam (symbols : Symbols) (method name : String) : Bool :=
  (symbols.paramsOf method).any (·.name == name)

/-- The field of this name; the first one holds. -/
def field? (symbols : Symbols) (name : String) : Option Declaration :=
  symbols.fields.find? (·.name == name)

/--
Whether a name means a field inside a method: locals and parameters shadow fields.
-/
def isField (symbols : Symbols) (method name : String) : Bool :=
  !symbols.isLocal method name &&
    !symbols.isParam method name &&
    symbols.fields.any (·.name == name)

/-- Whether a class name is the last part of an import. -/
def isImported (symbols : Symbols) (name : String) : Bool :=
  symbols.imports.any (lastSegment · == name)

end Symbols

end MiniJava
