import Std.Data.ExtTreeMap

namespace MiniJava

/-!
# The typed tree

A program is one class. Its expressions carry the types that were found for
them, and bodies are straight lines of statements: there are no branches.

Names of classes that come from an import are typed `imported`; what such a
class declares is not known.
-/

/-- A type as it is written: a name, or an array of what the name stands for. -/
structure TypeName where
  name : String
  isArray : Bool
  deriving DecidableEq

namespace TypeName

/-- The type of integers. -/
def int : TypeName :=
  ⟨"int", false⟩

/-- The type of arrays of integers. -/
def intArray : TypeName :=
  ⟨"int", true⟩

/-- The type of truth values. -/
def boolean : TypeName :=
  ⟨"boolean", false⟩

/-- The type of no value. -/
def void : TypeName :=
  ⟨"void", false⟩

/-- The type of arrays of strings. -/
def stringArray : TypeName :=
  ⟨"String", true⟩

/-- The type of objects of a class. -/
def ofClass (name : String) : TypeName :=
  ⟨name, false⟩

/-- The type of everything that is only known through an import. -/
def imported : TypeName :=
  ⟨"imported", false⟩

/-- Whether the type is only known through an import. -/
def isImported (type : TypeName) : Bool :=
  type.name == imported.name

/-- Whether the type is that of no value. -/
def isVoid (type : TypeName) : Bool :=
  type.name == void.name && !type.isArray

/-- The type as it is written in a program. -/
def text (type : TypeName) : String :=
  if type.isArray then type.name ++ "[]" else type.name

end TypeName

/-- A literal value. Integers have 32 bits. -/
inductive Literal where
  | int (value : Int32)
  | bool (value : Bool)
  deriving DecidableEq

/-- A binary operator. -/
inductive Operator where
  | add
  | sub
  | mul
  | div
  | less
  | and
  | or
  deriving DecidableEq

namespace Operator

/-- The sign of an operator. -/
def sign : Operator → String
  | .add => "+"
  | .sub => "-"
  | .mul => "*"
  | .div => "/"
  | .less => "<"
  | .and => "&&"
  | .or => "||"

/-- Every operator. -/
def all : List Operator :=
  [.add, .sub, .mul, .div, .less, .and, .or]

end Operator

/-- An expression with its types. -/
inductive Expr where
  | literal (value : Literal)
  | var (name : String) (type : TypeName)
  | receiver (type : TypeName)
  | binary (operator : Operator) (left right : Expr) (type : TypeName)
  | call (target : Expr) (method : String) (arguments : List Expr) (type : TypeName)
  | newObject (className : String) (type : TypeName)
  | newArray (size : Expr) (type : TypeName)
  | element (array index : Expr) (type : TypeName)
  | length (array : Expr) (type : TypeName)

namespace Expr

/-- The type of an expression. -/
def type : Expr → TypeName
  | .literal (.int _) => .int
  | .literal (.bool _) => .boolean
  | .var _ type => type
  | .receiver type => type
  | .binary _ _ _ type => type
  | .call _ _ _ type => type
  | .newObject _ type => type
  | .newArray _ type => type
  | .element _ _ type => type
  | .length _ type => type

/-- Whether the expression is a literal. -/
def isLiteral : Expr → Bool
  | .literal _ => true
  | _ => false

end Expr

/-- A statement. -/
inductive Stmt where
  /-- Assigns to a name of the given declared type. -/
  | assign (name : String) (type : TypeName) (value : Expr)
  /-- Evaluates an expression for its effects. -/
  | evaluate (value : Expr)
  | ret (value : Option Expr)

/-- A name with its type. -/
structure Declaration where
  name : String
  type : TypeName
  deriving DecidableEq

/-- A method with its body. -/
structure MethodDef where
  name : String
  isPublic : Bool := true
  isStatic : Bool := false
  returnType : TypeName
  params : List Declaration := []
  locals : List Declaration := []
  body : List Stmt := []

/-- A class with its members. -/
structure ClassDef where
  name : String
  superClass : Option String := none
  fields : List Declaration := []
  methods : List MethodDef := []

/-- A program: imported class paths and one class. -/
structure Program where
  imports : List String := []
  mainClass : ClassDef

namespace Program

/-- The program with every method body replaced. -/
def mapBodies (program : Program) (change : MethodDef → List Stmt) : Program :=
  { program with
    mainClass :=
      { program.mainClass with
        methods := program.mainClass.methods.map fun method =>
          { method with body := change method } } }

end Program

end MiniJava
