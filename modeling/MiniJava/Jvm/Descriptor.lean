import MiniJava.Code.Method
import MiniJava.Tree.Symbols

namespace MiniJava.Code

/-!
# Paths and descriptors

How classes, types and methods are named in assembly, as seen from one class.
Paths are separated by slashes.
-/

/-- A dotted path with slashes. -/
def slashed (path : String) : String :=
  String.ofList (path.toList.map fun character => if character = '.' then
    '/' else character)

/-- The path of the class that every other class extends. -/
def objectPath : String :=
  "java/lang/Object"

/-- The path of the class of strings. -/
def stringPath : String :=
  "java/lang/String"

namespace ClassCode

/--
The path of a class.

The class itself keeps its name, strings have their own path, an imported class
has the path of the first import that ends in its name, and any other name is
taken as a dotted path.
-/
def classPath (unit : ClassCode) (name : String) : String :=
  if name = unit.name then
    name
  else if name = "String" then
    stringPath
  else
    match unit.imports.find? (lastSegment · == name) with
    | some path => slashed path
    | none => slashed name

/-- The path of the parent class. -/
def superPath (unit : ClassCode) : String :=
  match unit.superClass with
  | some name => unit.classPath name
  | none => objectPath

/-- The descriptor of a type. -/
def descriptor (unit : ClassCode) : ValueType → String
  | .int => "I"
  | .boolean => "Z"
  | .void => "V"
  | .string => "L" ++ stringPath ++ ";"
  | .array item => "[" ++ unit.descriptor item
  | .object name => "L" ++ unit.classPath name ++ ";"

/-- The descriptor of a method. -/
def methodDescriptor
    (unit : ClassCode)
    (params : List ValueType)
    (result : ValueType) :
    String :=
  "(" ++ String.join (params.map unit.descriptor) ++ ")" ++ unit.descriptor result

end ClassCode

end MiniJava.Code
