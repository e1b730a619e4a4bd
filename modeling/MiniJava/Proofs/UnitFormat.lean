import MiniJava.Proofs.JsonRecords
import MiniJava.Proofs.Semantics.Tree
import MiniJava.Tree.Format

namespace MiniJava

/-!
# The format of units

How each part of a unit may be spelled: which fields its object has, which of them
may be left out, and how each of them is spelled in turn. Statements are held
before they are read, so all numbers inside one must have finite approximations and
all strings must hold texts.

The written form of a unit is one of its spellings.
-/

open Json (Spelling FieldFormat GivesFields IsText IsBool IsInt IsOptional IsList
  IsMap IsRecord IsChoice)

/-! ## Spellings -/

/-- How a type is spelled. -/
def TypeName.SpelledBy (type : TypeName) : Spelling → Prop :=
  IsRecord
    [.required "name" (IsText type.name),
      .withDefault "is_array" (IsBool type.isArray) (type.isArray = false)]

/-- How an operator is spelled. -/
def Operator.SpelledBy (operator : Operator) : Spelling → Prop :=
  IsText operator.sign

namespace Expr

mutual

/-- How an expression is spelled. -/
def SpelledBy : Expr → Spelling → Prop
  | .literal (.int value) =>
      IsChoice "int_lit" [.required "value" (IsInt value.toInt)]
  | .literal (.bool value) => IsChoice "bool_lit" [.required "value" (IsBool value)]
  | .var name type =>
      IsChoice "var_ref"
        [.required "name" (IsText name),
          .required "ty" type.SpelledBy]
  | .receiver type => IsChoice "this" [.required "ty" type.SpelledBy]
  | .binary operator left right type =>
      IsChoice "binary"
        [.required "op" operator.SpelledBy,
          .required "left" (SpelledBy left),
          .required "right" (SpelledBy right),
          .required "ty" type.SpelledBy]
  | .call target method arguments type =>
      IsChoice "method_call"
        [.required "target" (SpelledBy target),
          .required "name" (IsText method),
          .withDefault "args" (AllSpelledBy arguments) (arguments = []),
          .required "ty" type.SpelledBy]
  | .newObject className type =>
      IsChoice "new_object"
        [.required "class_name" (IsText className),
          .required "ty" type.SpelledBy]
  | .newArray size type =>
      IsChoice "new_array"
        [.required "size" (SpelledBy size),
          .required "ty" type.SpelledBy]
  | .element array index type =>
      IsChoice "array_access"
        [.required "array" (SpelledBy array),
          .required "index" (SpelledBy index),
          .required "ty" type.SpelledBy]
  | .length array type =>
      IsChoice "length"
        [.required "array" (SpelledBy array),
          .required "ty" type.SpelledBy]

/-- How a list of expressions is spelled. -/
def AllSpelledBy : List Expr → Spelling → Prop
  | [], spelling => spelling = .array []
  | expr :: rest, spelling =>
      ∃ first others,
        spelling = .array (first :: others) ∧
          SpelledBy expr first ∧
          AllSpelledBy rest (.array others)

end

end Expr

namespace Stmt

/-- The members of the object for a statement. -/
def IsStmt : Stmt → Spelling → Prop
  | .assign name type value =>
      IsChoice "assign"
        [.required "name" (IsText name),
          .required "ty" type.SpelledBy,
          .required "value" value.SpelledBy]
  | .evaluate value => IsChoice "expr" [.required "expr" value.SpelledBy]
  | .ret value =>
      IsChoice "return"
        [.withDefault "value" (IsOptional Expr.SpelledBy value) (value = none)]

/-- How a statement is spelled. -/
def SpelledBy (stmt : Stmt) (spelling : Spelling) : Prop :=
  stmt.IsStmt spelling ∧ spelling.IsReadable

end Stmt

/-- How a declaration is spelled. -/
def Declaration.SpelledBy (declaration : Declaration) : Spelling → Prop :=
  IsRecord
    [.required "name" (IsText declaration.name),
      .required "ty" declaration.type.SpelledBy]

/-- How a method is spelled. -/
def MethodDef.SpelledBy (method : MethodDef) : Spelling → Prop :=
  IsRecord
    [.required "name" (IsText method.name),
      .withDefault "is_public" (IsBool method.isPublic) (method.isPublic = true),
      .withDefault "is_static" (IsBool method.isStatic) (method.isStatic = false),
      .required "return_type" method.returnType.SpelledBy,
      .withDefault "params" (IsList Declaration.SpelledBy method.params)
        (method.params = []),
      .withDefault "locals" (IsList Declaration.SpelledBy method.locals)
        (method.locals = []),
      .withDefault "body" (IsList Stmt.SpelledBy method.body) (method.body = [])]

/-- How a class is spelled. -/
def ClassDef.SpelledBy (definition : ClassDef) : Spelling → Prop :=
  IsRecord
    [.required "name" (IsText definition.name),
      .withDefault "super_class" (IsOptional IsText definition.superClass)
        (definition.superClass = none),
      .withDefault "fields" (IsList Declaration.SpelledBy definition.fields)
        (definition.fields = []),
      .withDefault "methods" (IsList MethodDef.SpelledBy definition.methods)
        (definition.methods = [])]

/-- How a program is spelled. -/
def Program.SpelledBy (program : Program) : Spelling → Prop :=
  IsRecord
    [.withDefault "imports" (IsList IsText program.imports) (program.imports = []),
      .required "class" program.mainClass.SpelledBy]

/-- How a table of symbols is spelled. -/
def Symbols.SpelledBy (symbols : Symbols) : Spelling → Prop :=
  IsRecord
    [.required "class_name" (IsText symbols.className),
      .withDefault "super_class" (IsOptional IsText symbols.superClass)
        (symbols.superClass = none),
      .required "imports" (IsList IsText symbols.imports),
      .required "methods" (IsList IsText symbols.methods),
      .required "return_types" (IsMap TypeName.SpelledBy symbols.returnTypes),
      .required "params" (IsMap (IsList Declaration.SpelledBy) symbols.params),
      .required "locals" (IsMap (IsList Declaration.SpelledBy) symbols.locals),
      .required "fields" (IsList Declaration.SpelledBy symbols.fields)]

/-- How a severity is spelled. -/
def Severity.SpelledBy (severity : Severity) : Spelling → Prop :=
  IsText severity.word

/-- How a report is spelled. -/
def Report.SpelledBy (report : Report) : Spelling → Prop :=
  IsRecord
    [.required "severity" report.severity.SpelledBy,
      .withDefault "line" (IsInt report.line.toNat) (report.line = 0),
      .withDefault "column" (IsInt report.column.toNat) (report.column = 0),
      .required "message" (IsText report.message)]

/-- How a unit is spelled. -/
def TypedUnit.SpelledBy (unit : TypedUnit) : Spelling → Prop :=
  IsRecord
    [.required "program" unit.program.SpelledBy,
      .withDefault "table" (IsOptional Symbols.SpelledBy unit.symbols?)
        (unit.symbols? = none),
      .withDefault "reports" (IsList Report.SpelledBy unit.reports)
        (unit.reports = [])]

/-! ## Written forms -/

namespace Json

variable {α : Type}
  {toJson : α → Json}
  {isSpelled : α → Spelling → Prop}

/-- A string is written as one of its spellings. -/
theorem isText_string
    (value : String) :
    IsText value (Json.string value).spelling :=
  ⟨_, rfl, StringText.content_ofString value⟩

/-- A list is written as one of its spellings. -/
theorem isList_ofList
    {values : List α}
    (written : ∀ value ∈ values, isSpelled value (toJson value).spelling) :
    IsList isSpelled values (ofList toJson values).spelling := by
  refine ⟨itemSpellings (values.map toJson), rfl, ?_⟩
  induction values with
  | nil => exact .nil
  | cons value rest hypothesis =>
      rw [List.forall_mem_cons] at written
      exact .cons written.1 (hypothesis written.2)

/-- A value that may be missing is written as one of its spellings. -/
theorem isOptional_ofOption
    (written : ∀ value, isSpelled value (toJson value).spelling)
    (value? : Option α) :
    IsOptional isSpelled value? (ofOption toJson value?).spelling := by
  cases value? with
  | none => rfl
  | some value => exact written value

/-- A table is written as one of its spellings. -/
theorem isMap_ofMap
    (written : ∀ value, isSpelled value (toJson value).spelling)
    (table : Std.ExtTreeMap String α) :
    IsMap isSpelled table (ofMap toJson table).spelling := by
  refine ⟨table.toList, _, rfl, .refl _, ?_⟩
  induction table.toList with
  | nil => exact .nil
  | cons entry rest hypothesis =>
      exact .cons ⟨StringText.content_ofString entry.1, written entry.2⟩ hypothesis

/-- What is written as null is readable. -/
@[simp]
theorem isReadable_null : Json.null.spelling.IsReadable := trivial

/-- What is written as a string is readable. -/
@[simp]
theorem isReadable_string
    (value : String) :
    (Json.string value).spelling.IsReadable :=
  ⟨value, StringText.content_ofString value⟩

/-- What is written as a truth value is readable. -/
@[simp]
theorem isReadable_bool
    (value : Bool) :
    (Json.bool value).spelling.IsReadable := trivial

/-- What is written as an integer of 32 bits is readable. -/
@[simp]
theorem isReadable_int32
    (value : Int32) :
    (Json.int value.toInt).spelling.IsReadable := by
  rw [spelling, Spelling.IsReadable, NumberText.value_int32]
  exact Number.noConfusion

/-- What is written as an array is readable if its items are. -/
@[simp]
theorem isReadable_array
    {items : List Json} :
    (Json.array items).spelling.IsReadable ↔
      ∀ item ∈ items, item.spelling.IsReadable := by
  rw [spelling, Spelling.IsReadable]
  induction items with
  | nil => simp [itemSpellings, Spelling.ItemsReadable]
  | cons item rest hypothesis =>
      rw [itemSpellings, Spelling.ItemsReadable, hypothesis, List.forall_mem_cons]

/-- An object with its keys as they are written is readable if its members are. -/
theorem isReadable_record
    {members : List (String × Spelling)} :
    (Spelling.record members).IsReadable ↔ ∀ member ∈ members,
      member.2.IsReadable := by
  rw [Spelling.record, Spelling.IsReadable, Spelling.membersReadable_iff,
    List.forall_mem_map]
  exact forall₂_congr fun member _ =>
    and_iff_right ⟨member.1, StringText.content_ofString member.1⟩

/-- What is written as an object is readable if its members are. -/
@[simp]
theorem isReadable_object
    {members : List (String × Json)} :
    (Json.object members).spelling.IsReadable ↔
      ∀ member ∈ members, member.2.spelling.IsReadable := by
  rw [spelling, isReadable_record]
  induction members with
  | nil => simp [memberSpellings]
  | cons member rest hypothesis =>
      rw [memberSpellings, List.forall_mem_cons, hypothesis, List.forall_mem_cons]

/-- A field that has to be given as a text is given as it is written. -/
theorem GivesFields.text
    {name value : String}
    {fields : List FieldFormat}
    {members : List (String × Spelling)}
    (gives : GivesFields fields members) :
    GivesFields (.required name (IsText value) :: fields)
      ((name, .ofText value) :: members) :=
  .given (isText_string value) gives

/-- Members that give all fields are a record. -/
theorem isRecord_of_given
    {fields : List FieldFormat}
    {members : List (String × Spelling)}
    (gives : GivesFields fields members) :
    IsRecord fields (.record members) :=
  ⟨_, members, rfl, .ofString members, members, [], gives, List.forall_mem_nil _,
    by rw [List.append_nil]⟩

end Json

open Json (isRecord_of_given isText_string isList_ofList isOptional_ofOption
  isMap_ofMap)

/-- A type is written as one of its spellings. -/
theorem TypeName.spelledBy_toJson
    (type : TypeName) :
    type.SpelledBy type.toJson.spelling :=
  isRecord_of_given (.text (.given rfl .nil))

/-- What is written as a type is readable. -/
theorem TypeName.isReadable_toJson
    (type : TypeName) :
    type.toJson.spelling.IsReadable := by
  simp [toJson]

namespace Expr

/-- Expressions are spelled as a list of them. -/
theorem allSpelledBy_iff
    {exprs : List Expr}
    {spelling : Spelling} :
    AllSpelledBy exprs spelling ↔ IsList SpelledBy exprs spelling := by
  induction exprs generalizing spelling with
  | nil =>
      constructor
      · rintro rfl
        exact ⟨[], rfl, .nil⟩
      · rintro ⟨_, rfl, ⟨⟩⟩
        rfl
  | cons expr rest hypothesis =>
      constructor
      · rintro ⟨first, others, rfl, spelled, spelledRest⟩
        obtain ⟨_, ⟨⟩, areSpelled⟩ := hypothesis.mp spelledRest
        exact ⟨_, rfl, .cons spelled areSpelled⟩
      · rintro ⟨_, rfl, spelled⟩
        cases spelled with
        | cons spelled areSpelled =>
            exact ⟨_, _, rfl, spelled, hypothesis.mpr ⟨_, rfl, areSpelled⟩⟩

/-- Expressions are written one by one. -/
theorem listJson_eq_map
    (exprs : List Expr) :
    listJson exprs = exprs.map toJson := by
  induction exprs with
  | nil => rfl
  | cons expr rest hypothesis => rw [listJson, hypothesis, List.map_cons]

/-- An expression is written as one of its spellings. -/
theorem spelledBy_toJson
    (expr : Expr) :
    expr.SpelledBy expr.toJson.spelling := by
  induction expr with
  | literal value =>
      cases value with
      | int value => exact isRecord_of_given (.text (.given rfl .nil))
      | bool value => exact isRecord_of_given (.text (.given rfl .nil))
  | var name type =>
      exact isRecord_of_given (.text (.text (.given type.spelledBy_toJson .nil)))
  | receiver type =>
      exact isRecord_of_given (.text (.given type.spelledBy_toJson .nil))
  | binary operator left right type spelledLeft spelledRight =>
      exact isRecord_of_given
        (.text (.text (.given spelledLeft (.given spelledRight
          (.given type.spelledBy_toJson .nil)))))
  | call target method arguments type spelledTarget spelledArguments =>
      have written :
          AllSpelledBy arguments (Json.array (listJson arguments)).spelling := by
        rw [allSpelledBy_iff, listJson_eq_map]
        exact isList_ofList spelledArguments
      exact isRecord_of_given
        (.text (.given spelledTarget (.text (.given written
          (.given type.spelledBy_toJson .nil)))))
  | newObject className type =>
      exact isRecord_of_given (.text (.text (.given type.spelledBy_toJson .nil)))
  | newArray size type spelledSize =>
      exact isRecord_of_given
        (.text (.given spelledSize (.given type.spelledBy_toJson .nil)))
  | element array index type spelledArray spelledIndex =>
      exact isRecord_of_given
        (.text (.given spelledArray (.given spelledIndex
          (.given type.spelledBy_toJson .nil))))
  | length array type spelledArray =>
      exact isRecord_of_given
        (.text (.given spelledArray (.given type.spelledBy_toJson .nil)))

/-- What is written as an expression is readable. -/
theorem isReadable_toJson
    (expr : Expr) :
    expr.toJson.spelling.IsReadable := by
  induction expr with
  | literal value => cases value <;> simp [toJson, literalJson]
  | var name type => simp [toJson, type.isReadable_toJson]
  | receiver type => simp [toJson, type.isReadable_toJson]
  | binary operator left right type readableLeft readableRight =>
      simp [toJson, Operator.toJson, readableLeft, readableRight,
        type.isReadable_toJson]
  | call target method arguments type readableTarget readableArguments =>
      simpa [toJson, listJson_eq_map, readableTarget, type.isReadable_toJson]
        using readableArguments
  | newObject className type => simp [toJson, type.isReadable_toJson]
  | newArray size type readableSize =>
      simp [toJson, readableSize, type.isReadable_toJson]
  | element array index type readableArray readableIndex =>
      simp [toJson, readableArray, readableIndex, type.isReadable_toJson]
  | length array type readableArray =>
      simp [toJson, readableArray, type.isReadable_toJson]

end Expr

/-- A statement is written as one of its spellings. -/
theorem Stmt.spelledBy_toJson
    (stmt : Stmt) :
    stmt.SpelledBy stmt.toJson.spelling := by
  cases stmt with
  | assign name type value =>
      refine ⟨isRecord_of_given
        (.text (.text (.given type.spelledBy_toJson
          (.given value.spelledBy_toJson .nil)))), ?_⟩
      simp [toJson, type.isReadable_toJson, value.isReadable_toJson]
  | evaluate value =>
      refine ⟨isRecord_of_given (.text (.given value.spelledBy_toJson .nil)), ?_⟩
      simp [toJson, value.isReadable_toJson]
  | ret value =>
      refine ⟨isRecord_of_given
        (.text (.given (isOptional_ofOption Expr.spelledBy_toJson value) .nil)), ?_⟩
      cases value with
      | none => simp [toJson, Json.ofOption]
      | some value => simp [toJson, Json.ofOption, value.isReadable_toJson]

/-- A declaration is written as one of its spellings. -/
theorem Declaration.spelledBy_toJson
    (declaration : Declaration) :
    declaration.SpelledBy declaration.toJson.spelling :=
  isRecord_of_given (.text (.given declaration.type.spelledBy_toJson .nil))

/-- A method is written as one of its spellings. -/
theorem MethodDef.spelledBy_toJson
    (method : MethodDef) :
    method.SpelledBy method.toJson.spelling :=
  isRecord_of_given
    (.text
      (.given rfl
        (.given rfl
          (.given method.returnType.spelledBy_toJson
            (.given (isList_ofList fun param _ => param.spelledBy_toJson)
              (.given
                (isList_ofList fun declaration _ => declaration.spelledBy_toJson)
                (.given (isList_ofList fun stmt _ => stmt.spelledBy_toJson)
                  .nil)))))))

/-- A class is written as one of its spellings. -/
theorem ClassDef.spelledBy_toJson
    (definition : ClassDef) :
    definition.SpelledBy definition.toJson.spelling :=
  isRecord_of_given
    (.text
      (.given (isOptional_ofOption isText_string _)
        (.given (isList_ofList fun field _ => field.spelledBy_toJson)
          (.given (isList_ofList fun method _ => method.spelledBy_toJson) .nil))))

/-- A program is written as one of its spellings. -/
theorem Program.spelledBy_toJson
    (program : Program) :
    program.SpelledBy program.toJson.spelling :=
  isRecord_of_given
    (.given (isList_ofList fun text _ => isText_string text)
      (.given program.mainClass.spelledBy_toJson .nil))

/-- A table of symbols is written as one of its spellings. -/
theorem Symbols.spelledBy_toJson
    (symbols : Symbols) :
    symbols.SpelledBy symbols.toJson.spelling := by
  have declarations :
      ∀ declarations : List Declaration,
        IsList Declaration.SpelledBy declarations
          (Json.ofList Declaration.toJson declarations).spelling :=
    fun declarations => isList_ofList fun declaration _ =>
      declaration.spelledBy_toJson
  exact isRecord_of_given
    (.text
      (.given (isOptional_ofOption isText_string _)
        (.given (isList_ofList fun text _ => isText_string text)
          (.given (isList_ofList fun text _ => isText_string text)
            (.given (isMap_ofMap TypeName.spelledBy_toJson _)
              (.given (isMap_ofMap declarations _)
                (.given (isMap_ofMap declarations _)
                  (.given (declarations _) .nil))))))))

/-- A report is written as one of its spellings. -/
theorem Report.spelledBy_toJson
    (report : Report) :
    report.SpelledBy report.toJson.spelling :=
  isRecord_of_given (.text (.given rfl (.given rfl (.text .nil))))

/-- The written form of a unit is one of its spellings. -/
theorem TypedUnit.spelledBy_toJson
    (unit : TypedUnit) :
    unit.SpelledBy unit.toJson.spelling :=
  isRecord_of_given
    (.given unit.program.spelledBy_toJson
      (.given (isOptional_ofOption Symbols.spelledBy_toJson _)
        (.given (isList_ofList fun report _ => report.spelledBy_toJson) .nil)))

end MiniJava
