import MiniJava.Proofs.EmittedCode
import MiniJava.Proofs.InstructionReader

namespace MiniJava

/-!
# Emitted instructions can be read back

If the names of a class are free of whitespace, slashes, parentheses and
semicolons, then so are the operands of its instructions, but for the slashes
and semicolons of paths and descriptors. A descriptor falls apart into
parameters in one way, so that it has as many as the call has arguments. Every
emitted instruction is therefore read back from its line, if its descriptor is one
of values and its slot has at most 16 bits.

An array of no values has a descriptor that the grammar does not know, and a call
may have it as its result.
-/

open Code (Operand ValueType CallKind Method ClassCode)
open Jvm (IsWord IsMember words readLine lineEffect? Push)
open Jvm.Descriptor (Expected isField isResult parameters shape?)

/-- A name that has none of the characters that separate names. -/
structure IsClean (name : String) : Prop where
  isWord : IsWord name
  noSlash : '/' ∉ name.toList
  noOpening : '(' ∉ name.toList
  noClosing : ')' ∉ name.toList
  noSemicolon : ';' ∉ name.toList

instance (name : String) : Decidable (IsClean name) :=
  decidable_of_iff
    (IsWord name ∧ '/' ∉ name.toList ∧ '(' ∉ name.toList ∧ ')' ∉ name.toList ∧
      ';' ∉ name.toList)
    ⟨fun each => ⟨each.1, each.2.1, each.2.2.1, each.2.2.2.1, each.2.2.2.2⟩,
      fun clean =>
        ⟨clean.isWord, clean.noSlash, clean.noOpening, clean.noClosing,
          clean.noSemicolon⟩⟩

namespace Code

/-- The names of the classes in a type. -/
def ValueType.classNames : ValueType → List String
  | .array item => item.classNames
  | .object name => [name]
  | _ => []

/-- Whether a type is that of no value, or an array of such. -/
def ValueType.involvesVoid : ValueType → Bool
  | .void => true
  | .array item => item.involvesVoid
  | _ => false

/-- The names in an operand. -/
def Operand.names (operand : Operand) : List String :=
  operand.name?.toList ++ operand.type.classNames

/-- The names in an instruction. -/
def Instr.names : Instr → List String
  | .assign dest type value => dest.names ++ type.classNames ++ value.names
  | .single operand => operand.names
  | .binary _ left right type => left.names ++ right.names ++ type.classNames
  | .ret type value => type.classNames ++ value.toList.flatMap Operand.names
  | .call _ target method arguments result =>
      method :: target.names ++ arguments.flatMap Operand.names ++ result.classNames
  | .newObject className type => className :: type.classNames
  | .newArray size type => size.names ++ type.classNames
  | .element array index type => array.names ++ index.names ++ type.classNames
  | .length array type => array.names ++ type.classNames
  | .getField object field => field.name :: object.names ++ field.type.classNames
  | .putField object field value =>
      field.name :: object.names ++ field.type.classNames ++ value.names

namespace ClassCode

/-- The names in the head of a class and in the code of its methods. -/
def names (unit : ClassCode) : List String :=
  unit.name :: unit.superClass.toList ++ unit.imports ++
    unit.methods.flatMap fun method => method.instrs.flatMap Instr.names

/-- All arguments of calls have types of values. -/
def ArgumentsHaveValues (unit : ClassCode) : Prop :=
  ∀ method ∈ unit.methods, ∀ instr ∈ method.instrs, ∀ call ∈ instr.call?,
    ∀ argument ∈ call.arguments, argument.type.involvesVoid = false

instance (unit : ClassCode) : Decidable unit.ArgumentsHaveValues :=
  inferInstanceAs (Decidable (∀ method ∈ unit.methods, _))

end ClassCode

/-- The field that an instruction reads or writes. -/
def Instr.field? : Instr → Option FieldRef
  | .assign _ _ (.getField _ field) => some field
  | .putField _ field _ => some field
  | _ => none

/--
The types that an instruction describes are of values, but a call
may have no result.
-/
structure Instr.Describable (instr : Instr) : Prop where
  arguments :
    ∀ call ∈ instr.call?, ∀ argument ∈ call.arguments,
      argument.type.involvesVoid = false
  result :
    ∀ call ∈ instr.call?, call.result.isVoid = true ∨
      call.result.involvesVoid = false
  field : ∀ field ∈ instr.field?, field.type.involvesVoid = false

instance (instr : Instr) : Decidable instr.Describable :=
  decidable_of_iff
    ((∀ call ∈ instr.call?, ∀ argument ∈ call.arguments,
        argument.type.involvesVoid = false) ∧
      (∀ call ∈ instr.call?, call.result.isVoid = true ∨
        call.result.involvesVoid = false) ∧
        ∀ field ∈ instr.field?, field.type.involvesVoid = false)
    ⟨fun each => ⟨each.1, each.2.1, each.2.2⟩,
      fun describable =>
        ⟨describable.arguments, describable.result, describable.field⟩⟩

end Code

/--
The path of a class: a word that ends neither a parameter nor the path of a member.
-/
structure IsPath (path : String) : Prop where
  isWord : IsWord path
  noOpening : '(' ∉ path.toList
  noSemicolon : ';' ∉ path.toList

/-- A clean name is a path. -/
theorem IsClean.isPath
    {name : String}
    (clean : IsClean name) :
    IsPath name :=
  ⟨clean.isWord, clean.noOpening, clean.noSemicolon⟩

/-- Slashes for dots make a path of a clean name. -/
theorem IsClean.isPath_slashed
    {name : String}
    (clean : IsClean name) :
    IsPath (Code.slashed name) := by
  have isList :
      (Code.slashed name).toList =
        name.toList.map fun character => if character = '.' then
          '/' else character :=
    String.toList_ofList
  have only :
      ∀ character ∈ (Code.slashed name).toList, character = '/' ∨
        character ∈ name.toList := by
    rw [isList, List.forall_mem_map]
    intro character member
    split
    · exact .inl rfl
    · exact .inr member
  refine ⟨⟨?_, ?_⟩, ?_, ?_⟩
  · intro isEmpty
    rw [isEmpty] at isList
    exact clean.isWord.nonempty
      (String.toList_eq_nil_iff.mp (List.map_eq_nil_iff.mp isList.symm))
  · refine Jvm.isSolid_iff.mpr fun character member => ?_
    rcases only character member with rfl | inName
    · decide
    · exact Jvm.isSolid_iff.mp clean.isWord.solid character inName
  · intro member
    exact (only _ member).elim (by decide) clean.noOpening
  · intro member
    exact (only _ member).elim (by decide) clean.noSemicolon

/-- The path of strings is a path. -/
theorem isPath_stringPath :
    IsPath Code.stringPath :=
  ⟨by decide, by decide, by decide⟩

namespace Code.ClassCode

/-- The name and the imports of a class are clean. -/
structure IsCleanHead (unit : ClassCode) : Prop where
  name : IsClean unit.name
  imports : ∀ path ∈ unit.imports, IsClean path

variable {unit : ClassCode}

/-- The path of a class with a clean name is a path. -/
theorem IsCleanHead.isPath_classPath
    (head : unit.IsCleanHead)
    {name : String}
    (clean : IsClean name) :
    IsPath (unit.classPath name) := by
  unfold classPath
  split
  case isTrue => exact clean.isPath
  case isFalse =>
    split
    case isTrue => exact isPath_stringPath
    case isFalse =>
      split
      case h_1 path found =>
        exact (head.imports path (List.mem_of_find?_eq_some found)).isPath_slashed
      case h_2 => exact clean.isPath_slashed

/-- A descriptor is a word without parentheses. -/
theorem IsCleanHead.isWord_descriptor
    (head : unit.IsCleanHead)
    {type : ValueType}
    (clean : ∀ name ∈ type.classNames, IsClean name) :
    IsWord (unit.descriptor type) ∧ '(' ∉ (unit.descriptor type).toList := by
  have ofPath {path : String} (isPath : IsPath path) :
      IsWord ("L" ++ path ++ ";") ∧ '(' ∉ ("L" ++ path ++ ";").toList := by
    have letter : IsWord "L" := by decide
    exact ⟨(letter.append isPath.isWord.solid).append (by decide),
      by simpa using isPath.noOpening⟩
  induction type with
  | array item inductionHypothesis =>
      obtain ⟨isWord, noOpening⟩ := inductionHypothesis clean
      have bracket : IsWord "[" := by decide
      exact ⟨bracket.append isWord.solid, by simpa [descriptor] using noOpening⟩
  | object name =>
      exact ofPath (head.isPath_classPath (clean name List.mem_cons_self))
  | string => exact ofPath isPath_stringPath
  | _ =>
      rw [descriptor]
      exact ⟨by decide, by decide⟩

end Code.ClassCode

namespace Jvm.Descriptor

/-- The path of a class goes up to a semicolon. -/
theorem parameters_path
    {path : List Char}
    (noSemicolon : ';' ∉ path)
    (rest : List Char) :
    parameters .path (path ++ ';' :: rest) =
      (parameters .parameter rest).map oneMore := by
  induction path with
  | nil => rfl
  | cons letter path inductionHypothesis =>
      rw [List.mem_cons, not_or] at noSemicolon
      rw [List.cons_append, parameters, if_neg (Ne.symm noSemicolon.1)]
      exact inductionHypothesis noSemicolon.2

variable {expected : Expected}

/-- Outside of the path of a class, the next letter tells what comes. -/
theorem parameters_cons
    (notPath : expected ≠ .path)
    (letter : Char)
    (rest : List Char) :
    parameters expected (letter :: rest) =
      if letter = '[' then
        parameters .item rest
      else if letter = 'L' then
        if rest.head? = some ';' then none else parameters .path rest
      else if isBaseType letter then
        (parameters .parameter rest).map oneMore
      else if letter = ')' ∧ expected = .parameter then
        some (0, rest)
      else
        none := by
  cases expected with
  | path => exact absurd rfl notPath
  | parameter => rfl
  | item => rfl

/-- The descriptor of objects is read as one parameter. -/
theorem parameters_object
    (notPath : expected ≠ .path)
    {path : String}
    (isPath : IsPath path)
    (rest : List Char) :
    parameters expected (("L" ++ path ++ ";").toList ++ rest) =
      (parameters .parameter rest).map oneMore := by
  have isList :
      ("L" ++ path ++ ";").toList ++ rest =
        'L' :: (path.toList ++ ';' :: rest) := by
    simp
  have notEmpty : (path.toList ++ ';' :: rest).head? ≠ some ';' := by
    cases letters : path.toList with
    | nil =>
        exact absurd (String.toList_eq_nil_iff.mp letters) isPath.isWord.nonempty
    | cons letter others =>
        have noSemicolon := isPath.noSemicolon
        rw [letters] at noSemicolon
        rintro ⟨⟩
        exact noSemicolon List.mem_cons_self
  rw [isList, parameters_cons notPath, if_neg (by decide), if_pos rfl,
    if_neg notEmpty]
  exact parameters_path isPath.noSemicolon rest

/-- The descriptor of a type is read as one parameter. -/
theorem parameters_descriptor
    {unit : ClassCode}
    (head : unit.IsCleanHead)
    {type : ValueType}
    (clean : ∀ name ∈ type.classNames, IsClean name)
    (hasValues : type.involvesVoid = false)
    (notPath : expected ≠ .path)
    (rest : List Char) :
    parameters expected ((unit.descriptor type).toList ++ rest) =
      (parameters .parameter rest).map oneMore := by
  induction type generalizing expected with
  | int =>
      rw [ClassCode.descriptor]
      exact parameters_cons notPath 'I' rest
  | boolean =>
      rw [ClassCode.descriptor]
      exact parameters_cons notPath 'Z' rest
  | void => cases hasValues
  | string => exact parameters_object notPath isPath_stringPath rest
  | array item inductionHypothesis =>
      have isList :
          (unit.descriptor (.array item)).toList =
            '[' :: (unit.descriptor item).toList := by
        simp [ClassCode.descriptor]
      rw [isList, List.cons_append, parameters_cons notPath, if_pos rfl]
      exact inductionHypothesis clean hasValues (by decide)
  | object name =>
      exact parameters_object notPath
        (head.isPath_classPath (clean name List.mem_cons_self)) rest

/-- Descriptors one after the other are read as so many parameters. -/
theorem parameters_join
    {unit : ClassCode}
    (head : unit.IsCleanHead)
    {types : List ValueType}
    (clean : ∀ type ∈ types, ∀ name ∈ type.classNames, IsClean name)
    (haveValues : ∀ type ∈ types, type.involvesVoid = false)
    (result : List Char) :
    parameters .parameter
        ((String.join (types.map unit.descriptor)).toList ++ ')' :: result) =
      some (types.length, result) := by
  induction types with
  | nil => exact parameters_cons (by decide) ')' result
  | cons type rest inductionHypothesis =>
      rw [List.forall_mem_cons] at clean haveValues
      rw [List.map_cons, String.join_cons, String.toList_append, List.append_assoc,
        parameters_descriptor head clean.1 haveValues.1 (by decide),
        inductionHypothesis clean.2 haveValues.2]
      rfl

/-- The descriptor of a type of values is that of a field. -/
theorem isField_descriptor
    {unit : ClassCode}
    (head : unit.IsCleanHead)
    {type : ValueType}
    (clean : ∀ name ∈ type.classNames, IsClean name)
    (hasValues : type.involvesVoid = false) :
    isField (unit.descriptor type).toList = true := by
  have isParameter :=
    parameters_descriptor head clean hasValues
      (by decide : Expected.parameter ≠ .path) [')']
  rw [isField, isParameter]
  rfl

/-- Only that of no value is the descriptor of nothing. -/
theorem descriptor_eq_void_iff
    (unit : ClassCode)
    (type : ValueType) :
    (unit.descriptor type).toList = ['V'] ↔ type.isVoid = true := by
  cases type with
  | int => exact iff_of_false (by simp [ClassCode.descriptor]) Bool.false_ne_true
  | boolean =>
      exact iff_of_false (by simp [ClassCode.descriptor]) Bool.false_ne_true
  | void => exact iff_of_true (by simp [ClassCode.descriptor]) rfl
  | string => exact iff_of_false (by simp [ClassCode.descriptor]) Bool.false_ne_true
  | array item =>
      exact iff_of_false (by simp [ClassCode.descriptor]) Bool.false_ne_true
  | object name =>
      exact iff_of_false (by simp [ClassCode.descriptor]) Bool.false_ne_true

/--
The descriptor of a method tells its arguments and whether it returns a value.
-/
theorem shape?_methodDescriptor
    {unit : ClassCode}
    (head : unit.IsCleanHead)
    {types : List ValueType}
    {result : ValueType}
    (clean : ∀ type ∈ types, ∀ name ∈ type.classNames, IsClean name)
    (cleanResult : ∀ name ∈ result.classNames, IsClean name)
    (haveValues : ∀ type ∈ types, type.involvesVoid = false)
    (hasResult : result.isVoid = true ∨ result.involvesVoid = false) :
    shape? (unit.methodDescriptor types result).toList =
      some (types.length, !result.isVoid) := by
  have isList :
      (unit.methodDescriptor types result).toList =
        '(' :: ((String.join (types.map unit.descriptor)).toList ++
          ')' :: (unit.descriptor result).toList) := by
    simp [ClassCode.methodDescriptor]
  have describesResult : isResult (unit.descriptor result).toList = true := by
    rw [isResult, Bool.or_eq_true, decide_eq_true_eq]
    exact hasResult.imp (descriptor_eq_void_iff unit result).mpr
      (isField_descriptor head cleanResult)
  have isVoid : ((unit.descriptor result).toList != ['V']) = !result.isVoid := by
    have same := descriptor_eq_void_iff unit result
    cases returns : result.isVoid with
    | true => simp [same.mpr returns]
    | false =>
        rw [returns] at same
        simpa using same
  rw [isList, shape?, parameters_join head clean haveValues]
  simp [describesResult, isVoid]

end Jvm.Descriptor

namespace Code.ClassCode.IsCleanHead

variable {unit : ClassCode}

/-- The descriptor of a method is a word. -/
theorem isWord_methodDescriptor
    (head : unit.IsCleanHead)
    {types : List ValueType}
    {result : ValueType}
    (clean : ∀ type ∈ types, ∀ name ∈ type.classNames, IsClean name)
    (cleanResult : ∀ name ∈ result.classNames, IsClean name) :
    IsWord (unit.methodDescriptor types result) := by
  have opening : IsWord "(" := by decide
  refine ((opening.append ?_).append (by decide)).append
    (head.isWord_descriptor cleanResult).1.solid
  rw [Jvm.isSolid_iff, String.toList_join, List.flatMap_map]
  intro character member
  obtain ⟨type, isType, inDescriptor⟩ := List.mem_flatMap.mp member
  have isWord := (head.isWord_descriptor (clean type isType)).1
  exact Jvm.isSolid_iff.mp isWord.solid character inDescriptor

/-- The owner of a method that is called on a value of a type. -/
theorem isWord_ownerPath
    (head : unit.IsCleanHead)
    {type : ValueType}
    (clean : ∀ name ∈ type.classNames, IsClean name) :
    IsWord (Jvm.ownerPath unit type) ∧ '(' ∉ (Jvm.ownerPath unit type).toList := by
  cases type with
  | object name =>
      have isPath := head.isPath_classPath (clean name List.mem_cons_self)
      exact ⟨isPath.isWord, isPath.noOpening⟩
  | string => exact ⟨isPath_stringPath.isWord, isPath_stringPath.noOpening⟩
  | _ => exact head.isWord_descriptor clean

end Code.ClassCode.IsCleanHead

namespace Assembly

variable {unit : ClassCode}

/-- What pushes an operand is separable. -/
theorem separable_pushed
    (slot : String → Nat)
    (operand : Operand) :
    (pushed slot operand).Separable := by
  cases operand <;> trivial

/--
A call is separable if its names are clean and its descriptor is one of values.
-/
theorem separable_invocation
    (head : unit.IsCleanHead)
    {call : Code.Call}
    (clean :
      ∀ name ∈ (Code.Instr.call call.kind call.target call.method call.arguments
        call.result).names, IsClean name)
    (haveValues : ∀ argument ∈ call.arguments, argument.type.involvesVoid = false)
    (hasResult : call.result.isVoid = true ∨ call.result.involvesVoid = false) :
    (invocation unit call).Separable := by
  simp only [Code.Instr.names, List.cons_append, List.forall_mem_cons,
    List.forall_mem_append] at clean
  obtain ⟨cleanMethod, ⟨cleanTarget, cleanArguments⟩, cleanResult⟩ := clean
  rw [Operand.names, List.forall_mem_append] at cleanTarget
  have cleanTypes :
      ∀ type ∈ call.arguments.map Operand.type, ∀ name ∈ type.classNames,
        IsClean name := by
    rw [List.forall_mem_map]
    intro argument member name isName
    exact cleanArguments name
      (List.mem_flatMap.mpr ⟨argument, member, List.mem_append_right _ isName⟩)
  have haveValues :
      ∀ type ∈ call.arguments.map Operand.type, type.involvesVoid = false :=
    List.forall_mem_map.mpr haveValues
  have isOwner : IsWord (callee unit call) ∧ '(' ∉ (callee unit call).toList := by
    unfold callee
    split
    case h_1 name type _ isTarget =>
      have isPath :=
        head.isPath_classPath
          (cleanTarget.1 name (by simp [isTarget, Operand.name?]))
      exact ⟨isPath.isWord, isPath.noOpening⟩
    case h_2 => exact head.isWord_ownerPath cleanTarget.2
  have isShape :=
    Jvm.Descriptor.shape?_methodDescriptor head cleanTypes cleanResult haveValues
      hasResult
  rw [List.length_map] at isShape
  exact ⟨⟨isOwner.1, cleanMethod.isWord, cleanMethod.noSlash⟩, isOwner.2,
    cleanMethod.noOpening, head.isWord_methodDescriptor cleanTypes cleanResult,
    isShape⟩

/-- A label is a word if its stem is. -/
theorem isWord_labelOf
    {stem : String}
    (isStem : IsWord stem)
    (number : Nat) :
    IsWord (labelOf stem number) :=
  (isStem.append (by decide)).append (Jvm.isWord_ofNat number).solid

/-- The code of an operator is separable. -/
theorem separable_operation
    (number : Nat)
    (operator : Operator) :
    ∀ instr ∈ operation number operator, instr.Separable := by
  have isTrue : IsWord "cmp_true" := by decide
  have isEnd : IsWord "cmp_end" := by decide
  have onTrue := isWord_labelOf isTrue number
  have done := isWord_labelOf isEnd (number + 1)
  cases operator with
  | less => simp [operation, comparison, Jvm.Instr.Separable, onTrue, done]
  | _ => simp [operation, Jvm.Instr.Separable]

/-- What creates an array is separable. -/
theorem separable_arrayCreation
    (head : unit.IsCleanHead)
    {type : ValueType}
    (clean : ∀ name ∈ type.classNames, IsClean name)
    {creation : Jvm.Instr}
    (created : Emit.arrayCreation unit type = .ok creation) :
    creation.Separable := by
  unfold Emit.arrayCreation at created
  split at created
  case h_3 =>
    cases created
    exact isPath_stringPath.isWord
  case h_4 name =>
    cases created
    exact (head.isPath_classPath (clean name List.mem_cons_self)).isWord
  all_goals cases created
  all_goals trivial

/-- The code of a call is separable. -/
theorem separable_callCode
    (head : unit.IsCleanHead)
    (slot : String → Nat)
    {call : Code.Call}
    (clean :
      ∀ name ∈ (Code.Instr.call call.kind call.target call.method call.arguments
        call.result).names, IsClean name)
    (haveValues : ∀ argument ∈ call.arguments, argument.type.involvesVoid = false)
    (hasResult : call.result.isVoid = true ∨ call.result.involvesVoid = false) :
    ∀ instr ∈ callCode unit slot call, instr.Separable := by
  rw [callCode, List.forall_mem_append, List.forall_mem_append, List.forall_mem_map,
    List.forall_mem_singleton]
  refine ⟨⟨?_, fun argument _ => separable_pushed slot argument⟩,
    separable_invocation head clean haveValues hasResult⟩
  split
  · exact List.forall_mem_nil _
  · exact List.forall_mem_singleton.mpr (separable_pushed slot call.target)

/-- A field of values has a member and a descriptor that can be separated. -/
theorem separable_field
    (head : unit.IsCleanHead)
    {field : Code.FieldRef}
    (cleanName : IsClean field.name)
    (cleanType : ∀ name ∈ field.type.classNames, IsClean name)
    (hasValues : field.type.involvesVoid = false) :
    IsMember unit.name field.name ∧
      IsWord (unit.descriptor field.type) ∧
        isField (unit.descriptor field.type).toList = true :=
  ⟨⟨head.name.isWord, cleanName.isWord, cleanName.noSlash⟩,
    (head.isWord_descriptor cleanType).1,
    Jvm.Descriptor.isField_descriptor head cleanType hasValues⟩

/-- The code of the value of an assignment is separable. -/
theorem separable_valueCode
    (head : unit.IsCleanHead)
    (slot : String → Nat)
    (number : Nat)
    {dest : Operand}
    {type : ValueType}
    {source : Code.Instr}
    (clean : ∀ name ∈ source.names, IsClean name)
    (describable : (Code.Instr.assign dest type source).Describable) :
    ∀ instr ∈ valueCode unit slot number source, instr.Separable := by
  cases source with
  | single operand =>
      exact List.forall_mem_singleton.mpr (separable_pushed slot operand)
  | binary operator left right type =>
      rw [valueCode, List.forall_mem_append, List.forall_mem_cons,
        List.forall_mem_singleton]
      exact ⟨⟨separable_pushed slot left, separable_pushed slot right⟩,
        separable_operation number operator⟩
  | call kind target method arguments result =>
      exact separable_callCode head slot clean (describable.arguments _ rfl)
        (describable.result _ rfl)
  | newObject className annotated =>
      rw [Code.Instr.names, List.forall_mem_cons] at clean
      exact List.forall_mem_singleton.mpr (head.isPath_classPath clean.1).isWord
  | newArray size type =>
      rw [Code.Instr.names, List.forall_mem_append] at clean
      rw [valueCode, List.forall_mem_cons]
      refine ⟨separable_pushed slot size, fun creation member => ?_⟩
      cases created : Emit.arrayCreation unit type with
      | error error =>
          rw [created] at member
          cases member
      | ok made =>
          rw [created] at member
          obtain rfl := List.mem_singleton.mp member
          exact separable_arrayCreation head clean.2 created
  | getField object field =>
      rw [Code.Instr.names, List.cons_append, List.forall_mem_cons,
        List.forall_mem_append] at clean
      rw [valueCode, List.forall_mem_cons, List.forall_mem_singleton]
      exact ⟨separable_pushed slot object,
        separable_field head clean.1 clean.2.2 (describable.field _ rfl)⟩
  | _ => exact List.forall_mem_nil _

/-- What is emitted for an instruction with clean names is separable. -/
theorem separable_instrCode
    (head : unit.IsCleanHead)
    (slot : String → Nat)
    (number : Nat)
    {source : Code.Instr}
    (clean : ∀ name ∈ source.names, IsClean name)
    (describable : source.Describable) :
    ∀ instr ∈ instrCode unit slot number source, instr.Separable := by
  cases source with
  | assign dest type value =>
      rw [Code.Instr.names, List.forall_mem_append] at clean
      rw [instrCode, List.forall_mem_append]
      refine ⟨separable_valueCode head slot number clean.2 describable, ?_⟩
      cases dest with
      | literal number type => exact List.forall_mem_nil _
      | var name type => exact List.forall_mem_singleton.mpr trivial
  | call kind target method arguments result =>
      rw [instrCode, List.forall_mem_append]
      refine ⟨separable_callCode head slot clean (describable.arguments _ rfl)
        (describable.result _ rfl), ?_⟩
      split
      · exact List.forall_mem_nil _
      · exact List.forall_mem_singleton.mpr trivial
  | putField object field value =>
      rw [Code.Instr.names, List.cons_append, List.cons_append,
        List.forall_mem_cons, List.forall_mem_append, List.forall_mem_append]
        at clean
      rw [instrCode, List.forall_mem_cons, List.forall_mem_cons,
        List.forall_mem_singleton]
      exact ⟨separable_pushed slot object, separable_pushed slot value,
        separable_field head clean.1 clean.2.1.2 (describable.field _ rfl)⟩
  | ret type result =>
      cases result with
      | none => exact List.forall_mem_singleton.mpr trivial
      | some operand =>
          rw [instrCode, List.forall_mem_cons, List.forall_mem_singleton]
          exact ⟨separable_pushed slot operand, trivial⟩
  | _ => exact List.forall_mem_nil _

/-- What is emitted in a body is emitted for one of its instructions. -/
theorem exists_of_mem_bodyCode
    {slot : String → Nat}
    {number : Nat}
    {source : List Code.Instr}
    {instr : Jvm.Instr}
    (member : instr ∈ bodyCode unit slot number source) :
    ∃ first ∈ source, ∃ number, instr ∈ instrCode unit slot number first := by
  induction source generalizing number with
  | nil => cases member
  | cons first rest inductionHypothesis =>
      rcases List.mem_append.mp member with here | later
      · exact ⟨first, List.mem_cons_self, number, here⟩
      · obtain ⟨other, isOther, emitted⟩ := inductionHypothesis later
        exact ⟨other, List.mem_cons_of_mem _ isOther, emitted⟩

/-- Code behind the head of a class is in the body of a method. -/
theorem exists_of_mem_methodBlocks
    {methods : List Method}
    {number : Nat}
    {instr : Jvm.Instr}
    (member : Line.code instr ∈ methodBlocks unit number methods) :
    ∃ method ∈ methods, ∃ number,
      instr ∈ bodyCode unit (slotIn method) number method.instrs := by
  induction methods generalizing number with
  | nil => cases member
  | cons first rest inductionHypothesis =>
      rcases List.mem_append.mp member with here | later
      · refine ⟨first, List.mem_cons_self, number, ?_⟩
        simpa [methodBlock, methodLines] using here
      · obtain ⟨method, isMethod, emitted⟩ := inductionHypothesis later
        exact ⟨method, List.mem_cons_of_mem _ isMethod, emitted⟩

/-- The operands of all emitted instructions are free of what separates them. -/
theorem separable_of_generate
    {lines : List Line}
    (generated : generate unit = .ok lines)
    (clean : ∀ name ∈ unit.names, IsClean name)
    (describable :
      ∀ method ∈ unit.methods, ∀ instr ∈ method.instrs, instr.Describable)
    {instr : Jvm.Instr}
    (member : Line.code instr ∈ lines) :
    instr.Separable := by
  rw [ClassCode.names, List.cons_append, List.cons_append, List.forall_mem_cons,
    List.forall_mem_append, List.forall_mem_append] at clean
  obtain ⟨cleanName, ⟨cleanSuper, cleanImports⟩, cleanCode⟩ := clean
  have head : unit.IsCleanHead := ⟨cleanName, cleanImports⟩
  rw [generate_emits generated, List.mem_append] at member
  rcases member with inHead | inMethods
  · have isSuper : IsPath unit.superPath := by
      unfold ClassCode.superPath
      split
      case h_1 name isName =>
        exact head.isPath_classPath (cleanSuper name (by simp [isName]))
      case h_2 => exact ⟨by decide, by decide, by decide⟩
    have isConstructor : IsWord Code.constructorName := by decide
    have isOneOf :
        instr = .load .reference 0 ∨
          instr = .invoke .special unit.superPath Code.constructorName "()V"
            0 false ∨
            instr = .ret none := by
      simpa [classLines] using inHead
    rcases isOneOf with rfl | rfl | rfl
    · trivial
    · exact ⟨⟨isSuper.isWord, isConstructor, by decide⟩, isSuper.noOpening,
        by decide, by decide, by decide⟩
    · trivial
  · obtain ⟨method, isMethod, number, inBody⟩ :=
      exists_of_mem_methodBlocks inMethods
    obtain ⟨source, isSource, first, emitted⟩ := exists_of_mem_bodyCode inBody
    refine separable_instrCode head (slotIn method) first (fun name isName => ?_)
      (describable method isMethod source isSource) instr emitted
    exact cleanCode name (List.mem_flatMap.mpr ⟨method, isMethod,
      List.mem_flatMap.mpr ⟨source, isSource, isName⟩⟩)

/-- The blanks before an instruction separate no words. -/
theorem words_line
    (instr : Jvm.Instr) :
    words (Line.code instr).text = words instr.text := by
  rw [Line.text]
  split
  case isTrue => rfl
  case isFalse =>
    have isLine : Line.indentation ++ instr.text = "   " ++ " " ++ instr.text := rfl
    have isBlank : words "   " = [] := by decide
    rw [isLine, Jvm.words_append_blank, isBlank, List.nil_append]

/--
If the names of a class are clean and its calls and fields are described by types of
values, every instruction that is emitted for it is read back from its line, unless
its slot has more than 16 bits. Its effect on the stack is the one that the line
tells. A constant is pushed by a mnemonic that has it within its bounds.
-/
theorem emitted_lines_read_back
    {unit : ClassCode}
    {lines : List Line}
    (generated : generate unit = .ok lines)
    (clean : ∀ name ∈ unit.names, IsClean name)
    (describable :
      ∀ method ∈ unit.methods, ∀ instr ∈ method.instrs, instr.Describable) :
    ∀ instr,
      Line.code instr ∈ lines →
      (∀ slot, instr.slot? = some slot → slot ≤ 65535) →
      readLine (Line.code instr).text = some instr ∧
        lineEffect? (Line.code instr).text = some instr.stackEffect ∧
          ∀ value, instr = .const value →
            ∃ push : Push,
              (push.low ≤ value.toInt ∧ value.toInt ≤ push.high) ∧
                instr.text = push.text value.toInt := by
  intro instr member inBound
  have spells :=
    (separable_of_generate generated clean describable member).spells inBound
  rw [readLine, lineEffect?, words_line]
  refine ⟨spells.read, spells.effect, ?_⟩
  rintro value rfl
  exact Push.exists_constText_eq value

/--
A method that compares, calls with an array of imported objects, and sets a field.
-/
private def posting : Method where
  name := "post"
  isStatic := false
  params := [.var "n" .int, .var "items" (.array (.object "Item"))]
  returnType := .void
  instrs :=
    [.store (.var "less" .boolean)
      (.binary .less (.var "n" .int) (.int 70000) .boolean),
      .store (.var "sum" .int)
        (.call .virtual (.receiver "A") "put"
          [.var "n" .int, .var "items" (.array (.object "Item")),
            .var "less" .boolean] .int),
      .call .static (.classRef "Item") "show" [.var "sum" .int] .void,
      .putField (.receiver "A") ⟨"last", .object "Item"⟩ (.int (-1)),
      .ret .void none]
  table :=
    (((((∅ : Code.VariableTable).insert "this" ⟨.object "A", .receiver, 0⟩).insert
      "n" ⟨.int, .param, 1⟩).insert "items"
      ⟨.array (.object "Item"), .param, 2⟩).insert
      "less" ⟨.boolean, .localVar, 3⟩).insert "sum" ⟨.int, .localVar, 4⟩

/-- A class with the method. -/
private def postingUnit : ClassCode where
  name := "A"
  superClass := some "Base"
  imports := ["shop.Item"]
  methods := [posting]

/--
A call with three arguments is read back, and pops its receiver and
them for one value.
-/
theorem emitted_lines_read_back_posting :
    ∃ lines,
      generate postingUnit = .ok lines ∧
        (∀ name ∈ postingUnit.names, IsClean name) ∧
          (∀ method ∈ postingUnit.methods, ∀ instr ∈ method.instrs,
            instr.Describable) ∧
            readLine "    invokevirtual A/put(I[Lshop/Item;Z)I" =
                some (.invoke .virtual "A" "put" "(I[Lshop/Item;Z)I" 3 true) ∧
              lineEffect? "    invokevirtual A/put(I[Lshop/Item;Z)I" =
                some (-3) := by
  have clean : ∀ name ∈ postingUnit.names, IsClean name := by
    decide
  have describable :
      ∀ method ∈ postingUnit.methods, ∀ instr ∈ method.instrs,
        instr.Describable := by
    decide
  have evaluated :
      (generate postingUnit).toOption.map (fun lines =>
        lines.contains
          (.code (.invoke .virtual "A" "put" "(I[Lshop/Item;Z)I" 3 true))) =
          some true := by
    decide +kernel
  obtain ⟨lines, generated, contained⟩ := exists_ok_of_map evaluated
  have member := List.contains_iff_mem.mp contained
  obtain ⟨read, effect, _⟩ :=
    emitted_lines_read_back generated clean describable _ member nofun
  exact ⟨lines, generated, clean, describable, read, effect⟩

/-- A method that drops the result of a call, an array of no values. -/
private def discarding : Method where
  name := "discard"
  isStatic := true
  returnType := .void
  instrs := [.call .static (.classRef "B") "f" [] (.array .void), .ret .void none]

/-- A class with the method. -/
private def discardingUnit : ClassCode where
  name := "A"
  imports := ["B"]
  methods := [discarding]

/-- The call is emitted with a descriptor that is none by the grammar. -/
theorem array_of_void_not_read_back :
    ∃ lines,
      generate discardingUnit = .ok lines ∧
        (∀ name ∈ discardingUnit.names, IsClean name) ∧
          discardingUnit.ArgumentsHaveValues ∧
            Line.code (.invoke .static "B" "f" "()[V" 0 true) ∈ lines ∧
              readLine (Line.code (.invoke .static "B" "f" "()[V" 0 true)).text =
                none := by
  have evaluated :
      (generate discardingUnit).toOption.map (fun lines =>
        lines.contains (.code (.invoke .static "B" "f" "()[V" 0 true))) =
        some true := by
    decide +kernel
  obtain ⟨lines, generated, contained⟩ := exists_ok_of_map evaluated
  exact ⟨lines, generated, by decide, by decide, List.contains_iff_mem.mp contained,
    by decide⟩

end Assembly

end MiniJava
