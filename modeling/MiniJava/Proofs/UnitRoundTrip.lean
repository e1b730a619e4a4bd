import MiniJava.Proofs.UnitFormat

namespace MiniJava

/-!
# Reading units back

Each shape reads every spelling of a value as that value, by going through its
fields. A unit is so read back from all texts that spell it, its written form among
them, whatever the order of their members and whatever else they hold: values that
are skipped only have to follow the grammar, while a key, and all that is inside a
statement, has to be readable.
-/

open Json (Spelling StringText Named FieldFormat GivesFields Place Shape Fields
  Choice IsText IsList IsMap IsRecord IsChoice ok_bind)

variable {place : Place}
  {limit : Nat}

/-- An operator is read from its spellings. -/
theorem Operator.reads :
    Shape.Reads shape SpelledBy place limit := by
  intro operator spelling spelled _
  rw [Shape.node_of_isText spelled]
  obtain ⟨room, held⟩ := place
  cases operator <;> cases held <;> rfl

/-- A severity is read from its spellings. -/
theorem Severity.reads :
    Shape.Reads shape SpelledBy place limit := by
  intro severity spelling spelled _
  rw [Shape.node_of_isText spelled]
  obtain ⟨room, held⟩ := place
  cases severity <;> cases held <;> rfl

/-- A type is read from its spellings. -/
theorem TypeName.reads
    (fits : place.Fits limit) :
    Shape.Reads shape SpelledBy place limit := by
  intro type spelling spelled isDeep
  obtain ⟨record, isRecord, -, less, -, holds⟩ :=
    Fields.ofNode_of_isRecord ["name", "is_array"] rfl (by decide) spelled
      fits isDeep
  have name : (record.get "name" .text).IsRequired type.name :=
    holds.required (by simp) (Shape.reads_text _)
  have isArray : (record.get "is_array" .bool).IsDefaulted false type.isArray :=
    holds.withDefault (by simp) (Shape.reads_bool _)
  simp [shape, isRecord, holds.settle, name.noFault, name.isValue, isArray.noFault,
    isArray.isValue]

/-! ## Expressions and statements -/

namespace Expr

/-- The shape of an expression of a bounded number of levels. -/
abbrev shapeWithin (levels : Nat) : Shape Expr := fun place node => do
  ofChoice levels (← Choice.ofNode kinds place node)

/-- An expression is spelled as an object. -/
theorem exists_object
    {expr : Expr}
    {spelling : Spelling}
    (spelled : expr.SpelledBy spelling) :
    ∃ members, spelling = .object members := by
  unfold SpelledBy at spelled
  split at spelled <;>
  · obtain ⟨members, _, isObject, -⟩ := spelled
    exact ⟨members, isObject⟩

/-- No expression is spelled as null. -/
theorem not_spelledBy_null
    (expr : Expr) :
    ¬ expr.SpelledBy .null := by
  intro spelled
  obtain ⟨members, isObject⟩ := exists_object spelled
  cases isObject

/-- A list in a held value needs no more room than its items. -/
theorem reads_list
    {levels : Nat}
    (limited : levels ≤ Json.nestingLimit)
    (reads : Shape.Reads (shapeWithin levels) SpelledBy .inside levels) :
    Shape.Reads (.list (shapeWithin levels)) (IsList SpelledBy) .inside levels := by
  refine Shape.reads_list ⟨limited, Nat.le_refl Json.nestingLimit⟩ ?_
  intro inner less entered isLess _
  obtain rfl := Except.ok.inj entered
  exact reads.mono (Nat.le_of_lt isLess)

/-- The record of an expression, with room for one level less inside it. -/
theorem exists_record
    {levels : Nat}
    (limited : levels + 1 ≤ Json.nestingLimit)
    (reads : Shape.Reads (shapeWithin levels) SpelledBy .inside levels)
    {kind : String}
    (isKind : kind ∈ kinds)
    (names : List String)
    {fields : List FieldFormat}
    (named : names = fields.map FieldFormat.name)
    (distinct : (Choice.tag :: names).Nodup)
    {spelling : Spelling}
    (isChoice : IsChoice kind fields spelling)
    (isDeep : spelling.depth ≤ levels + 1) :
    ∃ content record,
      shapeWithin (levels + 1) .inside spelling.node =
        ofChoice (levels + 1) ⟨kind, content⟩ ∧
        Choice.fields ⟨kind, content⟩ names = .ok record ∧
        Shape.Reads (shapeWithin levels) SpelledBy record.place levels ∧
        Shape.Reads (.list (shapeWithin levels)) (IsList SpelledBy) record.place
          levels ∧
        record.Holds fields levels := by
  obtain ⟨⟨_, content⟩, record, isOfNode, rfl, isRecord, isInside, _, ⟨⟩, holds⟩ :=
    Choice.fields_of_isChoice isKind names named distinct isChoice
      (show Place.inside.Fits (levels + 1)
        from ⟨limited, Nat.le_refl Json.nestingLimit⟩)
      isDeep (.inl rfl)
  have readsList := reads_list (Nat.le_of_succ_le limited) reads
  refine ⟨content, record, ?_, isRecord, isInside ▸ reads,
    isInside ▸ readsList, holds⟩
  simp only [shapeWithin, isOfNode, ok_bind]

/--
An expression is read from every spelling that is not deeper than the levels allow.
-/
theorem reads_within
    {levels : Nat}
    (limited : levels ≤ Json.nestingLimit) :
    Shape.Reads (shapeWithin levels) SpelledBy .inside levels := by
  -- Each expression inside another stands deeper, so the levels carry the
  -- induction.
  induction levels with
  | zero =>
      intro expr spelling spelled isDeep
      obtain ⟨members, rfl⟩ := exists_object spelled
      cases isDeep
  | succ levels hypothesis =>
      have readsInside := hypothesis (Nat.le_of_succ_le limited)
      intro expr spelling spelled isDeep
      cases expr with
      | literal value =>
          cases value with
          | int value =>
              obtain ⟨content, record, isChoice, isRecord, -, -, holds⟩ :=
                exists_record limited readsInside (by decide) ["value"] rfl
                  (by decide) spelled isDeep
              have isValue : (record.get "value" .int32).IsRequired value :=
                holds.required (by simp) (Shape.reads_int32 _)
              rw [isChoice, ofChoice]
              simp only [isRecord, ok_bind, Fields.required, isValue.isValue]
              rfl
          | bool value =>
              obtain ⟨content, record, isChoice, isRecord, -, -, holds⟩ :=
                exists_record limited readsInside (by decide) ["value"] rfl
                  (by decide) spelled isDeep
              have isValue : (record.get "value" .bool).IsRequired value :=
                holds.required (by simp) (Shape.reads_bool _)
              rw [isChoice, ofChoice]
              simp only [isRecord, ok_bind, Fields.required, isValue.isValue]
              rfl
      | var name type =>
          obtain ⟨content, record, isChoice, isRecord, -, -, holds⟩ :=
            exists_record limited readsInside (by decide) ["name", "ty"] rfl
              (by decide) spelled isDeep
          have isName : (record.get "name" .text).IsRequired name :=
            holds.required (by simp) (Shape.reads_text _)
          have isType : (record.get "ty" TypeName.shape).IsRequired type :=
            holds.required (by simp) (TypeName.reads holds.fits _)
          rw [isChoice, ofChoice]
          simp only [isRecord, ok_bind, Fields.required, isName.isValue,
            isType.isValue]
          rfl
      | receiver type =>
          obtain ⟨content, record, isChoice, isRecord, -, -, holds⟩ :=
            exists_record limited readsInside (by decide) ["ty"] rfl (by decide)
              spelled isDeep
          have isType : (record.get "ty" TypeName.shape).IsRequired type :=
            holds.required (by simp) (TypeName.reads holds.fits _)
          rw [isChoice, ofChoice]
          simp only [isRecord, ok_bind, Fields.required, isType.isValue]
          rfl
      | binary operator left right type =>
          obtain ⟨content, record, isChoice, isRecord, reads, -, holds⟩ :=
            exists_record limited readsInside (by decide)
              ["op", "left", "right", "ty"] rfl (by decide) spelled isDeep
          have isOperator : (record.get "op" Operator.shape).IsRequired operator :=
            holds.required (by simp) (Operator.reads _)
          have isLeft : (record.get "left" (shapeWithin levels)).IsRequired left :=
            holds.required (by simp) (reads _)
          have isRight :
              (record.get "right" (shapeWithin levels)).IsRequired right :=
            holds.required (by simp) (reads _)
          have isType : (record.get "ty" TypeName.shape).IsRequired type :=
            holds.required (by simp) (TypeName.reads holds.fits _)
          rw [isChoice, ofChoice]
          simp only [isRecord, ok_bind, Fields.required, isOperator.isValue,
            isLeft.isValue, isRight.isValue, isType.isValue]
          rfl
      | call target method arguments type =>
          obtain ⟨content, record, isChoice, isRecord, reads, readsList, holds⟩ :=
            exists_record limited readsInside (by decide)
              ["target", "name", "args", "ty"] rfl (by decide) spelled isDeep
          have isTarget :
              (record.get "target" (shapeWithin levels)).IsRequired target :=
            holds.required (by simp) (reads _)
          have isMethod : (record.get "name" .text).IsRequired method :=
            holds.required (by simp) (Shape.reads_text _)
          have isArguments :
              (record.get "args" (.list (shapeWithin levels))).IsDefaulted []
                arguments :=
            holds.withDefault (by simp) fun spelling spelledAll =>
              readsList arguments spelling (allSpelledBy_iff.mp spelledAll)
          have isType : (record.get "ty" TypeName.shape).IsRequired type :=
            holds.required (by simp) (TypeName.reads holds.fits _)
          rw [isChoice, ofChoice]
          simp only [isRecord, ok_bind, Fields.required, Fields.withDefault,
            isTarget.isValue, isMethod.isValue, isArguments.isValue, isType.isValue]
          rfl
      | newObject className type =>
          obtain ⟨content, record, isChoice, isRecord, -, -, holds⟩ :=
            exists_record limited readsInside (by decide) ["class_name", "ty"] rfl
              (by decide) spelled isDeep
          have isClass : (record.get "class_name" .text).IsRequired className :=
            holds.required (by simp) (Shape.reads_text _)
          have isType : (record.get "ty" TypeName.shape).IsRequired type :=
            holds.required (by simp) (TypeName.reads holds.fits _)
          rw [isChoice, ofChoice]
          simp only [isRecord, ok_bind, Fields.required, isClass.isValue,
            isType.isValue]
          rfl
      | newArray size type =>
          obtain ⟨content, record, isChoice, isRecord, reads, -, holds⟩ :=
            exists_record limited readsInside (by decide) ["size", "ty"] rfl
              (by decide) spelled isDeep
          have isSize : (record.get "size" (shapeWithin levels)).IsRequired size :=
            holds.required (by simp) (reads _)
          have isType : (record.get "ty" TypeName.shape).IsRequired type :=
            holds.required (by simp) (TypeName.reads holds.fits _)
          rw [isChoice, ofChoice]
          simp only [isRecord, ok_bind, Fields.required, isSize.isValue,
            isType.isValue]
          rfl
      | element array index type =>
          obtain ⟨content, record, isChoice, isRecord, reads, -, holds⟩ :=
            exists_record limited readsInside (by decide) ["array", "index", "ty"]
              rfl (by decide) spelled isDeep
          have isArray :
              (record.get "array" (shapeWithin levels)).IsRequired array :=
            holds.required (by simp) (reads _)
          have isIndex :
              (record.get "index" (shapeWithin levels)).IsRequired index :=
            holds.required (by simp) (reads _)
          have isType : (record.get "ty" TypeName.shape).IsRequired type :=
            holds.required (by simp) (TypeName.reads holds.fits _)
          rw [isChoice, ofChoice]
          simp only [isRecord, ok_bind, Fields.required, isArray.isValue,
            isIndex.isValue, isType.isValue]
          rfl
      | length array type =>
          obtain ⟨content, record, isChoice, isRecord, reads, -, holds⟩ :=
            exists_record limited readsInside (by decide) ["array", "ty"] rfl
              (by decide) spelled isDeep
          have isArray :
              (record.get "array" (shapeWithin levels)).IsRequired array :=
            holds.required (by simp) (reads _)
          have isType : (record.get "ty" TypeName.shape).IsRequired type :=
            holds.required (by simp) (TypeName.reads holds.fits _)
          rw [isChoice, ofChoice]
          simp only [isRecord, ok_bind, Fields.required, isArray.isValue,
            isType.isValue]
          rfl

theorem reads
    (limited : limit ≤ Json.nestingLimit) :
    Shape.Reads shape SpelledBy .inside limit :=
  (reads_within (Nat.le_refl Json.nestingLimit)).mono limited

end Expr

namespace Stmt

/-- The record of a statement; its expressions are read as held values. -/
theorem exists_record
    (fits : place.Fits limit)
    {kind : String}
    (isKind : kind ∈ kinds)
    (names : List String)
    {fields : List FieldFormat}
    (named : names = fields.map FieldFormat.name)
    (distinct : (Choice.tag :: names).Nodup)
    {spelling : Spelling}
    (isChoice : IsChoice kind fields spelling)
    (isReadable : spelling.IsReadable)
    (isDeep : spelling.depth ≤ limit) :
    ∃ content record less,
      shape place spelling.node = ofChoice ⟨kind, content⟩ ∧
        Choice.fields ⟨kind, content⟩ names = .ok record ∧
        Shape.Reads Expr.shape Expr.SpelledBy record.place less ∧
        record.Holds fields less := by
  obtain ⟨⟨_, content⟩, record, isOfNode, rfl, isRecord, isInside, less, -,
    holds⟩ :=
    Choice.fields_of_isChoice isKind names named distinct isChoice fits isDeep
      (.inr isReadable)
  have reads : Shape.Reads Expr.shape Expr.SpelledBy .inside less :=
    Expr.reads (Nat.le_trans holds.fits.1 holds.fits.2)
  refine ⟨content, record, less, ?_, isRecord, isInside ▸ reads, holds⟩
  simp only [shape, isOfNode, ok_bind]

theorem reads
    (fits : place.Fits limit) :
    Shape.Reads shape SpelledBy place limit := by
  rintro stmt spelling ⟨isStmt, isReadable⟩ isDeep
  cases stmt with
  | assign name type value =>
      obtain ⟨content, record, less, isChoice, isRecord, readsValue, holds⟩ :=
        exists_record fits (by decide) ["name", "ty", "value"] rfl (by decide)
          isStmt isReadable isDeep
      have isName : (record.get "name" .text).IsRequired name :=
        holds.required (by simp) (Shape.reads_text _)
      have isType : (record.get "ty" TypeName.shape).IsRequired type :=
        holds.required (by simp) (TypeName.reads holds.fits _)
      have isValue : (record.get "value" Expr.shape).IsRequired value :=
        holds.required (by simp) (readsValue _)
      rw [isChoice, ofChoice]
      simp only [isRecord, ok_bind, Fields.required, isName.isValue, isType.isValue,
        isValue.isValue]
      rfl
  | evaluate value =>
      obtain ⟨content, record, less, isChoice, isRecord, readsValue, holds⟩ :=
        exists_record fits (by decide) ["expr"] rfl (by decide) isStmt
          isReadable isDeep
      have isValue : (record.get "expr" Expr.shape).IsRequired value :=
        holds.required (by simp) (readsValue _)
      rw [isChoice, ofChoice]
      simp only [isRecord, ok_bind, Fields.required, isValue.isValue]
      rfl
  | ret value =>
      obtain ⟨content, record, less, isChoice, isRecord, readsValue, holds⟩ :=
        exists_record fits (by decide) ["value"] rfl (by decide) isStmt
          isReadable isDeep
      have isValue : record.nullable "value" Expr.shape = .ok value :=
        holds.nullable (by simp)
          (Shape.reads_optional readsValue Expr.not_spelledBy_null _)
      rw [isChoice, ofChoice]
      simp only [isRecord, ok_bind, isValue]
      rfl

end Stmt

/-! ## Declarations, symbols and reports -/

theorem Declaration.reads
    (fits : place.Fits limit) :
    Shape.Reads shape SpelledBy place limit := by
  intro declaration spelling spelled isDeep
  obtain ⟨record, isRecord, -, less, -, holds⟩ :=
    Fields.ofNode_of_isRecord ["name", "ty"] rfl (by decide) spelled fits isDeep
  have name : (record.get "name" .text).IsRequired declaration.name :=
    holds.required (by simp) (Shape.reads_text _)
  have type : (record.get "ty" TypeName.shape).IsRequired declaration.type :=
    holds.required (by simp) (TypeName.reads holds.fits _)
  simp [shape, isRecord, holds.settle, name.noFault, name.isValue, type.noFault,
    type.isValue]

/-- A list of declarations is read from its spellings. -/
theorem Declaration.reads_list
    (fits : place.Fits limit) :
    Shape.Reads (.list shape) (IsList SpelledBy) place limit :=
  Shape.reads_list fits fun _ _ _ _ fitsInner => Declaration.reads fitsInner

/-- A method is read from its spellings. -/
theorem MethodDef.reads
    (fits : place.Fits limit) :
    Shape.Reads shape SpelledBy place limit := by
  intro method spelling spelled isDeep
  obtain ⟨record, isRecord, -, less, -, holds⟩ :=
    Fields.ofNode_of_isRecord
      ["name", "is_public", "is_static", "return_type", "params", "locals", "body"]
      rfl (by decide) spelled fits isDeep
  have name : (record.get "name" .text).IsRequired method.name :=
    holds.required (by simp) (Shape.reads_text _)
  have isPublic : (record.get "is_public" .bool).IsDefaulted true method.isPublic :=
    holds.withDefault (by simp) (Shape.reads_bool _)
  have isStatic :
      (record.get "is_static" .bool).IsDefaulted false method.isStatic :=
    holds.withDefault (by simp) (Shape.reads_bool _)
  have returnType :
      (record.get "return_type" TypeName.shape).IsRequired method.returnType :=
    holds.required (by simp) (TypeName.reads holds.fits _)
  have params :
      (record.get "params" (.list Declaration.shape)).IsDefaulted []
        method.params :=
    holds.withDefault (by simp) (Declaration.reads_list holds.fits _)
  have locals :
      (record.get "locals" (.list Declaration.shape)).IsDefaulted []
        method.locals :=
    holds.withDefault (by simp) (Declaration.reads_list holds.fits _)
  have body : (record.get "body" (.list Stmt.shape)).IsDefaulted [] method.body :=
    holds.withDefault (by simp)
      (Shape.reads_list holds.fits
        (fun _ _ _ _ fitsInner => Stmt.reads fitsInner) _)
  simp [shape, isRecord, holds.settle, name.noFault, name.isValue, isPublic.noFault,
    isPublic.isValue, isStatic.noFault, isStatic.isValue, returnType.noFault,
    returnType.isValue, params.noFault, params.isValue, locals.noFault,
    locals.isValue,
    body.noFault, body.isValue]

/-- No text is spelled as null. -/
theorem isText_ne_null
    (text : String) :
    ¬ IsText text .null := by
  rintro ⟨_, isString, -⟩
  cases isString

/-- A list of texts is read from its spellings. -/
theorem reads_texts
    (fits : place.Fits limit) :
    Shape.Reads (.list .text) (IsList IsText) place limit :=
  Shape.reads_list fits fun _ _ _ _ _ => Shape.reads_text

/-- A class is read from its spellings. -/
theorem ClassDef.reads
    (fits : place.Fits limit) :
    Shape.Reads shape SpelledBy place limit := by
  intro definition spelling spelled isDeep
  obtain ⟨record, isRecord, -, less, -, holds⟩ :=
    Fields.ofNode_of_isRecord ["name", "super_class", "fields", "methods"] rfl
      (by decide) spelled fits isDeep
  have name : (record.get "name" .text).IsRequired definition.name :=
    holds.required (by simp) (Shape.reads_text _)
  have superClass :
      (record.get "super_class" (.optional .text)).IsDefaulted none
        definition.superClass :=
    holds.withDefault (by simp)
      (Shape.reads_optional Shape.reads_text isText_ne_null _)
  have declarations :
      (record.get "fields" (.list Declaration.shape)).IsDefaulted []
        definition.fields :=
    holds.withDefault (by simp) (Declaration.reads_list holds.fits _)
  have methods :
      (record.get "methods" (.list MethodDef.shape)).IsDefaulted []
        definition.methods :=
    holds.withDefault (by simp)
      (Shape.reads_list holds.fits
        (fun _ _ _ _ fitsInner => MethodDef.reads fitsInner) _)
  simp [shape, isRecord, holds.settle, name.noFault, name.isValue,
    superClass.noFault, superClass.isValue, declarations.noFault,
    declarations.isValue, methods.noFault,
    methods.isValue]

/-- A program is read from its spellings. -/
theorem Program.reads
    (fits : place.Fits limit) :
    Shape.Reads shape SpelledBy place limit := by
  intro program spelling spelled isDeep
  obtain ⟨record, isRecord, -, less, -, holds⟩ :=
    Fields.ofNode_of_isRecord ["imports", "class"] rfl (by decide) spelled
      fits isDeep
  have imports :
      (record.get "imports" (.list .text)).IsDefaulted [] program.imports :=
    holds.withDefault (by simp) (reads_texts holds.fits _)
  have mainClass :
      (record.get "class" ClassDef.shape).IsRequired program.mainClass :=
    holds.required (by simp) (ClassDef.reads holds.fits _)
  simp [shape, isRecord, holds.settle, imports.noFault, imports.isValue,
    mainClass.noFault, mainClass.isValue]

/-- A table of symbols is read from its spellings. -/
theorem Symbols.reads
    (fits : place.Fits limit) :
    Shape.Reads shape SpelledBy place limit := by
  intro symbols spelling spelled isDeep
  obtain ⟨record, isRecord, -, less, -, holds⟩ :=
    Fields.ofNode_of_isRecord
      ["class_name", "super_class", "imports", "methods", "return_types", "params",
        "locals", "fields"]
      rfl (by decide) spelled fits isDeep
  have readsDeclarations :
      Shape.Reads (.map (.list Declaration.shape))
        (IsMap (IsList Declaration.SpelledBy)) record.place less :=
    Shape.reads_map holds.fits fun _ _ fitsInner => Declaration.reads_list fitsInner
  have className : (record.get "class_name" .text).IsRequired symbols.className :=
    holds.required (by simp) (Shape.reads_text _)
  have superClass :
      (record.get "super_class" (.optional .text)).IsDefaulted none
        symbols.superClass :=
    holds.withDefault (by simp)
      (Shape.reads_optional Shape.reads_text isText_ne_null _)
  have imports : (record.get "imports" (.list .text)).IsRequired symbols.imports :=
    holds.required (by simp) (reads_texts holds.fits _)
  have methods : (record.get "methods" (.list .text)).IsRequired symbols.methods :=
    holds.required (by simp) (reads_texts holds.fits _)
  have returnTypes :
      (record.get "return_types" (.map TypeName.shape)).IsRequired
        symbols.returnTypes :=
    holds.required (by simp)
      (Shape.reads_map holds.fits (fun _ _ fitsInner => TypeName.reads fitsInner) _)
  have params :
      (record.get "params" (.map (.list Declaration.shape))).IsRequired
        symbols.params :=
    holds.required (by simp) (readsDeclarations _)
  have locals :
      (record.get "locals" (.map (.list Declaration.shape))).IsRequired
        symbols.locals :=
    holds.required (by simp) (readsDeclarations _)
  have declarations :
      (record.get "fields" (.list Declaration.shape)).IsRequired symbols.fields :=
    holds.required (by simp) (Declaration.reads_list holds.fits _)
  simp [shape, isRecord, holds.settle, className.noFault, className.isValue,
    superClass.noFault, superClass.isValue, imports.noFault, imports.isValue,
    methods.noFault, methods.isValue,
    returnTypes.noFault, returnTypes.isValue, params.noFault, params.isValue,
    locals.noFault,
    locals.isValue, declarations.noFault, declarations.isValue]

/-- No table of symbols is spelled as null. -/
theorem Symbols.not_spelledBy_null
    (symbols : Symbols) :
    ¬ symbols.SpelledBy .null := by
  rintro ⟨members, _, isObject, -⟩
  cases isObject

/-- A report is read from its spellings. -/
theorem Report.reads
    (fits : place.Fits limit) :
    Shape.Reads shape SpelledBy place limit := by
  intro report spelling spelled isDeep
  obtain ⟨record, isRecord, -, less, -, holds⟩ :=
    Fields.ofNode_of_isRecord ["severity", "line", "column", "message"] rfl
      (by decide) spelled fits isDeep
  have severity :
      (record.get "severity" Severity.shape).IsRequired report.severity :=
    holds.required (by simp) (Severity.reads _)
  have line : (record.get "line" .nat64).IsDefaulted 0 report.line :=
    holds.withDefault (by simp) (Shape.reads_nat64 _)
  have column : (record.get "column" .nat64).IsDefaulted 0 report.column :=
    holds.withDefault (by simp) (Shape.reads_nat64 _)
  have message : (record.get "message" .text).IsRequired report.message :=
    holds.required (by simp) (Shape.reads_text _)
  simp [shape, isRecord, holds.settle, severity.noFault, severity.isValue,
    line.noFault, line.isValue, column.noFault, column.isValue, message.noFault,
    message.isValue]

namespace TypedUnit

/-- A unit is read from its spellings. -/
theorem reads
    (fits : place.Fits limit) :
    Shape.Reads shape SpelledBy place limit := by
  intro unit spelling spelled isDeep
  obtain ⟨record, isRecord, -, less, -, holds⟩ :=
    Fields.ofNode_of_isRecord ["program", "table", "reports"] rfl (by decide)
      spelled fits isDeep
  have program : (record.get "program" Program.shape).IsRequired unit.program :=
    holds.required (by simp) (Program.reads holds.fits _)
  have symbols? :
      (record.get "table" (.optional Symbols.shape)).IsDefaulted none
        unit.symbols? :=
    holds.withDefault (by simp)
      (Shape.reads_optional (Symbols.reads holds.fits) Symbols.not_spelledBy_null _)
  have reports :
      (record.get "reports" (.list Report.shape)).IsDefaulted [] unit.reports :=
    holds.withDefault (by simp)
      (Shape.reads_list holds.fits
        (fun _ _ _ _ fitsInner => Report.reads fitsInner) _)
  simp [shape, isRecord, holds.settle, program.noFault, program.isValue,
    symbols?.noFault, symbols?.isValue, reports.noFault, reports.isValue]

/-- A unit is read back from each text that spells it. -/
theorem parse_text
    {unit : TypedUnit}
    {spelling : Spelling}
    (spelled : unit.SpelledBy spelling)
    (isDeep : spelling.depth ≤ Json.nestingLimit) :
    parse (String.ofList spelling.text) = .ok unit := by
  have read : shape .top spelling.node = .ok unit :=
    reads ⟨Nat.le_refl Json.nestingLimit, Nat.le_refl Json.nestingLimit⟩ unit
      spelling spelled isDeep
  simp only [parse, Json.parse, spelling.ofText_text, read, ok_bind]
  rfl

/--
Reading undoes writing, and finds the same unit in every other spelling of it.
-/
theorem parse_round_trips
    (unit : TypedUnit) :
    (unit.toJson.spelling.depth ≤ Json.nestingLimit →
      parse unit.toJson.render = .ok unit) ∧
      ∀ spelling,
        unit.SpelledBy spelling →
        spelling.depth ≤ Json.nestingLimit →
        parse (String.ofList spelling.text) = .ok unit := by
  refine ⟨fun isDeep => ?_, fun spelling => parse_text⟩
  have read := parse_text unit.spelledBy_toJson isDeep
  rwa [← Json.toList_render, String.ofList_toList] at read

end TypedUnit

/-! ## A unit in disorder -/

/-- A power of ten with its exponent written out. -/
def powerOfTen (exponent : Nat) : Spelling :=
  .number
    { isNegative := false
      whole := .ofNat 1
      leading := Json.Digits.ofNat_leading 1
      fraction? := none
      exponent? :=
        some { isUpper := false, isNegative? := none, digits := .ofNat exponent } }

/-- Half of a surrogate pair. -/
def halfPair : StringText :=
  ⟨[.code 'd' '8' '0' '0' 0xD800 rfl]⟩

/-- Members from back to front are a record. -/
theorem Json.isRecord_of_reverse
    {fields : List FieldFormat}
    {given unknown : List (String × Spelling)}
    {members : List (StringText × Spelling)}
    (gives : GivesFields fields given)
    (isUnknown : ∀ member ∈ unknown, member.1 ∉ fields.map FieldFormat.name)
    (isNamed : Named members (given ++ unknown).reverse) :
    IsRecord fields (.object members) :=
  ⟨members, _, rfl, isNamed, given, unknown, gives, isUnknown, List.reverse_perm _⟩

/-- A type that is no array, without saying so. -/
def plainSpelling (name : String) : Spelling :=
  .record [("name", .ofText name)]

/-- It is a spelling of the type. -/
theorem plainSpelling_spelled
    (name : String) :
    TypeName.SpelledBy ⟨name, false⟩ (plainSpelling name) :=
  Json.isRecord_of_given (.text (.leftOut rfl .nil))

/-- An integer literal with its kind at the end. -/
def literalSpelling (value : Int32) : Spelling :=
  .record [("value", .number (.ofInt value.toInt)), ("kind", .ofText "int_lit")]

/-- It is a spelling of the literal. -/
theorem literalSpelling_spelled
    (value : Int32) :
    (Expr.literal (.int value)).SpelledBy (literalSpelling value) := by
  rw [Expr.SpelledBy]
  exact Json.isRecord_of_reverse (.text (.given rfl .nil)) (List.forall_mem_nil _)
    (.ofString _)

/-- A sum of two numbers. -/
def sumExpr : Expr :=
  .binary .add (.literal (.int 2)) (.literal (.int (-3))) .int

/-- The sum with its kind at the end. -/
def sumSpelling : Spelling :=
  .record
    [("ty", plainSpelling "int"),
      ("right", literalSpelling (-3)),
      ("left", literalSpelling 2),
      ("op", .ofText "+"),
      ("kind", .ofText "binary")]

/-- It is a spelling of the sum. -/
theorem sumSpelling_spelled : sumExpr.SpelledBy sumSpelling := by
  rw [sumExpr, Expr.SpelledBy]
  exact Json.isRecord_of_reverse
    (.text (.text (.given (literalSpelling_spelled 2)
      (.given (literalSpelling_spelled (-3))
        (.given (plainSpelling_spelled "int") .nil)))))
    (List.forall_mem_nil _) (.ofString _)

/-- The return of the sum, with a member that is no field. -/
def returnSpelling : Spelling :=
  .record
    [("at", powerOfTen 300), ("value", sumSpelling), ("kind", .ofText "return")]

/-- It is a spelling of the statement, since all of it is readable. -/
theorem returnSpelling_spelled :
    (Stmt.ret (some sumExpr)).SpelledBy returnSpelling := by
  have isPower : (powerOfTen 300).IsReadable := by
    rw [powerOfTen, Spelling.IsReadable]
    decide +kernel
  have isText (content : String) : (Spelling.ofText content).IsReadable :=
    ⟨content, StringText.content_ofString content⟩
  have isLiteral (value : Int32) : (literalSpelling value).IsReadable := by
    have isNumber : (Spelling.number (.ofInt value.toInt)).IsReadable := by
      rw [Spelling.IsReadable, Json.NumberText.value_int32]
      exact Number.noConfusion
    simp [literalSpelling, Json.isReadable_record, isNumber, isText]
  constructor
  · rw [Stmt.IsStmt]
    exact @Json.isRecord_of_reverse _ _ [("at", powerOfTen 300)] _
      (.text (.given sumSpelling_spelled .nil)) (by decide) (.ofString _)
  · simp [returnSpelling, sumSpelling, plainSpelling, Json.isReadable_record,
      isPower, isText, isLiteral]

/-- A method that returns the sum. -/
def sumMethod : MethodDef where
  name := "f"
  returnType := .int
  body := [.ret (some sumExpr)]

/-- The method from back to front, without its defaults. -/
def methodSpelling : Spelling :=
  .record
    [("body", .array [returnSpelling]),
      ("return_type", plainSpelling "int"),
      ("name", .ofText "f")]

/-- It is a spelling of the method. -/
theorem methodSpelling_spelled : sumMethod.SpelledBy methodSpelling := by
  have isBody : IsList Stmt.SpelledBy sumMethod.body (.array [returnSpelling]) :=
    ⟨_, rfl, .cons returnSpelling_spelled .nil⟩
  rw [MethodDef.SpelledBy]
  exact Json.isRecord_of_reverse
    (.text (.leftOut rfl (.leftOut rfl (.given (plainSpelling_spelled "int")
      (.leftOut rfl (.leftOut rfl (.given isBody .nil)))))))
    (List.forall_mem_nil _) (.ofString _)

/-- A unit whose only method returns the sum. -/
def sumUnit : TypedUnit where
  program.mainClass := { name := "A", methods := [sumMethod] }

/-- The class from back to front, without its defaults. -/
def classSpelling : Spelling :=
  .record [("methods", .array [methodSpelling]), ("name", .ofText "A")]

/-- A key with a code for a letter. -/
def weightKey : StringText :=
  ⟨[.code '0' '0' '7' '7' 0x77 rfl, .plain 't' (by decide)]⟩

/-- A value that only follows the grammar: its key and its string hold no text. -/
def weightSpelling : Spelling :=
  .object [(halfPair, .array [.string halfPair, powerOfTen 400])]

/-- The program with a member that is no field. -/
def programSpelling : Spelling :=
  .object [(weightKey, weightSpelling), (.ofString "class", classSpelling)]

/-- The unit without its defaults. -/
def unitSpelling : Spelling :=
  .record [("program", programSpelling)]

/-- It is a spelling of the unit. -/
theorem unitSpelling_spelled : sumUnit.SpelledBy unitSpelling := by
  have areMethods :
      IsList MethodDef.SpelledBy [sumMethod] (.array [methodSpelling]) :=
    ⟨_, rfl, .cons methodSpelling_spelled .nil⟩
  have isClass : sumUnit.program.mainClass.SpelledBy classSpelling :=
    Json.isRecord_of_reverse
      (.text (.leftOut rfl (.leftOut rfl (.given areMethods .nil))))
      (List.forall_mem_nil _) (.ofString _)
  have isProgram : sumUnit.program.SpelledBy programSpelling := by
    rw [Program.SpelledBy]
    refine @Json.isRecord_of_reverse _ _ [("wt", weightSpelling)] _
      (.leftOut rfl (.given isClass .nil)) (by decide)
      (.cons ⟨rfl, rfl⟩ (Named.ofString [("class", classSpelling)]))
  exact Json.isRecord_of_given (.given isProgram (.leftOut rfl (.leftOut rfl .nil)))

/--
The unit is read back as it is written, and from the text of the other spelling.
-/
theorem parse_round_trips_sum :
    (sumUnit.toJson.spelling.depth ≤ Json.nestingLimit ∧
      TypedUnit.parse sumUnit.toJson.render = .ok sumUnit) ∧
    sumUnit.SpelledBy unitSpelling ∧
      unitSpelling.depth ≤ Json.nestingLimit ∧
      TypedUnit.parse
        ("\x7b\"program\":\x7b\"\\u0077t\":" ++
        "\x7b\"\\ud800\":[\"\\ud800\",1e400]\x7d," ++
        "\"class\":\x7b\"methods\":[" ++
        "\x7b\"body\":[\x7b\"at\":1e300," ++
        "\"value\":\x7b\"ty\":\x7b\"name\":\"int\"\x7d," ++
        "\"right\":\x7b\"value\":-3,\"kind\":\"int_lit\"\x7d," ++
        "\"left\":\x7b\"value\":2,\"kind\":\"int_lit\"\x7d," ++
        "\"op\":\"+\",\"kind\":\"binary\"\x7d," ++
        "\"kind\":\"return\"\x7d],\"return_type\":\x7b\"name\":\"int\"\x7d," ++
        "\"name\":\"f\"\x7d],\"name\":\"A\"\x7d\x7d\x7d") = .ok sumUnit := by
  have written := sumUnit.parse_round_trips.1 (by decide)
  have read :=
    sumUnit.parse_round_trips.2 unitSpelling unitSpelling_spelled (by decide)
  exact ⟨⟨by decide, written⟩, unitSpelling_spelled, by decide,
    (congrArg TypedUnit.parse (by decide +kernel)).trans read⟩

/-- A unit whose only method returns at once. -/
def idleUnit : TypedUnit where
  program.mainClass :=
    { name := "A"
      methods := [{ name := "f", returnType := .void, body := [.ret none] }] }

/--
The unit without its defaults, with one more member in its program
and in its statement.
-/
def idleSpelling (key : StringText) (content : Spelling) : Spelling :=
  .record
    [("program", .object
      [(.ofString "class", .record
        [("name", .ofText "A"),
          ("methods", .array
            [.record
              [("name", .ofText "f"),
                ("return_type", plainSpelling "void"),
                ("body", .array
                  [.record [("kind", .ofText "return"), ("x", content)]])]])]),
        (key, .null)])]

/-- Its text, with the key and the member as they are spelled. -/
def idleText (key content : String) : String :=
  "\x7b\"program\":\x7b\"class\":\x7b\"name\":\"A\",\"methods\":[" ++
    "\x7b\"name\":\"f\",\"return_type\":\x7b\"name\":\"void\"\x7d," ++
    "\"body\":[\x7b\"kind\":\"return\",\"x\":" ++ content ++ "\x7d]\x7d]\x7d," ++
    key ++ ":null\x7d\x7d"

/--
A member of a statement that is no field is passed over, but not if it is a number
whose approximation is infinite or a string that holds no text. The second number is
below the least that rounds to infinity. A key that holds no text is refused
everywhere.
-/
theorem TypedUnit.parse_unreadable_refused :
    parse (idleText "\"y\"" "true") = .ok idleUnit ∧
      parse (idleText "\"y\"" "1e400") = .error .malformed ∧
      parse (idleText "\"y\"" "1.7976931348623158e308") = .error .malformed ∧
      parse (idleText "\"y\"" "\"\\ud800\"") = .error .malformed ∧
      parse (idleText "\"\\ud800\"" "true") = .error .malformed := by
  have taken :
      ∀ key content,
        parse (String.ofList (idleSpelling key content).text) =
          shape .top (idleSpelling key content).node := by
    intro key content
    simp only [parse, Json.parse, Spelling.ofText_text, if_true]
    cases shape .top (idleSpelling key content).node <;> rfl
  let nearlyInfinite : Spelling :=
    .number
      { isNegative := false
        whole := .ofNat 1
        leading := Json.Digits.ofNat_leading 1
        fraction? := some (.ofNat 7976931348623158)
        exponent? :=
          some { isUpper := false, isNegative? := none, digits := .ofNat 308 } }
  -- The two numbers are the same to the reader, and the power of ten is evaluated
  -- sooner.
  have sameNumber : nearlyInfinite.node = (powerOfTen 400).node :=
    congrArg Node.number (by decide +kernel)
  have sameNode :
      (idleSpelling (.ofString "y") nearlyInfinite).node =
        (idleSpelling (.ofString "y") (powerOfTen 400)).node := by
    simp only [idleSpelling, Spelling.record, List.map_cons, List.map_nil,
      Spelling.node, Spelling.memberNodes, Spelling.itemNodes, sameNumber]
  refine ⟨?_, ?_, ?_, ?_, ?_⟩
  · exact (congrArg parse (by decide +kernel)).trans
      ((taken (.ofString "y") (.bool true)).trans rfl)
  · exact (congrArg parse (by decide +kernel)).trans
      ((taken (.ofString "y") (powerOfTen 400)).trans rfl)
  · exact (congrArg parse (by decide +kernel)).trans
      ((taken (.ofString "y") nearlyInfinite).trans
        (congrArg (shape .top) sameNode))
  · exact (congrArg parse (by decide +kernel)).trans
      ((taken (.ofString "y") (.string halfPair)).trans rfl)
  · exact (congrArg parse (by decide +kernel)).trans
      ((taken halfPair (.bool true)).trans rfl)

end MiniJava
