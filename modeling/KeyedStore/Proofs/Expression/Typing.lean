import KeyedStore.Expression.Condition
import KeyedStore.Proofs.Attribute.Codec

/-! Well-typed conditions, and what is wrong with the others. Whether a condition has a
clause, and the reason why it has none, depend on its kind and its value alone, so the first
condition that is not well typed decides the error of all. -/

namespace KeyedStore

namespace Condition

def GivesNumber (condition : Condition) : Prop :=
  ∃ number, condition.value = some (.number number) ∧ number.isFinite = true

def GivesText (condition : Condition) : Prop :=
  ∃ text, condition.value = some (.string text)

def WellTyped (condition : Condition) : Prop :=
  match condition.kind with
  | .present => condition.value = none
  | .absent => condition.value = none
  | .greaterThan => condition.GivesNumber
  | .lessThan => condition.GivesNumber
  | .equal => condition.GivesNumber ∨ condition.GivesText
  | .beginsWith => condition.GivesText

def valueName (condition : Condition) : String :=
  match condition.value with
  | none => "nothing"
  | some value => value.typeName

/-- What is wrong with a condition, as an error. -/
inductive Breaks (condition : Condition) : ConditionError → Prop
  | unexpected (takesNone : condition.kind = .present ∨ condition.kind = .absent)
      (given : condition.value ≠ none) :
      Breaks condition (.unexpectedValue condition.field condition.kind)
  | noNumber (compares : condition.kind = .greaterThan ∨ condition.kind = .lessThan)
      (other : ∀ number, condition.value ≠ some (.number number)) :
      Breaks condition
        (.wrongValueType condition.field condition.kind "a number" condition.valueName)
  | noNumberOrText (compares : condition.kind = .equal)
      (noNumber : ∀ number, condition.value ≠ some (.number number))
      (noText : ∀ text, condition.value ≠ some (.string text)) :
      Breaks condition (.wrongValueType condition.field condition.kind "a number or a string"
        condition.valueName)
  | noText (compares : condition.kind = .beginsWith)
      (other : ∀ text, condition.value ≠ some (.string text)) :
      Breaks condition
        (.wrongValueType condition.field condition.kind "a string" condition.valueName)
  | infinite {number : Number}
      (compares : condition.kind = .greaterThan ∨ condition.kind = .lessThan ∨
        condition.kind = .equal)
      (given : condition.value = some (.number number)) (infinite : number.isFinite = false) :
      Breaks condition (.unencodable condition.field (.nonFiniteNumber number))

end Condition

namespace Value

theorem marshal_number_error_iff {number : Number} {cause : MarshalError} :
    (Value.number number).marshal = .error cause ↔
      number.isFinite = false ∧ cause = .nonFiniteNumber number := by
  simp only [marshal, Number.marshal]
  cases number.isFinite <;> simp [bind, Except.bind, pure, Except.pure, eq_comm]

end Value

namespace ConditionKind

theorem accepts_number_only {kind : ConditionKind} (compares : kind = greaterThan ∨ kind = lessThan)
    (value : Value) : kind.accepts value = true ↔ ∃ number, value = .number number := by
  rcases compares with rfl | rfl <;> cases value <;> simp [accepts]

theorem accepts_number_or_text (value : Value) :
    equal.accepts value = true ↔
      (∃ number, value = .number number) ∨ ∃ text, value = .string text := by
  cases value <;> simp [accepts]

theorem accepts_text_only (value : Value) :
    beginsWith.accepts value = true ↔ ∃ text, value = .string text := by
  cases value <;> simp [accepts]

end ConditionKind

namespace Condition

variable {condition : Condition}

theorem operand_of_takesNone (takesNone : condition.kind.operandName? = none) :
    condition.operand =
      match condition.value with
      | none => .ok none
      | some _ => .error (.unexpectedValue condition.field condition.kind) := by
  unfold operand
  rw [takesNone]
  cases condition.value <;> rfl

theorem wellTyped_of_number {number : Number}
    (compares : condition.kind = .greaterThan ∨ condition.kind = .lessThan ∨
      condition.kind = .equal)
    (given : condition.value = some (.number number)) :
    condition.WellTyped ↔ number.isFinite = true := by
  have number_iff : condition.GivesNumber ↔ number.isFinite = true := by
    simp [GivesNumber, given]
  have noText : ¬condition.GivesText := by simp [GivesText, given]
  unfold WellTyped
  rcases compares with kind | kind | kind <;> simp [kind, number_iff, noText]

inductive Judged (condition : Condition) : Except ConditionError (Option Attribute) → Prop
  | accepted {encoded : Option Attribute} (typed : condition.WellTyped)
      (taken : encoded.isSome = condition.kind.operandName?.isSome)
      (marshaled : encoded.map Except.ok = condition.value.map Value.marshal) :
      Judged condition (.ok encoded)
  | refused {error : ConditionError} (untyped : ¬condition.WellTyped)
      (breaks : condition.Breaks error) : Judged condition (.error error)

theorem judged_takesNone (takesNone : condition.kind = .present ∨ condition.kind = .absent) :
    condition.Judged condition.operand := by
  have noOperand : condition.kind.operandName? = none := by
    rcases takesNone with kind | kind <;> rw [kind] <;> rfl
  have typed_iff : condition.WellTyped ↔ condition.value = none := by
    unfold WellTyped
    rcases takesNone with kind | kind <;> rw [kind]
  rw [operand_of_takesNone noOperand]
  cases given : condition.value with
  | none => exact .accepted (typed_iff.mpr given) (by rw [noOperand]; rfl) (by rw [given]; rfl)
  | some value =>
      have given' : condition.value ≠ none := by simp [given]
      exact .refused (fun typed => given' (typed_iff.mp typed)) (.unexpected takesNone given')

theorem judged_number {number : Number}
    (compares : condition.kind = .greaterThan ∨ condition.kind = .lessThan ∨
      condition.kind = .equal)
    (given : condition.value = some (.number number)) :
    condition.Judged condition.operand := by
  have typed_iff := wellTyped_of_number compares given
  have asks : condition.kind.operandName?.isSome = true := by
    rcases compares with kind | kind | kind <;> rw [kind] <;> rfl
  cases marshaled : (Value.number number).marshal with
  | ok encoded =>
      have finite := (Value.exists_marshal_iff _).mp ⟨encoded, marshaled⟩
      have encodes : condition.operand = .ok (some encoded) := by
        unfold operand
        rcases compares with kind | kind | kind <;>
          simp [kind, given, ConditionKind.operandName?, ConditionKind.accepts, marshaled]
      rw [encodes]
      exact .accepted (typed_iff.mpr finite) asks.symm (by simp [given, marshaled])
  | error cause =>
      obtain ⟨infinite, same⟩ := Value.marshal_number_error_iff.mp marshaled
      have refuses : condition.operand =
          .error (.unencodable condition.field (.nonFiniteNumber number)) := by
        unfold operand
        rcases compares with kind | kind | kind <;>
          simp [kind, given, ConditionKind.operandName?, ConditionKind.accepts, marshaled, same]
      rw [refuses]
      exact .refused (by simp [typed_iff, infinite]) (.infinite compares given infinite)

theorem judged_text {text : String}
    (compares : condition.kind = .equal ∨ condition.kind = .beginsWith)
    (given : condition.value = some (.string text)) : condition.Judged condition.operand := by
  have gives : condition.GivesText := ⟨text, given⟩
  have encodes : condition.operand = .ok (some (.string text)) := by
    unfold operand
    rcases compares with kind | kind <;>
      simp [kind, given, ConditionKind.operandName?, ConditionKind.accepts, Value.marshal]
  rw [encodes]
  refine .accepted ?_ ?_ (by simp [given, Value.marshal])
  · unfold WellTyped
    rcases compares with kind | kind <;> simp [kind, gives]
  · rcases compares with kind | kind <;> rw [kind] <;> rfl

theorem judged_unsuited {expected : String}
    (asks : condition.kind.operandName? = some expected)
    (unsuited : ∀ value, condition.value = some value → ¬condition.kind.accepts value = true)
    (untyped : ¬condition.WellTyped)
    (breaks : condition.Breaks
      (.wrongValueType condition.field condition.kind expected condition.valueName)) :
    condition.Judged condition.operand := by
  have refuses : condition.operand =
      .error (.wrongValueType condition.field condition.kind expected condition.valueName) := by
    unfold operand valueName
    cases given : condition.value with
    | none => simp [asks]
    | some value => simp [asks, unsuited value given]
  rw [refuses]
  exact .refused untyped breaks

theorem judged_comparison (compares : condition.kind = .greaterThan ∨ condition.kind = .lessThan) :
    condition.Judged condition.operand := by
  by_cases given : ∃ number, condition.value = some (.number number)
  · obtain ⟨number, given⟩ := given
    exact judged_number (compares.imp_right .inl) given
  · have other : ∀ number, condition.value ≠ some (.number number) := not_exists.mp given
    refine judged_unsuited ?_ ?_ ?_ (.noNumber compares other)
    · rcases compares with kind | kind <;> rw [kind] <;> rfl
    · intro value held accepted
      obtain ⟨number, same⟩ := (ConditionKind.accepts_number_only compares value).mp accepted
      exact other number (same ▸ held)
    · have noNumber : ¬condition.GivesNumber := fun ⟨number, held, _⟩ => other number held
      unfold WellTyped
      rcases compares with kind | kind <;> rwa [kind]

theorem judged_equal (compares : condition.kind = .equal) :
    condition.Judged condition.operand := by
  by_cases number : ∃ number, condition.value = some (.number number)
  · obtain ⟨number, given⟩ := number
    exact judged_number (.inr (.inr compares)) given
  · by_cases text : ∃ text, condition.value = some (.string text)
    · obtain ⟨text, given⟩ := text
      exact judged_text (.inl compares) given
    · have noNumber := not_exists.mp number
      have noText := not_exists.mp text
      have breaks := Breaks.noNumberOrText compares noNumber noText
      refine judged_unsuited (by rw [compares]; rfl) ?_ ?_ breaks
      · intro value held accepted
        rw [compares, ConditionKind.accepts_number_or_text] at accepted
        rcases accepted with ⟨number, same⟩ | ⟨text, same⟩
        · exact noNumber number (same ▸ held)
        · exact noText text (same ▸ held)
      · simp only [WellTyped, compares]
        rintro (⟨number, held, -⟩ | ⟨text, held⟩)
        · exact noNumber number held
        · exact noText text held

theorem judged_beginsWith (compares : condition.kind = .beginsWith) :
    condition.Judged condition.operand := by
  by_cases text : ∃ text, condition.value = some (.string text)
  · obtain ⟨text, given⟩ := text
    exact judged_text (.inr compares) given
  · have noText := not_exists.mp text
    refine judged_unsuited (by rw [compares]; rfl) ?_ ?_ (.noText compares noText)
    · intro value held accepted
      rw [compares, ConditionKind.accepts_text_only] at accepted
      obtain ⟨text, same⟩ := accepted
      exact noText text (same ▸ held)
    · simp only [WellTyped, compares]
      exact fun ⟨text, held⟩ => noText text held

theorem judged_operand (condition : Condition) : condition.Judged condition.operand := by
  cases kind : condition.kind with
  | present => exact judged_takesNone (.inl kind)
  | absent => exact judged_takesNone (.inr kind)
  | greaterThan => exact judged_comparison (.inl kind)
  | lessThan => exact judged_comparison (.inr kind)
  | equal => exact judged_equal kind
  | beginsWith => exact judged_beginsWith kind

theorem isSome_of_operand {encoded : Option Attribute} (operand : condition.operand = .ok encoded) :
    encoded.isSome = condition.kind.operandName?.isSome := by
  have judged := condition.judged_operand
  rw [operand] at judged
  cases judged with
  | accepted typed taken marshaled => exact taken

theorem compile_ok {aliases tables : Aliases} {clause : Clause}
    (compiled : condition.compile aliases = (.ok clause, tables)) :
    ∃ encoded, condition.operand = .ok encoded ∧
      clause = ⟨condition.relationship, condition.kind, Aliases.nameAlias aliases.names.length,
        encoded.map fun _ => Aliases.valueAlias aliases.values.length⟩ ∧
      tables =
        match encoded with
        | none => (aliases.mintName condition.field).2
        | some content => ((aliases.mintName condition.field).2.mintValue content).2 := by
  simp only [compile] at compiled
  split at compiled
  · simp at compiled
  · rename_i operand
    simp only [Prod.mk.injEq, Except.ok.injEq] at compiled
    exact ⟨none, operand, compiled.1.symm, compiled.2.symm⟩
  · rename_i encoded operand
    simp only [Prod.mk.injEq, Except.ok.injEq] at compiled
    exact ⟨some encoded, operand, compiled.1.symm, compiled.2.symm⟩

theorem compile_error {aliases tables : Aliases} {error : ConditionError}
    (compiled : condition.compile aliases = (.error error, tables)) :
    condition.operand = .error error := by
  simp only [compile] at compiled
  split at compiled
  · rename_i cause operand
    simp only [Prod.mk.injEq, Except.error.injEq] at compiled
    rw [operand, compiled.1]
  · simp at compiled
  · simp at compiled

theorem wellTyped_of_compile {aliases tables : Aliases} {clause : Clause}
    (compiled : condition.compile aliases = (.ok clause, tables)) : condition.WellTyped := by
  obtain ⟨encoded, operand, -⟩ := compile_ok compiled
  have judged := condition.judged_operand
  rw [operand] at judged
  cases judged with
  | accepted typed => exact typed

theorem breaks_of_compile {aliases tables : Aliases} {error : ConditionError}
    (compiled : condition.compile aliases = (.error error, tables)) :
    ¬condition.WellTyped ∧ condition.Breaks error := by
  have judged := condition.judged_operand
  rw [compile_error compiled] at judged
  cases judged with
  | refused untyped breaks => exact ⟨untyped, breaks⟩

theorem compileAll_cons_ok {rest : List Condition} {aliases tables : Aliases}
    {clauses : List Clause}
    (compiled : compileAll (condition :: rest) aliases = (.ok clauses, tables)) :
    ∃ clause after others, condition.compile aliases = (.ok clause, after) ∧
      compileAll rest after = (.ok others, tables) ∧ clauses = clause :: others := by
  simp only [compileAll] at compiled
  split at compiled
  · simp at compiled
  · rename_i clause after first
    split at compiled
    · simp at compiled
    · rename_i others final later
      simp only [Prod.mk.injEq, Except.ok.injEq] at compiled
      exact ⟨clause, after, others, first, compiled.2 ▸ later, compiled.1.symm⟩

theorem wellTyped_of_compileAll {conditions : List Condition} {aliases tables : Aliases}
    {clauses : List Clause} (compiled : compileAll conditions aliases = (.ok clauses, tables)) :
    ∀ condition ∈ conditions, condition.WellTyped := by
  induction conditions generalizing aliases clauses with
  | nil => simp
  | cons condition rest ih =>
      obtain ⟨clause, after, others, first, later, -⟩ := compileAll_cons_ok compiled
      exact List.forall_mem_cons.mpr ⟨wellTyped_of_compile first, ih later⟩

theorem exists_breaking_of_compileAll {conditions : List Condition} {aliases tables : Aliases}
    {error : ConditionError}
    (failed : compileAll conditions aliases = (.error error, tables)) :
    ∃ front condition back, conditions = front ++ condition :: back ∧
      (∀ earlier ∈ front, earlier.WellTyped) ∧ ¬condition.WellTyped ∧
        condition.Breaks error := by
  induction conditions generalizing aliases with
  | nil => simp [compileAll] at failed
  | cons condition rest ih =>
      simp only [compileAll] at failed
      split at failed
      · rename_i cause after compiled
        simp only [Prod.mk.injEq, Except.error.injEq] at failed
        rw [failed.1] at compiled
        exact ⟨[], condition, rest, rfl, by simp, breaks_of_compile compiled⟩
      · rename_i clause after compiled
        split at failed
        · rename_i cause final later
          simp only [Prod.mk.injEq, Except.error.injEq] at failed
          rw [failed.1, failed.2] at later
          obtain ⟨front, breaking, back, rfl, typed, breaks⟩ := ih later
          have first := wellTyped_of_compile compiled
          exact ⟨condition :: front, breaking, back, rfl,
            List.forall_mem_cons.mpr ⟨first, typed⟩, breaks⟩
        · simp at failed

theorem exists_compileAll_iff (conditions : List Condition) (aliases : Aliases) :
    (∃ clauses tables, compileAll conditions aliases = (.ok clauses, tables)) ↔
      ∀ condition ∈ conditions, condition.WellTyped := by
  constructor
  · rintro ⟨clauses, tables, compiled⟩
    exact wellTyped_of_compileAll compiled
  · intro typed
    cases compiled : compileAll conditions aliases with
    | mk outcome tables =>
        cases outcome with
        | ok clauses => exact ⟨clauses, tables, rfl⟩
        | error error =>
            obtain ⟨front, breaking, back, rfl, -, untyped, -⟩ :=
              exists_breaking_of_compileAll compiled
            exact absurd (typed breaking (by simp)) untyped

end Condition

theorem compileConditions_eq_ok_iff {conditions : List Condition} {aliases tables : Aliases}
    {text : String} :
    compileConditions conditions aliases = (.ok text, tables) ↔
      ∃ clauses, Condition.compileAll conditions aliases = (.ok clauses, tables) ∧
        Clause.expression clauses = text := by
  unfold compileConditions
  cases Condition.compileAll conditions aliases with
  | mk outcome after => cases outcome <;> simp [and_comm]

theorem compileConditions_eq_error_iff {conditions : List Condition} {aliases tables : Aliases}
    {error : ConditionError} :
    compileConditions conditions aliases = (.error error, tables) ↔
      Condition.compileAll conditions aliases = (.error error, tables) := by
  unfold compileConditions
  cases Condition.compileAll conditions aliases with
  | mk outcome after => cases outcome <;> simp

theorem exists_compileConditions_iff (conditions : List Condition) (aliases : Aliases) :
    (∃ text tables, compileConditions conditions aliases = (.ok text, tables)) ↔
      ∀ condition ∈ conditions, condition.WellTyped := by
  rw [← Condition.exists_compileAll_iff conditions aliases]
  simp only [compileConditions_eq_ok_iff]
  constructor
  · rintro ⟨text, tables, clauses, compiled, -⟩
    exact ⟨clauses, tables, compiled⟩
  · rintro ⟨clauses, tables, compiled⟩
    exact ⟨_, tables, clauses, compiled, rfl⟩

end KeyedStore
