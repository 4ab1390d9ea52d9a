import KeyedStore.Proofs.Expression.ConditionReader
import KeyedStore.Proofs.Expression.Freshness
import KeyedStore.Proofs.Expression.Typing

/-! Condition expressions lose nothing: the text of one, with its aliases looked up in the
tables, gives back every condition it was compiled from, whatever stood in the tables
before. Only the relationship of the first condition is not written down. -/

namespace KeyedStore

namespace Aliases

def resolveQuestion? (aliases : Aliases) (question : Question String) :
    Option (Question Attribute) := do
  let field ← aliases.names.get? question.name
  match question.operand with
  | none => return ⟨question.joined, question.kind, field, none⟩
  | some label =>
      let content ← aliases.values.get? label
      return ⟨question.joined, question.kind, field, some content⟩

end Aliases

def readConditions? (text : String) (aliases : Aliases) : Option (List (Question Attribute)) := do
  let questions ← ConditionReader.read? text
  questions.mapM aliases.resolveQuestion?

def Question.encoded (question : Question Attribute) : Question (Except MarshalError Attribute) :=
  ⟨question.joined, question.kind, question.name, question.operand.map .ok⟩

namespace Condition

def question (joined : Option Relationship) (condition : Condition) :
    Question (Except MarshalError Attribute) :=
  ⟨joined, condition.kind, condition.field, condition.value.map Value.marshal⟩

/-- What conditions ask, all of it but the relationship of the first. -/
def questions : List Condition → List (Question (Except MarshalError Attribute))
  | [] => []
  | first :: rest =>
      first.question none ::
        rest.map fun condition => condition.question (some condition.relationship)

def unjoined : List Condition → List Condition
  | [] => []
  | first :: rest => { first with relationship := .and } :: rest

theorem WellTyped.exists_marshal {condition : Condition} (typed : condition.WellTyped) :
    ∃ encoded, condition.value.map Value.marshal = Option.map Except.ok encoded := by
  have judged := condition.judged_operand
  cases operand : condition.operand with
  | ok encoded =>
      rw [operand] at judged
      cases judged with
      | accepted typed taken marshaled => exact ⟨encoded, marshaled.symm⟩
  | error error =>
      rw [operand] at judged
      cases judged with
      | refused untyped breaks => exact absurd typed untyped

theorem eq_of_question {left right : Condition} (typed : left.WellTyped)
    {joined other : Option Relationship} (same : left.question joined = right.question other) :
    joined = other ∧ { left with relationship := .and } = { right with relationship := .and } := by
  obtain ⟨encoded, marshaled⟩ := typed.exists_marshal
  simp only [question, Question.mk.injEq] at same
  obtain ⟨sameJoined, sameKind, sameField, sameOperand⟩ := same
  have sameValue : left.value = right.value := by
    cases leftValue : left.value with
    | none =>
        cases rightValue : right.value with
        | none => rfl
        | some value => simp [leftValue, rightValue] at sameOperand
    | some value =>
        cases rightValue : right.value with
        | none => simp [leftValue, rightValue] at sameOperand
        | some other =>
            simp only [leftValue, rightValue, Option.map_some, Option.some.injEq] at sameOperand
            cases encoded with
            | none => simp [leftValue] at marshaled
            | some content =>
                have written : value.marshal = .ok content := by simpa [leftValue] using marshaled
                have otherWritten := written
                rw [sameOperand] at otherWritten
                have read := Attribute.unmarshal_marshal written
                rw [Attribute.unmarshal_marshal otherWritten, Except.ok.injEq] at read
                rw [read]
  exact ⟨sameJoined, by rw [sameKind, sameField, sameValue]⟩

theorem eq_of_questions_joined {left right : List Condition}
    (typed : ∀ condition ∈ left, condition.WellTyped)
    (same : (left.map fun condition => condition.question (some condition.relationship)) =
      right.map fun condition => condition.question (some condition.relationship)) :
    left = right := by
  induction left generalizing right with
  | nil => simpa using same.symm
  | cons first rest ih =>
      cases right with
      | nil => simp at same
      | cons other others =>
          obtain ⟨firstTyped, restTyped⟩ := List.forall_mem_cons.mp typed
          simp only [List.map_cons, List.cons.injEq] at same
          obtain ⟨joined, parts⟩ := eq_of_question firstTyped same.1
          have sameFirst : first = other := by
            obtain ⟨field, kind, relationship, value⟩ := first
            obtain ⟨otherField, otherKind, otherRelationship, otherValue⟩ := other
            simp_all
          rw [sameFirst, ih restTyped same.2]

theorem unjoined_eq_of_questions {left right : List Condition}
    (typed : ∀ condition ∈ left, condition.WellTyped)
    (same : questions left = questions right) : unjoined left = unjoined right := by
  cases left with
  | nil =>
      cases right with
      | nil => rfl
      | cons other others => simp [questions] at same
  | cons first rest =>
      cases right with
      | nil => simp [questions] at same
      | cons other others =>
          obtain ⟨firstTyped, restTyped⟩ := List.forall_mem_cons.mp typed
          simp only [questions, List.cons.injEq] at same
          rw [unjoined, unjoined, (eq_of_question firstTyped same.1).2,
            eq_of_questions_joined restTyped same.2]

theorem readable_of_compile {condition : Condition} {aliases tables : Aliases} {clause : Clause}
    (compiled : condition.compile aliases = (.ok clause, tables)) : clause.Readable := by
  obtain ⟨encoded, operand, rfl, -⟩ := compile_ok compiled
  refine ⟨.nameAlias _, by simpa using isSome_of_operand operand, ?_⟩
  intro label member
  obtain ⟨content, -, rfl⟩ := Option.map_eq_some_iff.mp member
  exact .valueAlias _

theorem readable_of_compileAll {conditions : List Condition} {aliases tables : Aliases}
    {clauses : List Clause} (compiled : compileAll conditions aliases = (.ok clauses, tables)) :
    ∀ clause ∈ clauses, clause.Readable := by
  induction conditions generalizing aliases clauses with
  | nil =>
      simp only [compileAll, Prod.mk.injEq, Except.ok.injEq] at compiled
      simp [← compiled.1]
  | cons condition rest ih =>
      obtain ⟨clause, next, others, first, later, rfl⟩ := compileAll_cons_ok compiled
      exact List.forall_mem_cons.mpr ⟨readable_of_compile first, ih later⟩

theorem clause_resolves {condition : Condition} {aliases after tables : Aliases}
    {clause : Clause} (compiled : condition.compile aliases = (.ok clause, after))
    (held : ∀ mint ∈ condition.mints aliases, tables.Holds mint) :
    clause.relationship = condition.relationship ∧
      ∀ joined, ∃ question, tables.resolveQuestion? (clause.question joined) = some question ∧
        question.encoded = condition.question joined := by
  obtain ⟨encoded, operand, rfl, -⟩ := compile_ok compiled
  have judged := condition.judged_operand
  rw [operand] at judged
  cases judged with
  | accepted typed taken marshaled =>
      refine ⟨rfl, fun joined => ?_⟩
      simp only [mints, operand] at held
      cases encoded with
      | none =>
          have name := held _ (List.mem_cons_self ..)
          simp only [Aliases.Holds] at name
          refine ⟨⟨joined, condition.kind, condition.field, none⟩, ?_, ?_⟩
          · simp [Aliases.resolveQuestion?, Clause.question, name]
          · simp [Question.encoded, question, ← marshaled]
      | some content =>
          obtain ⟨name, rest⟩ := List.forall_mem_cons.mp held
          have value := List.forall_mem_singleton.mp rest
          simp only [Aliases.Holds] at name value
          refine ⟨⟨joined, condition.kind, condition.field, some content⟩, ?_, ?_⟩
          · simp [Aliases.resolveQuestion?, Clause.question, name, value]
          · simp [Question.encoded, question, ← marshaled]

theorem clauses_resolve {conditions : List Condition} {aliases after tables : Aliases}
    {clauses : List Clause} (compiled : compileAll conditions aliases = (.ok clauses, after))
    (held : ∀ mint ∈ mintsAll conditions aliases, tables.Holds mint) :
    ∃ questions,
      (clauses.map fun clause => clause.question (some clause.relationship)).mapM
          tables.resolveQuestion? = some questions ∧
        questions.map Question.encoded =
          conditions.map fun condition => condition.question (some condition.relationship) := by
  -- the aliases are looked up in the tables at the end, which stay fixed along the list
  induction conditions generalizing aliases clauses with
  | nil =>
      simp only [compileAll, Prod.mk.injEq, Except.ok.injEq] at compiled
      rw [← compiled.1]
      exact ⟨[], rfl, rfl⟩
  | cons condition rest ih =>
      obtain ⟨clause, next, others, first, later, rfl⟩ := compileAll_cons_ok compiled
      simp only [mintsAll, first] at held
      obtain ⟨ownHeld, restHeld⟩ := List.forall_mem_append.mp held
      obtain ⟨sameJoined, resolves⟩ := clause_resolves first ownHeld
      obtain ⟨question, resolved, asked⟩ := resolves (some clause.relationship)
      obtain ⟨questions, restResolved, restAsked⟩ := ih later restHeld
      refine ⟨question :: questions, ?_, ?_⟩
      · rw [List.map_cons, List.mapM_cons, resolved, restResolved]
        rfl
      · rw [List.map_cons, List.map_cons, asked, restAsked, sameJoined]

theorem readConditions?_expression {conditions : List Condition}
    {aliases after tables : Aliases} {clauses : List Clause}
    (compiled : compileAll conditions aliases = (.ok clauses, after))
    (held : ∀ mint ∈ mintsAll conditions aliases, tables.Holds mint) :
    ∃ asked, readConditions? (Clause.expression clauses) tables = some asked ∧
      asked.map Question.encoded = questions conditions := by
  rw [readConditions?, ConditionReader.read?_expression (readable_of_compileAll compiled)]
  cases conditions with
  | nil =>
      simp only [compileAll, Prod.mk.injEq, Except.ok.injEq] at compiled
      rw [← compiled.1]
      exact ⟨[], rfl, rfl⟩
  | cons condition rest =>
      obtain ⟨clause, next, others, first, later, rfl⟩ := compileAll_cons_ok compiled
      simp only [mintsAll, first] at held
      obtain ⟨ownHeld, restHeld⟩ := List.forall_mem_append.mp held
      obtain ⟨question, resolved, asked⟩ := (clause_resolves first ownHeld).2 none
      obtain ⟨rest, restResolved, restAsked⟩ := clauses_resolve later restHeld
      refine ⟨question :: rest, ?_, ?_⟩
      · simp [Clause.questions, resolved, restResolved]
      · rw [List.map_cons, asked, restAsked, questions]

theorem clauses_eq_nil_iff {conditions : List Condition} {aliases after : Aliases}
    {clauses : List Clause} (compiled : compileAll conditions aliases = (.ok clauses, after)) :
    clauses = [] ↔ conditions = [] := by
  cases conditions with
  | nil =>
      simp only [compileAll, Prod.mk.injEq, Except.ok.injEq] at compiled
      simp [← compiled.1]
  | cons condition rest =>
      obtain ⟨clause, next, others, -, -, rfl⟩ := compileAll_cons_ok compiled
      simp

end Condition

theorem compileConditions_reads_back {conditions : List Condition} {start tables : Aliases}
    {text : String} (numbered : start.Numbered)
    (compiled : compileConditions conditions start = (.ok text, tables)) :
    (∃ asked, readConditions? text tables = some asked ∧
      asked.map Question.encoded = Condition.questions conditions) ∧
        (text = "" ↔ conditions = []) := by
  obtain ⟨clauses, compiledAll, rfl⟩ := compileConditions_eq_ok_iff.mp compiled
  have written := Condition.compileAll_tables conditions start
  rw [compiledAll] at written
  have held : ∀ mint ∈ Condition.mintsAll conditions start, tables.Holds mint := by
    rw [show tables = _ from written]
    exact (Condition.fresh_mintsAll conditions numbered).1.holds_all
  refine ⟨Condition.readConditions?_expression compiledAll held, ?_⟩
  rw [Clause.expression_eq_empty_iff (Condition.readable_of_compileAll compiledAll),
    Condition.clauses_eq_nil_iff compiledAll]

theorem unjoined_eq_of_compileConditions {conditions others : List Condition}
    {start tables : Aliases} {text : String} (numbered : start.Numbered)
    (compiled : compileConditions conditions start = (.ok text, tables))
    (sameCompiled : compileConditions others start = (.ok text, tables)) :
    Condition.unjoined others = Condition.unjoined conditions := by
  obtain ⟨⟨asked, read, same⟩, -⟩ := compileConditions_reads_back numbered compiled
  obtain ⟨⟨otherAsked, otherRead, otherSame⟩, -⟩ :=
    compileConditions_reads_back numbered sameCompiled
  rw [read, Option.some.injEq] at otherRead
  rw [← otherRead, same] at otherSame
  obtain ⟨clauses, compiledAll, -⟩ := compileConditions_eq_ok_iff.mp compiled
  have typed := Condition.wellTyped_of_compileAll compiledAll
  exact (Condition.unjoined_eq_of_questions typed otherSame).symm

/-- Conditions compiled on tables that any calls left succeed exactly when all of them are
well typed. The text then reads back, through the tables, as what every condition asks, so
no other conditions have this text and these tables, but for the relationship of the first,
and there is no text exactly when there are no conditions. Otherwise the first condition
that is not well typed decides the error. -/
theorem compileConditions_loses_nothing (earlier : List AliasCall) (conditions : List Condition) :
    let start := AliasCall.performAll earlier .empty
    ((∃ text tables, compileConditions conditions start = (.ok text, tables)) ↔
        ∀ condition ∈ conditions, condition.WellTyped) ∧
      match compileConditions conditions start with
      | (.ok text, tables) =>
          (∃ asked, readConditions? text tables = some asked ∧
            asked.map Question.encoded = Condition.questions conditions) ∧
          (∀ others, compileConditions others start = (.ok text, tables) →
            Condition.unjoined others = Condition.unjoined conditions) ∧
          (text = "" ↔ conditions = [])
      | (.error error, _) =>
          ∃ front condition back, conditions = front ++ condition :: back ∧
            (∀ earlier ∈ front, earlier.WellTyped) ∧ ¬condition.WellTyped ∧
              condition.Breaks error := by
  intro start
  have numbered : start.Numbered := AliasCall.numbered_performAll earlier
  refine ⟨exists_compileConditions_iff conditions start, ?_⟩
  cases compiled : compileConditions conditions start with
  | mk outcome tables =>
      cases outcome with
      | ok text =>
          obtain ⟨reads, empty⟩ := compileConditions_reads_back numbered compiled
          exact ⟨reads, fun others => unjoined_eq_of_compileConditions numbered compiled, empty⟩
      | error error =>
          exact Condition.exists_breaking_of_compileAll (compileConditions_eq_error_iff.mp compiled)

end KeyedStore
