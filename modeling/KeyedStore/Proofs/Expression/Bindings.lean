import KeyedStore.Expression.Condition
import KeyedStore.Proofs.Expression.Update

/-! The bindings that conditions and updates write to alias tables. The tables a
compilation leaves, whether it succeeds or stops midway, are those it was given with its
bindings written one after another; and the aliases in the clauses of one that succeeds are
those of its bindings, in their order. -/

namespace KeyedStore

namespace Condition

def mints (condition : Condition) (aliases : Aliases) : List Mint :=
  .name (Aliases.nameAlias aliases.names.length) condition.field ::
    match condition.operand with
    | .ok (some encoded) => [.value (Aliases.valueAlias aliases.values.length) encoded]
    | _ => []

def mintsAll : List Condition → Aliases → List Mint
  | [], _ => []
  | condition :: rest, aliases =>
      condition.mints aliases ++
        match condition.compile aliases with
        | (.error _, _) => []
        | (.ok _, tables) => mintsAll rest tables

theorem compile_tables (condition : Condition) (aliases : Aliases) :
    (condition.compile aliases).2 = aliases.bindAll (condition.mints aliases) := by
  cases operand : condition.operand with
  | error error => simp [compile, mints, operand, Aliases.mintName, Aliases.bind]
  | ok encoded =>
      cases encoded with
      | none => simp [compile, mints, operand, Aliases.mintName, Aliases.bind]
      | some encoded =>
          simp [compile, mints, operand, Aliases.mintName, Aliases.mintValue, Aliases.bind,
            Aliases.bindName]

theorem compileAll_tables (conditions : List Condition) (aliases : Aliases) :
    (compileAll conditions aliases).2 = aliases.bindAll (mintsAll conditions aliases) := by
  induction conditions generalizing aliases with
  | nil => rfl
  | cons condition rest ih =>
      have first := condition.compile_tables aliases
      simp only [compileAll, mintsAll, Aliases.bindAll_append, ← first]
      split
      · rename_i error tables compiled
        simp [compiled]
      · rename_i clause tables compiled
        simp only [compiled]
        rw [← ih]
        split <;> simp_all

end Condition

namespace Update

def valueMints (update : Update) (aliases : Aliases) : List Mint :=
  if update.action = .delete then []
  else
    match update.assigned with
    | .error _ => []
    | .ok encoded => [.value (Aliases.valueAlias aliases.values.length) encoded]

def mints (number : Nat) (update : Update) (aliases : Aliases) : List Mint :=
  pathMints number update.path ++
    match compilePath update.path number aliases with
    | (.error _, _) => []
    | (.ok _, tables) => update.valueMints tables

def mintsAll : Nat → List Update → Aliases → List Mint
  | _, [], _ => []
  | number, update :: rest, aliases =>
      update.mints number aliases ++
        match update.compile number aliases with
        | (.error _, _) => []
        | (.ok _, tables) => mintsAll (number + 1) rest tables

theorem compile_tables (number : Nat) (update : Update) (aliases : Aliases) :
    (update.compile number aliases).2 = aliases.bindAll (update.mints number aliases) := by
  have path := compilePath_tables update.path number aliases
  simp only [compile, mints, Aliases.bindAll_append, ← path]
  split
  · rename_i fault tables compiled
    simp [compiled]
  · rename_i expression tables compiled
    simp only [compiled, valueMints]
    cases update.action with
    | delete => cases expression.append <;> rfl
    | put => cases update.assigned <;> rfl
    | update => cases update.assigned <;> rfl

theorem compileAll_tables (number : Nat) (updates : List Update) (aliases : Aliases) :
    (compileAll number updates aliases).2 =
      aliases.bindAll (mintsAll number updates aliases) := by
  induction updates generalizing number aliases with
  | nil => rfl
  | cons update rest ih =>
      have first := update.compile_tables number aliases
      simp only [compileAll, mintsAll, Aliases.bindAll_append, ← first]
      split
      · rename_i error tables compiled
        simp [compiled]
      · rename_i clause tables compiled
        simp only [compiled]
        rw [← ih]
        split <;> simp_all

end Update

def Step.label? : Step → Option String
  | .name label => some label
  | .position _ => none

def Clause.labels (clause : Clause) : List String :=
  clause.name :: clause.value.toList

def UpdateClause.labels : UpdateClause → List String
  | .assign path value => path.steps.filterMap Step.label? ++ [value]
  | .remove steps => steps.filterMap Step.label?

theorem labels_segmentSteps {segments : List String} (admitted : AdmitsRest segments)
    (number : Nat) {place : Nat} (begun : place ≠ 0 ∨ Admits segments) :
    (segmentSteps number place segments).filterMap Step.label? =
      (segmentMints number place segments).map Mint.label := by
  induction segments generalizing place with
  | nil => rfl
  | cons segment rest ih =>
      obtain ⟨filled, last, restAdmitted⟩ := admitted
      have next := ih restAdmitted (.inl (Nat.succ_ne_zero place))
      by_cases marker : segment = appendMarker
      · simp [marker, last marker, segmentSteps, segmentMints]
      · by_cases position : isPosition segment = true
        · have later := place_ne_zero_of_isPosition begun position
          simp [segmentSteps, segmentMints, filled, marker, position, later, List.filterMap_cons,
            Step.label?, next]
        · simp [segmentSteps, segmentMints, filled, marker, position, Step.label?, Mint.label, next]

theorem Condition.labels_compile {condition : Condition} {aliases tables : Aliases}
    {clause : Clause} (compiled : condition.compile aliases = (.ok clause, tables)) :
    clause.labels = (condition.mints aliases).map Mint.label := by
  simp only [compile] at compiled
  split at compiled
  · simp at compiled
  · rename_i operand
    simp only [Prod.mk.injEq, Except.ok.injEq] at compiled
    rw [← compiled.1]
    simp [Clause.labels, mints, operand, Mint.label, Aliases.mintName]
  · rename_i encoded operand
    simp only [Prod.mk.injEq, Except.ok.injEq] at compiled
    rw [← compiled.1]
    simp [Clause.labels, mints, operand, Mint.label, Aliases.mintName, Aliases.mintValue,
      Aliases.bindName]

theorem Condition.labels_compileAll {conditions : List Condition} {aliases tables : Aliases}
    {clauses : List Clause} (compiled : compileAll conditions aliases = (.ok clauses, tables)) :
    clauses.flatMap Clause.labels = (mintsAll conditions aliases).map Mint.label := by
  induction conditions generalizing aliases clauses with
  | nil =>
      simp only [compileAll, Prod.mk.injEq, Except.ok.injEq] at compiled
      simp [← compiled.1, mintsAll]
  | cons condition rest ih =>
      simp only [compileAll] at compiled
      split at compiled
      · simp at compiled
      · rename_i clause after first
        split at compiled
        · simp at compiled
        · rename_i others final later
          simp only [Prod.mk.injEq, Except.ok.injEq] at compiled
          obtain ⟨rfl, rfl⟩ := compiled
          simp [mintsAll, first, Condition.labels_compile first, ih later]

theorem Update.labels_compile {number : Nat} {update : Update} {aliases tables : Aliases}
    {clause : UpdateClause} (compiled : update.compile number aliases = (.ok clause, tables)) :
    clause.labels = (update.mints number aliases).map Mint.label := by
  obtain ⟨admitted, action⟩ := compile_cases compiled
  have path : (segmentSteps number 0 (pathSegments update.path)).filterMap Step.label? =
      (pathMints number update.path).map Mint.label :=
    labels_segmentSteps admitted.admitsRest number (.inr admitted)
  simp only [mints, compilePath_of_admits admitted, List.map_append, ← path]
  rcases action with ⟨removal, -, rfl, -⟩ | ⟨assigning, encoded, assigned, rfl, -⟩
  · simp [UpdateClause.labels, valueMints, removal]
  · simp [UpdateClause.labels, valueMints, assigning, assigned, Mint.label]

theorem Update.labels_compileAll {number : Nat} {updates : List Update}
    {aliases tables : Aliases} {clauses : List UpdateClause}
    (compiled : compileAll number updates aliases = (.ok clauses, tables)) :
    clauses.flatMap UpdateClause.labels =
      (mintsAll number updates aliases).map Mint.label := by
  induction updates generalizing number aliases clauses with
  | nil =>
      simp only [compileAll, Prod.mk.injEq, Except.ok.injEq] at compiled
      simp [← compiled.1, mintsAll]
  | cons update rest ih =>
      obtain ⟨clause, after, others, first, later, rfl⟩ := compileAll_cons_ok compiled
      simp [mintsAll, first, Update.labels_compile first, ih later]

end KeyedStore
