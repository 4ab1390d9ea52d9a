import KeyedStore.Proofs.Expression.Bindings
import KeyedStore.Proofs.Expression.Typing

/-! The shape of a request is all that its expressions show. Two runs of a compiler, on lists
of one shape and with whatever names and values, write the same text: the numbers of aliases
are the sizes of the tables, so it is enough that both runs bind the same aliases, to
different things. -/

namespace KeyedStore

/-- A segment with its name taken away. Positions and the append marker are no names. -/
def segmentShape (segment : String) : Option String :=
  if segment = appendMarker ∨ isPosition segment = true then some segment else none

structure UpdateShape where
  removal : Bool
  segments : List (Option String)
  deriving DecidableEq

def Update.shape (update : Update) : UpdateShape :=
  ⟨update.action = .delete, (pathSegments update.path).map segmentShape⟩

/-- What is left of a condition without its field and its value. No relationship is left of
the first. -/
structure ConditionShape where
  joined : Option Relationship
  kind : ConditionKind
  deriving DecidableEq

def Condition.shapes : List Condition → List ConditionShape
  | [] => []
  | first :: rest =>
      ⟨none, first.kind⟩ ::
        rest.map fun condition => ⟨some condition.relationship, condition.kind⟩

structure Aliases.SameLabels (left right : Aliases) : Prop where
  names : left.names.map Prod.fst = right.names.map Prod.fst
  values : left.values.map Prod.fst = right.values.map Prod.fst

namespace Aliases.SameLabels

variable {left right : Aliases}

theorem refl (aliases : Aliases) : aliases.SameLabels aliases :=
  ⟨rfl, rfl⟩

theorem length_names (same : left.SameLabels right) : left.names.length = right.names.length := by
  simpa using congrArg List.length same.names

theorem length_values (same : left.SameLabels right) :
    left.values.length = right.values.length := by
  simpa using congrArg List.length same.values

theorem bindName (same : left.SameLabels right) (label field other : String) :
    (left.bindName label field).SameLabels (right.bindName label other) :=
  ⟨Fields.names_set_congr same.names label field other, same.values⟩

theorem mintName (same : left.SameLabels right) (field other : String) :
    (left.mintName field).2.SameLabels (right.mintName other).2 := by
  simp only [Aliases.mintName, same.length_names]
  exact same.bindName _ field other

theorem mintValue (same : left.SameLabels right) (content other : Attribute) :
    (left.mintValue content).2.SameLabels (right.mintValue other).2 := by
  simp only [Aliases.mintValue, same.length_values]
  exact ⟨same.names, Fields.names_set_congr same.values _ content other⟩

end Aliases.SameLabels

theorem eq_or_names_of_shape {segment other : String}
    (same : segmentShape segment = segmentShape other) :
    segment = other ∨ (segment ≠ appendMarker ∧ isPosition segment = false) ∧
      other ≠ appendMarker ∧ isPosition other = false := by
  unfold segmentShape at same
  split at same
  · split at same
    · exact .inl (Option.some.inj same)
    · simp at same
  · split at same
    · simp at same
    · simp_all

theorem forall₂_of_map_eq {α β : Type} {shape : α → β} {left right : List α}
    (same : left.map shape = right.map shape) :
    List.Forall₂ (fun one other => shape one = shape other) left right := by
  have equal : List.Forall₂ (· = ·) (left.map shape) (right.map shape) := by
    rw [List.forall₂_eq_eq_eq]
    exact same
  simpa only [List.forall₂_map_left_iff, List.forall₂_map_right_iff] using equal

theorem segmentSteps_of_shape {segments others : List String}
    (alike : List.Forall₂ (fun segment other => segmentShape segment = segmentShape other)
      segments others)
    (number place : Nat) :
    segmentSteps number place segments = segmentSteps number place others := by
  induction alike generalizing place with
  | nil => rfl
  | @cons segment other rest otherRest first later ih =>
      have tail := ih (place + 1)
      rcases eq_or_names_of_shape first with rfl | ⟨⟨name, notPosition⟩, otherName, otherNot⟩
      · simp only [segmentSteps, tail]
      · simp only [segmentSteps, name, otherName, notPosition, otherNot, tail, if_false,
          Bool.false_eq_true]

theorem bindAll_segmentMints_of_shape {segments others : List String}
    (alike : List.Forall₂ (fun segment other => segmentShape segment = segmentShape other)
      segments others)
    (number place : Nat) {left right : Aliases} (labels : left.SameLabels right) :
    (left.bindAll (segmentMints number place segments)).SameLabels
      (right.bindAll (segmentMints number place others)) := by
  induction alike generalizing place left right with
  | nil => exact labels
  | @cons segment other rest otherRest first later ih =>
      rcases eq_or_names_of_shape first with rfl | ⟨⟨name, notPosition⟩, otherName, otherNot⟩
      · simp only [segmentMints]
        split
        · exact labels
        · split
          · split
            · exact labels
            · exact ih (place + 1) labels
          · exact ih (place + 1) (labels.bindName _ segment segment)
      · rw [segmentMints_cons_of_name name notPosition, segmentMints_cons_of_name otherName otherNot]
        exact ih (place + 1) (labels.bindName _ segment other)

theorem endsInMarker_iff_shape (segments : List String) :
    endsInMarker segments = true ↔
      (segments.map segmentShape).getLast? = some (some appendMarker) := by
  have marker_iff : ∀ segment, segmentShape segment = some appendMarker ↔
      segment = appendMarker := by
    intro segment
    unfold segmentShape
    constructor
    · intro shape
      split at shape
      · exact Option.some.inj shape
      · simp at shape
    · intro marker
      simp [marker]
  simp [endsInMarker, List.getLast?_map, marker_iff]

theorem endsInMarker_of_shape {segments others : List String}
    (same : segments.map segmentShape = others.map segmentShape) :
    endsInMarker segments = endsInMarker others := by
  rw [Bool.eq_iff_iff, endsInMarker_iff_shape, endsInMarker_iff_shape, same]

namespace Update

theorem compile_of_shape {update other : Update} (same : update.shape = other.shape)
    {number : Nat} {left right tables otherTables : Aliases} (labels : left.SameLabels right)
    {clause otherClause : UpdateClause}
    (compiled : update.compile number left = (.ok clause, tables))
    (otherCompiled : other.compile number right = (.ok otherClause, otherTables)) :
    clause = otherClause ∧ tables.SameLabels otherTables := by
  simp only [shape, UpdateShape.mk.injEq, decide_eq_decide] at same
  obtain ⟨sameRemoval, sameSegments⟩ := same
  have alike := forall₂_of_map_eq sameSegments
  have bound : (left.bindAll (pathMints number update.path)).SameLabels
      (right.bindAll (pathMints number other.path)) :=
    bindAll_segmentMints_of_shape alike number 0 labels
  have steps := segmentSteps_of_shape alike number 0
  have ends := endsInMarker_of_shape sameSegments
  obtain ⟨-, ⟨removal, -, rfl, rfl⟩ | ⟨assigning, encoded, -, rfl, rfl⟩⟩ :=
    compile_cases compiled
  · obtain ⟨-, ⟨-, -, rfl, rfl⟩ | ⟨otherAssigning, -⟩⟩ := compile_cases otherCompiled
    · exact ⟨by rw [steps], bound⟩
    · exact absurd (sameRemoval.mp removal) otherAssigning
  · obtain ⟨-, ⟨otherRemoval, -⟩ | ⟨-, otherEncoded, -, rfl, rfl⟩⟩ := compile_cases otherCompiled
    · exact absurd (sameRemoval.mpr otherRemoval) assigning
    · exact ⟨by rw [steps, ends, bound.length_values], bound.mintValue encoded otherEncoded⟩

theorem compileAll_of_shapes {updates others : List Update}
    (alike : List.Forall₂ (fun update other => update.shape = other.shape) updates others)
    {number : Nat} {left right tables otherTables : Aliases} (labels : left.SameLabels right)
    {clauses otherClauses : List UpdateClause}
    (compiled : compileAll number updates left = (.ok clauses, tables))
    (otherCompiled : compileAll number others right = (.ok otherClauses, otherTables)) :
    clauses = otherClauses ∧ tables.SameLabels otherTables := by
  induction alike generalizing number left right clauses otherClauses with
  | nil =>
      simp only [compileAll, Prod.mk.injEq, Except.ok.injEq] at compiled otherCompiled
      obtain ⟨rfl, rfl⟩ := compiled
      obtain ⟨rfl, rfl⟩ := otherCompiled
      exact ⟨rfl, labels⟩
  | cons first rest ih =>
      obtain ⟨clause, after, later, begun, next, rfl⟩ := compileAll_cons_ok compiled
      obtain ⟨otherClause, otherAfter, otherLater, otherBegun, otherNext, rfl⟩ :=
        compileAll_cons_ok otherCompiled
      -- the same aliases are bound, so what comes next is numbered alike in both runs
      obtain ⟨rfl, afterLabels⟩ := compile_of_shape first labels begun otherBegun
      obtain ⟨rfl, tablesLabels⟩ := ih afterLabels next otherNext
      exact ⟨rfl, tablesLabels⟩

end Update

theorem compileUpdates_of_shapes {updates others : List Update}
    (same : updates.map Update.shape = others.map Update.shape)
    {left right tables otherTables : Aliases} (labels : left.SameLabels right)
    {text otherText : String} (compiled : compileUpdates updates left = (.ok text, tables))
    (otherCompiled : compileUpdates others right = (.ok otherText, otherTables)) :
    text = otherText ∧ tables.SameLabels otherTables := by
  obtain ⟨clauses, done, rfl⟩ := compileUpdates_ok compiled
  obtain ⟨otherClauses, otherDone, rfl⟩ := compileUpdates_ok otherCompiled
  rw [← labels.length_names] at otherDone
  obtain ⟨rfl, tablesLabels⟩ :=
    Update.compileAll_of_shapes (forall₂_of_map_eq same) labels done otherDone
  exact ⟨rfl, tablesLabels⟩

namespace Condition

theorem compile_of_kind {condition other : Condition} (same : condition.kind = other.kind)
    {left right tables otherTables : Aliases} (labels : left.SameLabels right)
    {clause otherClause : Clause}
    (compiled : condition.compile left = (.ok clause, tables))
    (otherCompiled : other.compile right = (.ok otherClause, otherTables)) :
    clause.text = otherClause.text ∧ tables.SameLabels otherTables := by
  obtain ⟨encoded, operand, rfl, rfl⟩ := compile_ok compiled
  obtain ⟨otherEncoded, otherOperand, rfl, rfl⟩ := compile_ok otherCompiled
  have taken : encoded.isSome = otherEncoded.isSome := by
    rw [isSome_of_operand operand, isSome_of_operand otherOperand, same]
  have named := labels.mintName condition.field other.field
  cases encoded with
  | none =>
      cases otherEncoded with
      | some content => simp at taken
      | none => exact ⟨by rw [labels.length_names, same]; rfl, named⟩
  | some content =>
      cases otherEncoded with
      | none => simp at taken
      | some otherContent =>
          refine ⟨?_, named.mintValue content otherContent⟩
          rw [labels.length_names, labels.length_values, same]
          rfl

theorem relationship_of_compile {condition : Condition} {aliases tables : Aliases}
    {clause : Clause} (compiled : condition.compile aliases = (.ok clause, tables)) :
    clause.relationship = condition.relationship := by
  obtain ⟨encoded, -, rfl, -⟩ := compile_ok compiled
  rfl

theorem joinedText_of_shapes {conditions others : List Condition}
    (alike : List.Forall₂ (fun condition other => condition.relationship = other.relationship ∧
      condition.kind = other.kind) conditions others)
    {left right tables otherTables : Aliases} (labels : left.SameLabels right)
    {clauses otherClauses : List Clause}
    (compiled : compileAll conditions left = (.ok clauses, tables))
    (otherCompiled : compileAll others right = (.ok otherClauses, otherTables)) :
    Clause.joinedText clauses = Clause.joinedText otherClauses ∧
      tables.SameLabels otherTables := by
  induction alike generalizing left right clauses otherClauses with
  | nil =>
      simp only [compileAll, Prod.mk.injEq, Except.ok.injEq] at compiled otherCompiled
      obtain ⟨rfl, rfl⟩ := compiled
      obtain ⟨rfl, rfl⟩ := otherCompiled
      exact ⟨rfl, labels⟩
  | cons first rest ih =>
      obtain ⟨clause, after, later, begun, next, rfl⟩ := compileAll_cons_ok compiled
      obtain ⟨otherClause, otherAfter, otherLater, otherBegun, otherNext, rfl⟩ :=
        compileAll_cons_ok otherCompiled
      obtain ⟨text, afterLabels⟩ := compile_of_kind first.2 labels begun otherBegun
      obtain ⟨joined, tablesLabels⟩ := ih afterLabels next otherNext
      refine ⟨?_, tablesLabels⟩
      simp only [Clause.joinedText, text, joined, relationship_of_compile begun,
        relationship_of_compile otherBegun, first.1]

theorem expression_of_shapes {conditions others : List Condition}
    (same : shapes conditions = shapes others) {left right tables otherTables : Aliases}
    (labels : left.SameLabels right) {clauses otherClauses : List Clause}
    (compiled : compileAll conditions left = (.ok clauses, tables))
    (otherCompiled : compileAll others right = (.ok otherClauses, otherTables)) :
    Clause.expression clauses = Clause.expression otherClauses ∧
      tables.SameLabels otherTables := by
  cases conditions with
  | nil =>
      cases others with
      | cons other otherRest => simp [shapes] at same
      | nil =>
          simp only [compileAll, Prod.mk.injEq, Except.ok.injEq] at compiled otherCompiled
          obtain ⟨rfl, rfl⟩ := compiled
          obtain ⟨rfl, rfl⟩ := otherCompiled
          exact ⟨rfl, labels⟩
  | cons condition rest =>
      cases others with
      | nil => simp [shapes] at same
      | cons other otherRest =>
          simp only [shapes, List.cons.injEq, ConditionShape.mk.injEq, true_and] at same
          obtain ⟨sameKind, sameRest⟩ := same
          have alike := forall₂_of_map_eq sameRest
          simp only [ConditionShape.mk.injEq, Option.some.injEq] at alike
          obtain ⟨clause, after, later, first, next, rfl⟩ := compileAll_cons_ok compiled
          obtain ⟨otherClause, otherAfter, otherLater, otherFirst, otherNext, rfl⟩ :=
            compileAll_cons_ok otherCompiled
          obtain ⟨text, afterLabels⟩ := compile_of_kind sameKind labels first otherFirst
          obtain ⟨joined, tablesLabels⟩ := joinedText_of_shapes alike afterLabels next otherNext
          exact ⟨by rw [Clause.expression, Clause.expression, text, joined], tablesLabels⟩

end Condition

theorem compileConditions_of_shapes {conditions others : List Condition}
    (same : Condition.shapes conditions = Condition.shapes others)
    {left right tables otherTables : Aliases} (labels : left.SameLabels right)
    {text otherText : String} (compiled : compileConditions conditions left = (.ok text, tables))
    (otherCompiled : compileConditions others right = (.ok otherText, otherTables)) :
    text = otherText ∧ tables.SameLabels otherTables := by
  obtain ⟨clauses, done, rfl⟩ := compileConditions_eq_ok_iff.mp compiled
  obtain ⟨otherClauses, otherDone, rfl⟩ := compileConditions_eq_ok_iff.mp otherCompiled
  exact Condition.expression_of_shapes same labels done otherDone

end KeyedStore
