import KeyedStore.Proofs.Expression.Shape
import KeyedStore.Proofs.Request.Prepare

/-! Requests of one shape send the same expressions: names and values of a request never reach
the text of an expression, only the tables beside it. -/

namespace KeyedStore

/-- Compiled into fresh tables, the updates have the first text, and the conditions, which
share the tables with them, have the second. -/
def UpdateTexts (updates : List Update) (conditions : List Condition) (texts : String × String) :
    Prop :=
  ∃ tables final, compileUpdates updates .empty = (.ok texts.1, tables) ∧
    compileConditions conditions tables = (.ok texts.2, final)

def QueryTexts (conditions filter : List Condition) (texts : String × String) : Prop :=
  ∃ tables final, compileConditions conditions .empty = (.ok texts.1, tables) ∧
    compileConditions filter tables = (.ok texts.2, final)

theorem UpdateTexts.of_shapes {updates others : List Update}
    {conditions otherConditions : List Condition}
    (sameUpdates : updates.map Update.shape = others.map Update.shape)
    (sameConditions : Condition.shapes conditions = Condition.shapes otherConditions)
    {texts otherTexts : String × String} (written : UpdateTexts updates conditions texts)
    (otherWritten : UpdateTexts others otherConditions otherTexts) : texts = otherTexts := by
  obtain ⟨tables, final, updated, conditioned⟩ := written
  obtain ⟨otherTables, otherFinal, otherUpdated, otherConditioned⟩ := otherWritten
  obtain ⟨first, labels⟩ :=
    compileUpdates_of_shapes sameUpdates (.refl .empty) updated otherUpdated
  obtain ⟨second, -⟩ :=
    compileConditions_of_shapes sameConditions labels conditioned otherConditioned
  exact Prod.ext first second

theorem QueryTexts.of_shapes {conditions otherConditions filter otherFilter : List Condition}
    (sameConditions : Condition.shapes conditions = Condition.shapes otherConditions)
    (sameFilter : Condition.shapes filter = Condition.shapes otherFilter)
    {texts otherTexts : String × String} (written : QueryTexts conditions filter texts)
    (otherWritten : QueryTexts otherConditions otherFilter otherTexts) : texts = otherTexts := by
  obtain ⟨tables, final, conditioned, filtered⟩ := written
  obtain ⟨otherTables, otherFinal, otherConditioned, otherFiltered⟩ := otherWritten
  obtain ⟨first, labels⟩ :=
    compileConditions_of_shapes sameConditions (.refl .empty) conditioned otherConditioned
  obtain ⟨second, -⟩ := compileConditions_of_shapes sameFilter labels filtered otherFiltered
  exact Prod.ext first second

namespace Request

structure SameShape (left right : Request) : Prop where
  updates : left.updates.map Update.shape = right.updates.map Update.shape
  conditions : Condition.shapes left.conditions = Condition.shapes right.conditions
  filter : Condition.shapes left.filter = Condition.shapes right.filter

variable {left right : Request}

theorem SameShape.expressions (same : left.SameShape right)
    (sameAction : left.action = right.action) {prepared other : Prepared}
    (ready : left.prepare = .ok prepared) (otherReady : right.prepare = .ok other) :
    prepared.call.expressions = other.call.expressions := by
  unfold prepare at ready otherReady
  rw [← sameAction] at otherReady
  cases action : left.action with
  | put =>
      simp only [action, preparePut_eq_ok_iff, conditionExpression_eq_ok_iff] at ready otherReady
      obtain ⟨-, row, -, condition, aliases, compiled, shape⟩ := ready
      obtain ⟨-, otherRow, -, otherCondition, otherAliases, otherCompiled, otherShape⟩ := otherReady
      have text := compileConditions_of_shapes same.conditions (.refl .empty) compiled otherCompiled
      rw [shape, otherShape, Call.expressions, Call.expressions, text.1]
  | get =>
      simp only [action, prepareGet_eq_ok_iff] at ready otherReady
      obtain ⟨-, row, -, shape⟩ := ready
      obtain ⟨-, otherRow, -, otherShape⟩ := otherReady
      rw [shape, otherShape]
      rfl
  | delete =>
      simp only [action, prepareDelete_eq_ok_iff, conditionExpression_eq_ok_iff] at ready otherReady
      obtain ⟨-, row, -, condition, aliases, compiled, shape⟩ := ready
      obtain ⟨-, otherRow, -, otherCondition, otherAliases, otherCompiled, otherShape⟩ := otherReady
      have text := compileConditions_of_shapes same.conditions (.refl .empty) compiled otherCompiled
      rw [shape, otherShape, Call.expressions, Call.expressions, text.1]
  | update =>
      simp only [action, prepareUpdate_eq_ok_iff, updateExpression_eq_ok_iff,
        conditionExpression_eq_ok_iff] at ready otherReady
      obtain ⟨-, row, -, update, names, updated, condition, aliases, compiled, shape⟩ := ready
      obtain ⟨-, otherRow, -, otherUpdate, otherNames, otherUpdated, otherCondition, otherAliases,
        otherCompiled, otherShape⟩ := otherReady
      have written : UpdateTexts left.updates left.conditions (update, condition) :=
        ⟨names, aliases, updated, compiled⟩
      have otherWritten :
          UpdateTexts right.updates right.conditions (otherUpdate, otherCondition) :=
        ⟨otherNames, otherAliases, otherUpdated, otherCompiled⟩
      have texts := written.of_shapes same.updates same.conditions otherWritten
      simp only [Prod.mk.injEq] at texts
      rw [shape, otherShape, Call.expressions, Call.expressions, texts.1, texts.2]
  | query =>
      simp only [action, prepareQuery_eq_ok_iff, conditionExpression_eq_ok_iff,
        filterExpression_eq_ok_iff] at ready otherReady
      obtain ⟨condition, names, compiled, filter, aliases, filtered, startKey, -, shape⟩ := ready
      obtain ⟨otherCondition, otherNames, otherCompiled, otherFilter, otherAliases, otherFiltered,
        otherStartKey, -, otherShape⟩ := otherReady
      have written : QueryTexts left.conditions left.filter (condition, filter) :=
        ⟨names, aliases, compiled, filtered⟩
      have otherWritten : QueryTexts right.conditions right.filter (otherCondition, otherFilter) :=
        ⟨otherNames, otherAliases, otherCompiled, otherFiltered⟩
      have texts := written.of_shapes same.conditions same.filter otherWritten
      simp only [Prod.mk.injEq] at texts
      rw [shape, otherShape, Call.expressions, Call.expressions, texts.1, texts.2]
  | queryPager =>
      simp only [action, preparePages_eq_ok_iff, conditionExpression_eq_ok_iff] at ready otherReady
      obtain ⟨window, -, condition, aliases, compiled, shape⟩ := ready
      obtain ⟨otherWindow, -, otherCondition, otherAliases, otherCompiled, otherShape⟩ := otherReady
      have text := compileConditions_of_shapes same.conditions (.refl .empty) compiled otherCompiled
      rw [shape, otherShape, Call.expressions, Call.expressions, text.1]

/-- Names and values never reach an expression. Requests of one shape, whatever their fields,
names and values are, have the same texts: of updates and conditions compiled into fresh
tables, of the conditions on a key and a filter, and in the call that either of them makes. -/
theorem expressions_show_shape_only (same : left.SameShape right) :
    (∀ texts others, UpdateTexts left.updates left.conditions texts →
        UpdateTexts right.updates right.conditions others → texts = others) ∧
      (∀ texts others, QueryTexts left.conditions left.filter texts →
        QueryTexts right.conditions right.filter others → texts = others) ∧
      (left.action = right.action → ∀ prepared other, left.prepare = .ok prepared →
        right.prepare = .ok other → prepared.call.expressions = other.call.expressions) := by
  refine ⟨?_, ?_, ?_⟩
  · intro texts others written otherWritten
    exact written.of_shapes same.updates same.conditions otherWritten
  · intro texts others written otherWritten
    exact written.of_shapes same.conditions same.filter otherWritten
  · intro sameAction prepared other ready otherReady
    exact same.expressions sameAction ready otherReady

theorem expressions_show_shape_only_odd_names :
    let plain : Request := {
      table := "notes", action := .update, key := [("id", .string "a")]
      updates := [⟨.put, "/info/tags/-", .string "new"⟩, ⟨.delete, "/list/2/note", .null⟩]
      conditions := [⟨"owner", .equal, .and, some (.string "b")⟩, ⟨"gone", .absent, .or, none⟩] }
    let odd : Request := {
      table := "other", action := .update, key := [("#ename0", .string ":val0")]
      updates := [⟨.update, "/#0ename0/:val0 REMOVE/-", .string " = :val1"⟩,
        ⟨.delete, "/a.b/2/#0ename0,", .string "OR"⟩]
      conditions := [⟨"#ename0 AND", .equal, .or, some (.string ":val0")⟩,
        ⟨":val1)", .absent, .or, none⟩] }
    plain.SameShape odd ∧ ∃ prepared other, plain.prepare = .ok prepared ∧
      odd.prepare = .ok other ∧ prepared.call.expressions = other.call.expressions := by
  intro plain odd
  have same : plain.SameShape odd := by
    constructor <;> decide +kernel
  refine ⟨same, _, _, rfl, rfl, ?_⟩
  exact (expressions_show_shape_only same).2.2 rfl _ _ rfl rfl

end Request

end KeyedStore
