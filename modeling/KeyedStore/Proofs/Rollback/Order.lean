import KeyedStore.Proofs.Backend.Cells
import KeyedStore.Proofs.Rollback.Attempts
import KeyedStore.Proofs.Rollback.Reverse
import Mathlib.Data.List.Perm.Basic

/-! Rolling back in either order. On a backend made of cells, undoing an operation reads and
writes the cell of its key. Operations at different cells do not see each other undone, so it
does not matter which of them is undone first. -/

namespace KeyedStore

def errorOf? {ε α : Type} : Except ε α → Option ε
  | .error error => some error
  | .ok _ => none

namespace LoggedOperation

def Writes (operation : LoggedOperation) : Prop :=
  operation.request.action.operation.writes = true

/-- The calls that undo the two operations, if both are undone by one, are at two cells. -/
def Apart (keyFields : List String) (operation other : LoggedOperation) : Prop :=
  ∀ call otherCall, operation.undoCall = .ok (some call) →
    other.undoCall = .ok (some otherCall) → call.cell keyFields ≠ otherCall.cell keyFields

theorem undoCall_eq_some_iff {operation : LoggedOperation} {call : Call} :
    operation.undoCall = .ok (some call) ↔
      ∃ undo prepared, operation.compensate = .ok (some undo) ∧ undo.prepare = .ok prepared ∧
        prepared.call = call := by
  unfold undoCall
  split
  · rename_i error compensated
    simp [compensated]
  · rename_i compensated
    simp [compensated]
  · rename_i undo compensated
    cases ready : undo.prepare with
    | error error => simp [compensated, ready, Except.map]
    | ok prepared => simp [compensated, ready, Except.map]

theorem writes_of_compensate {operation : LoggedOperation} {undo : Request}
    (compensated : operation.compensate = .ok (some undo)) :
    operation.Writes ∧ undo.action.operation.writes = true := by
  constructor
  · unfold Writes
    cases action : operation.request.action with
    | put => rfl
    | update => rfl
    | delete => rfl
    | get => simp [compensate_read, action] at compensated
    | query => simp [compensate_read, action] at compensated
    | queryPager => simp [compensate_read, action] at compensated
  · rcases compensate_some_cases compensated with
      delete | ⟨row, item, -, -, put⟩ | ⟨item, update⟩
    · rw [delete]
      rfl
    · rw [put]
      rfl
    · rw [update]
      rfl

theorem cell_of_undoCall {keyFields : List String} {operation : LoggedOperation} {call : Call}
    (ordered : operation.Ordered)
    (names : ∀ name ∈ keyFields, name ∈ operation.request.key.map Prod.fst)
    (sent : operation.undoCall = .ok (some call)) :
    ∃ row, operation.request.key.marshal = .ok row ∧
      call.cell keyFields = (operation.request.table, row.cell keyFields) := by
  obtain ⟨undo, prepared, compensated, ready, rfl⟩ := undoCall_eq_some_iff.mp sent
  obtain ⟨row, keyWritten, sameTable, shape⟩ := call_of_compensate ordered compensated ready
  refine ⟨row, keyWritten, ?_⟩
  cases called : prepared.call with
  | put call =>
      rw [called] at sameTable shape
      obtain ⟨old, ascending, written⟩ := shape
      have sameCell := cell_marshal_overlay ascending ordered.key names written keyWritten
      exact Prod.ext sameTable sameCell
  | delete call =>
      rw [called] at sameTable shape
      exact Prod.ext sameTable (congrArg (AttributeMap.cell keyFields) shape)
  | update call =>
      rw [called] at sameTable shape
      exact Prod.ext sameTable (congrArg (AttributeMap.cell keyFields) shape)
  | get call => simp [called] at shape
  | query call => simp [called] at shape
  | queryPages call => simp [called] at shape

end LoggedOperation

/-- The writes of the log have keys with all key fields and are at pairwise different cells. -/
structure OperationLog.Independent (keyFields : List String) (log : OperationLog) : Prop where
  ordered : ∀ operation ∈ log.entries, operation.Writes → operation.Ordered
  names : ∀ operation ∈ log.entries, operation.Writes →
    ∀ name ∈ keyFields, name ∈ operation.request.key.map Prod.fst
  distinct : log.entries.Pairwise fun operation other => operation.Writes → other.Writes →
    ∀ row otherRow, operation.request.key.marshal = .ok row →
      other.request.key.marshal = .ok otherRow →
        operation.request.table ≠ other.request.table ∨
          row.cell keyFields ≠ otherRow.cell keyFields

theorem OperationLog.Independent.apart {keyFields : List String} {log : OperationLog}
    (independent : log.Independent keyFields) :
    log.entries.Pairwise (LoggedOperation.Apart keyFields) := by
  apply independent.distinct.imp_of_mem
  intro operation other member otherMember distinct call otherCall sent otherSent
  have writes {operation : LoggedOperation} {call : Call}
      (sent : operation.undoCall = .ok (some call)) : operation.Writes := by
    obtain ⟨undo, prepared, compensated, -⟩ := LoggedOperation.undoCall_eq_some_iff.mp sent
    exact (LoggedOperation.writes_of_compensate compensated).1
  obtain ⟨row, written, cell⟩ := LoggedOperation.cell_of_undoCall
    (independent.ordered operation member (writes sent))
    (independent.names operation member (writes sent)) sent
  obtain ⟨otherRow, otherWritten, otherCell⟩ := LoggedOperation.cell_of_undoCall
    (independent.ordered other otherMember (writes otherSent))
    (independent.names other otherMember (writes otherSent)) otherSent
  rw [cell, otherCell]
  intro same
  obtain ⟨sameTable, sameFields⟩ := Prod.mk.inj same
  rcases distinct (writes sent) (writes otherSent) row otherRow written otherWritten with
    differs | differs
  · exact differs sameTable
  · exact differs sameFields

namespace CellView

variable {State : Type} {backend : Backend State} {keyFields : List String} {Content : Type}
  (view : CellView backend keyFields Content)

def undoOutcome (contents : Cell → Content) (operation : LoggedOperation) :
    Except StoreError Unit :=
  match operation.undoCall with
  | .error error => .error error
  | .ok none => .ok ()
  | .ok (some call) =>
      (view.outcome call (contents (call.cell keyFields))).mapError (.backendFailed call.operation)

def undone (contents : Cell → Content) (operation : LoggedOperation) : Cell → Content :=
  match operation.undoCall with
  | .ok (some call) =>
      Function.update contents (call.cell keyFields)
        (view.next call (contents (call.cell keyFields)))
  | _ => contents

variable {operation other : LoggedOperation}

theorem undoOutcome_undone (apart : operation.Apart keyFields other) (contents : Cell → Content) :
    view.undoOutcome (view.undone contents operation) other = view.undoOutcome contents other := by
  unfold undone
  split
  · rename_i call sent
    unfold undoOutcome
    split
    · rfl
    · rfl
    · rename_i otherCall otherSent
      rw [Function.update_of_ne (apart call otherCall sent otherSent).symm]
  · rfl

theorem undone_comm (apart : operation.Apart keyFields other) (contents : Cell → Content) :
    view.undone (view.undone contents operation) other =
      view.undone (view.undone contents other) operation := by
  cases sent : operation.undoCall with
  | error error => simp [undone, sent]
  | ok call? =>
      cases call? with
      | none => simp [undone, sent]
      | some call =>
          cases otherSent : other.undoCall with
          | error error => simp [undone, sent, otherSent]
          | ok otherCall? =>
              cases otherCall? with
              | none => simp [undone, sent, otherSent]
              | some otherCall =>
                  have differs := apart call otherCall sent otherSent
                  simp only [undone, sent, otherSent, Function.update_of_ne differs,
                    Function.update_of_ne differs.symm]
                  exact Function.update_comm differs _ _ _

theorem foldl_undone_perm {operations others : List LoggedOperation}
    (apart : operations.Pairwise (LoggedOperation.Apart keyFields)) (same : operations.Perm others)
    (contents : Cell → Content) :
    operations.foldl view.undone contents = others.foldl view.undone contents := by
  let Commute (left right : LoggedOperation) : Prop := ∀ contents,
    view.undone (view.undone contents left) right = view.undone (view.undone contents right) left
  have symmetric : Std.Symm Commute :=
    ⟨fun left right commute contents => (commute contents).symm⟩
  have pairwise : operations.Pairwise Commute :=
    apart.imp fun apart contents => view.undone_comm apart contents
  have commute : ∀ left ∈ operations, ∀ right ∈ operations, Commute left right := by
    intro left leftMember right rightMember
    exact pairwise.forall_of_forall (fun operation _ contents => rfl) leftMember rightMember
  exact same.foldl_eq' commute contents

end CellView

namespace Store

variable {State : Type} {backend : Backend State} {keyFields : List String} {Content : Type}

theorem undo_cells (view : CellView backend keyFields Content) (operation : LoggedOperation)
    {store : Store State} (idle : store.transaction.log = none)
    (valid : view.Valid store.backendState) :
    ∃ after, view.Valid after ∧
      view.contents after = view.undone (view.contents store.backendState) operation ∧
      store.undo backend operation =
        (view.undoOutcome (view.contents store.backendState) operation,
          { store with backendState := after, cache := store.cache.forget [operation] }) := by
  rw [undo_of_idle backend operation idle]
  cases sent : operation.undoCall with
  | error error =>
      simp only [CellView.undone, CellView.undoOutcome, sent]
      exact ⟨store.backendState, valid, rfl, rfl⟩
  | ok call? =>
      cases call? with
      | none =>
          simp only [CellView.undone, CellView.undoOutcome, sent]
          exact ⟨store.backendState, valid, rfl, rfl⟩
      | some call =>
          obtain ⟨undo, prepared, compensated, ready, called⟩ :=
            LoggedOperation.undoCall_eq_some_iff.mp sent
          have writes : call.operation.writes = true := by
            rw [← called, (carries_of_prepare ready).operation]
            exact (LoggedOperation.writes_of_compensate compensated).2
          obtain ⟨afterValid, outcome, contents⟩ := view.write valid writes rfl
          simp only [CellView.undone, CellView.undoOutcome, sent]
          exact ⟨_, afterValid, contents, by rw [outcome]⟩

theorem undoAll_cells (view : CellView backend keyFields Content)
    {operations : List LoggedOperation}
    (apart : operations.Pairwise (LoggedOperation.Apart keyFields)) {store : Store State}
    (idle : store.transaction.log = none) (valid : view.Valid store.backendState) :
    ∃ after, view.contents after = operations.foldl view.undone (view.contents store.backendState) ∧
      store.undoAll backend operations =
        (operations.filterMap fun operation =>
            errorOf? (view.undoOutcome (view.contents store.backendState) operation),
          { store with backendState := after, cache := store.cache.forget operations }) := by
  induction operations generalizing store with
  | nil => exact ⟨store.backendState, rfl, by simp [undoAll, ResultCache.forget_nil]⟩
  | cons operation rest ih =>
      obtain ⟨apartFirst, apartRest⟩ := List.pairwise_cons.mp apart
      obtain ⟨next, nextValid, nextContents, undone⟩ := undo_cells view operation idle valid
      obtain ⟨after, contents, restUndone⟩ :=
        @ih apartRest { store with backendState := next, cache := store.cache.forget [operation] }
          idle nextValid
      refine ⟨after, by rw [contents, nextContents]; rfl, ?_⟩
      have sameErrors : (rest.filterMap fun other =>
          errorOf? (view.undoOutcome (view.contents next) other)) =
            rest.filterMap fun other =>
              errorOf? (view.undoOutcome (view.contents store.backendState) other) := by
        apply List.filterMap_congr
        intro other member
        rw [nextContents, view.undoOutcome_undone (apartFirst other member)]
      simp only [sameErrors, ← ResultCache.forget_cons] at restUndone
      cases outcome : view.undoOutcome (view.contents store.backendState) operation with
      | error error =>
          simp [undoAll, undone, outcome, restUndone, errorOf?]
      | ok done =>
          simp [undoAll, undone, outcome, restUndone, errorOf?]

/-- On a backend made of cells, where the writes of a transaction are at different cells, a
rollback in the recorded order and one in reverse leave the same contents in all cells and the
same store but for the state of the backend, its cache included. They report the same errors, the
one in the reverse order of the other. -/
theorem rollbackWith_order_indifferent (view : CellView backend keyFields Content)
    {store : Store State} {log : OperationLog} (valid : view.Valid store.backendState)
    (active : store.transaction.log = some log) (independent : log.Independent keyFields) :
    let recorded := store.rollbackWith backend .recorded
    let reverse := store.rollbackWith backend .reverse
    view.contents reverse.2.backendState = view.contents recorded.2.backendState ∧
      reverse.2 = { recorded.2 with backendState := reverse.2.backendState } ∧
      reverse.2.cache = recorded.2.cache ∧
      reverse.1 = recorded.1.reverse := by
  intro recorded reverse
  have idle : store.finishTransaction.transaction.log = none := rfl
  have apart := independent.apart
  have apartReverse : log.entries.reverse.Pairwise (LoggedOperation.Apart keyFields) := by
    apply List.pairwise_reverse.mpr
    apply apart.imp
    intro operation other apart call otherCall sent otherSent
    exact (apart otherCall call otherSent sent).symm
  obtain ⟨after, contents, undone⟩ := undoAll_cells view apart idle valid
  obtain ⟨afterReverse, contentsReverse, undoneReverse⟩ :=
    undoAll_cells view apartReverse idle valid
  have isRecorded := (rollbackWith_of_active active backend .recorded).trans undone
  have isReverse := (rollbackWith_of_active active backend .reverse).trans undoneReverse
  simp only [recorded, reverse, isRecorded, isReverse]
  refine ⟨?_, ?_, ?_, ?_⟩
  · rw [contents, contentsReverse]
    exact (view.foldl_undone_perm apart (List.reverse_perm _).symm _).symm
  · simp [ResultCache.forget_reverse]
  · exact ResultCache.forget_reverse _ _
  · exact List.filterMap_reverse

theorem rollbackWith_order_indifferent_of_failing_deletes :
    let key (id : String) : Item := [("id", .string id)]
    let entries : List LoggedOperation := [
      ⟨{ table := "notes", action := .put, key := key "a" }, {}⟩,
      ⟨{ table := "notes", action := .get, key := key "a" }, {}⟩,
      ⟨{ table := "notes", action := .update, key := key "b",
          updates := [⟨.put, "/text", .string "new"⟩] },
        { attributes := some [("id", .string "b"), ("text", .string "old")] }⟩,
      ⟨{ table := "notes", action := .delete, key := key "c" },
        { attributes := some [("text", .number "old")] }⟩,
      ⟨{ table := "notes", action := .delete, key := key "d" },
        { attributes := some [("id", .string "d"), ("text", .string "old")] }⟩]
    let store : Store (Scripted Memory) := {
      backendState := { inner := {}, failing := [.delete] }
      transaction := { log := some ⟨⟨0⟩, entries⟩ }
      cache := { entries := [⟨"notes", key "d", {}⟩, ⟨"notes", key "e", {}⟩] } }
    let view := (CellView.memory ["id"]).scripted [.delete]
    let recorded := store.rollbackWith Backend.memory.scripted .recorded
    let reverse := store.rollbackWith Backend.memory.scripted .reverse
    (view.contents reverse.2.backendState = view.contents recorded.2.backendState ∧
      reverse.2.cache = recorded.2.cache ∧ reverse.1 = recorded.1.reverse) ∧
      recorded.1.map StoreError.code = ["DeleteItemFailed", "UnmarshalItemFailed"] ∧
      (recorded.2.backendState.inner.rows "notes").map (·.cell ["id"]) =
        [[some (.string "b")], [some (.string "d")]] ∧
      (reverse.2.backendState.inner.rows "notes").map (·.cell ["id"]) =
        [[some (.string "d")], [some (.string "b")]] := by
  intro key entries store view recorded reverse
  have valid : view.Valid store.backendState := ⟨rfl, rfl, rfl, fun table => by
    simp [store, Memory.rows, Fields.get?]⟩
  have ordered : ∀ operation ∈ entries, operation.Ordered := by
    simp only [entries, List.forall_mem_cons]
    refine ⟨⟨by decide, by simp⟩, ⟨by decide, by simp⟩, ⟨by decide, ?_⟩, ⟨by decide, ?_⟩,
      ⟨by decide, ?_⟩, by simp⟩
    all_goals
      intro row same
      rw [← Option.some.inj same]
      decide
  have named : ∀ operation ∈ entries, ∀ name ∈ ["id"],
      name ∈ operation.request.key.map Prod.fst := by
    decide
  have apart : entries.Pairwise fun operation other =>
      operation.request.action = .get ∨ other.request.action = .get ∨
        operation.request.key.marshal.toOption.map (·.cell ["id"]) ≠
          other.request.key.marshal.toOption.map (·.cell ["id"]) := by
    decide +kernel
  have independent : OperationLog.Independent ["id"] ⟨⟨0⟩, entries⟩ := by
    refine ⟨fun operation member _ => ordered operation member,
      fun operation member _ => named operation member, ?_⟩
    apply apart.imp
    intro operation other differs writes otherWrites row otherRow written otherWritten
    rcases differs with get | get | differs
    · simp [LoggedOperation.Writes, get, Action.operation, Operation.writes] at writes
    · simp [LoggedOperation.Writes, get, Action.operation, Operation.writes] at otherWrites
    · rw [written, otherWritten] at differs
      exact .inr (by simpa [Except.toOption] using differs)
  obtain ⟨contents, -, cache, errors⟩ :=
    rollbackWith_order_indifferent view valid rfl independent
  exact ⟨⟨contents, cache, errors⟩, by decide +kernel, by decide +kernel, by decide +kernel⟩

end Store

end KeyedStore
