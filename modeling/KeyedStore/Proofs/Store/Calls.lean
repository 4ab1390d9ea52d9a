import KeyedStore.Proofs.Expression.Coverage
import KeyedStore.Proofs.Rollback.Attempts

/-! The calls of a store, as a backend sees them: whatever is asked, and also while operations
are undone, a call brings along a value for each placeholder of its expressions and nothing
else, and it has a condition or a filter exactly when the request has some. -/

namespace KeyedStore

namespace Call

def aliases : Call → Aliases
  | put call => call.aliases
  | get _ => .empty
  | delete call => call.aliases
  | update call => call.aliases
  | query call => call.aliases
  | queryPages call => call.aliases

/-- Conditions and filters are sent exactly when there are some, a filter only by a query of
one page. -/
def Guards (request : Request) : Call → Prop
  | put call => call.condition.isSome ↔ request.conditions ≠ []
  | get _ => True
  | delete call => call.condition.isSome ↔ request.conditions ≠ []
  | update call => call.condition.isSome ↔ request.conditions ≠ []
  | query call => call.filter.isSome ↔ request.filter ≠ []
  | queryPages call => call.filter = none

structure ClosedFor (request : Request) (call : Call) : Prop where
  closed : call.aliases.ClosedOver call.expressions
  guards : call.Guards request

end Call

theorem nonEmpty?_eq (text : String) : nonEmpty? text = if text = "" then none else some text := by
  simp [nonEmpty?]

namespace Writes

variable {start tables : Aliases} {mints : List Mint} {front : List String} {text : String}

theorem nil (numbered : start.Numbered) : Writes start [] [] start :=
  ⟨rfl, trivial, numbered, fun _ _ => .refl _⟩

theorem nonEmpty? (writes : Writes start mints [text] tables) :
    Writes start mints (nonEmpty? text).toList tables := by
  by_cases empty : text = ""
  · refine ⟨writes.bound, writes.fresh, writes.numbered, ?_⟩
    subst empty
    exact writes.mentioned
  · rw [nonEmpty?_eq, if_neg empty]
    exact writes

end Writes

theorem isSome_nonEmpty?_iff {conditions : List Condition} {start tables : Aliases} {text : String}
    (numbered : start.Numbered)
    (compiled : compileConditions conditions start = (.ok text, tables)) :
    (nonEmpty? text).isSome ↔ conditions ≠ [] := by
  rw [Ne, ← (compileConditions_reads_back numbered compiled).2, nonEmpty?_eq]
  split <;> simp_all

theorem closedFor_of_prepare {request : Request} {prepared : Prepared}
    (ready : request.prepare = .ok prepared) : prepared.call.ClosedFor request := by
  have begun := Aliases.numbered_empty
  unfold Request.prepare at ready
  cases action : request.action with
  | put =>
      simp only [action, Request.preparePut_eq_ok_iff] at ready
      obtain ⟨-, row, -, condition, aliases, compiled, shape⟩ := ready
      have compiled := Request.conditionExpression_eq_ok_iff.mp compiled
      rw [shape]
      exact ⟨(writes_of_compileConditions begun compiled).nonEmpty?.closedOver,
        isSome_nonEmpty?_iff begun compiled⟩
  | get =>
      simp only [action, Request.prepareGet_eq_ok_iff] at ready
      obtain ⟨-, row, -, shape⟩ := ready
      rw [shape]
      exact ⟨(Writes.nil begun).closedOver, trivial⟩
  | delete =>
      simp only [action, Request.prepareDelete_eq_ok_iff] at ready
      obtain ⟨-, row, -, condition, aliases, compiled, shape⟩ := ready
      have compiled := Request.conditionExpression_eq_ok_iff.mp compiled
      rw [shape]
      exact ⟨(writes_of_compileConditions begun compiled).nonEmpty?.closedOver,
        isSome_nonEmpty?_iff begun compiled⟩
  | update =>
      simp only [action, Request.prepareUpdate_eq_ok_iff] at ready
      obtain ⟨-, row, -, update, names, updated, condition, aliases, compiled, shape⟩ := ready
      have updated := writes_of_compileUpdates begun (Request.updateExpression_eq_ok_iff.mp updated)
      have compiled := Request.conditionExpression_eq_ok_iff.mp compiled
      have conditioned := writes_of_compileConditions updated.numbered compiled
      rw [shape]
      exact ⟨(updated.append conditioned.nonEmpty?).closedOver,
        isSome_nonEmpty?_iff updated.numbered compiled⟩
  | query =>
      simp only [action, Request.prepareQuery_eq_ok_iff] at ready
      obtain ⟨condition, names, compiled, filter, aliases, filtered, startKey, -, shape⟩ := ready
      have conditioned :=
        writes_of_compileConditions begun (Request.conditionExpression_eq_ok_iff.mp compiled)
      have filtered := Request.filterExpression_eq_ok_iff.mp filtered
      have narrowed := writes_of_compileConditions conditioned.numbered filtered
      rw [shape]
      exact ⟨(conditioned.append narrowed.nonEmpty?).closedOver,
        isSome_nonEmpty?_iff conditioned.numbered filtered⟩
  | queryPager =>
      simp only [action, Request.preparePages_eq_ok_iff] at ready
      obtain ⟨window, -, condition, aliases, compiled, shape⟩ := ready
      have compiled := Request.conditionExpression_eq_ok_iff.mp compiled
      rw [shape]
      exact ⟨(writes_of_compileConditions begun compiled).closedOver, rfl⟩

theorem Call.ClosedFor.congr {left right : Request} {call : Call} (closed : call.ClosedFor left)
    (sameConditions : left.conditions = right.conditions)
    (sameFilter : left.filter = right.filter) : call.ClosedFor right := by
  have same : call.Guards left = call.Guards right := by
    cases call <;> simp only [Guards, sameConditions, sameFilter]
  exact ⟨closed.closed, same ▸ closed.guards⟩

namespace Store

variable {State : Type}

theorem dispatch_sends_closed (backend : Backend State) (request : Request)
    (store : Store (Transcribed State)) :
    ∃ sent, (store.dispatch backend.transcribed request).2.backendState.exchanges =
        store.backendState.exchanges ++ sent ∧
      ∀ exchange ∈ sent, exchange.call.ClosedFor request := by
  obtain ⟨values, asSent⟩ := store.asSent_eq request
  have closed : ∀ prepared, (store.asSent request).prepare = .ok prepared →
      prepared.call.ClosedFor request := by
    intro prepared ready
    rw [asSent] at ready
    exact (closedFor_of_prepare ready).congr rfl rfl
  rcases dispatch_cases backend.transcribed request store with
    ⟨response, -, left⟩ |
      ⟨-, ⟨error, -, left⟩ |
        ⟨prepared, ready, ⟨cause, after, answered, left⟩ | ⟨output, after, answered, left⟩⟩⟩
  · exact ⟨[], by simp [left], by simp⟩
  · exact ⟨[], by simp [left], by simp⟩
  · have written := (transcribed_answer_eq_iff.mp answered).2
    exact ⟨_, by rw [left]; exact written, List.forall_mem_singleton.mpr (closed prepared ready)⟩
  · have written := (transcribed_answer_eq_iff.mp answered).2
    exact ⟨_, by rw [left]; exact written, List.forall_mem_singleton.mpr (closed prepared ready)⟩

theorem mem_arrange_iff {order : RollbackOrder} {log : OperationLog} {operation : LoggedOperation} :
    operation ∈ order.arrange log ↔ operation ∈ log.entries := by
  cases order <;> simp [RollbackOrder.arrange]

theorem closedFor_of_made {attempt : Attempt} (made : attempt.Made) :
    ∀ exchange, attempt.exchange = some exchange →
      ∃ undo, attempt.operation.compensate = .ok (some undo) ∧
        exchange.call.ClosedFor undo := by
  intro exchange sent
  cases made with
  | uncomputable compensated => simp at sent
  | nothing compensated => simp at sent
  | refused compensated refused => simp at sent
  | failed compensated ready =>
      rw [← Option.some.inj sent]
      exact ⟨_, compensated, closedFor_of_prepare ready⟩
  | undone compensated ready =>
      rw [← Option.some.inj sent]
      exact ⟨_, compensated, closedFor_of_prepare ready⟩

theorem rollbackWith_sends_closed (backend : Backend State) (order : RollbackOrder)
    (store : Store (Transcribed State)) :
    ∃ sent, (store.rollbackWith backend.transcribed order).2.backendState.exchanges =
        store.backendState.exchanges ++ sent ∧
      ∀ exchange ∈ sent, ∃ log operation undo, store.transaction.log = some log ∧
        operation ∈ log.entries ∧ operation.compensate = .ok (some undo) ∧
          exchange.call.ClosedFor undo := by
  cases active : store.transaction.log with
  | none => exact ⟨[], by simp [rollbackWith_of_idle active], by simp⟩
  | some log =>
      have idle : store.finishTransaction.transaction.log = none := rfl
      obtain ⟨attempts, operations, made, exchanges, -⟩ :=
        undoAll_attempts backend (order.arrange log) idle
      refine ⟨attempts.filterMap (·.exchange), ?_, ?_⟩
      · simp only [rollbackWith, active]
        exact exchanges
      · intro exchange member
        obtain ⟨attempt, attempted, sent⟩ := List.mem_filterMap.mp member
        obtain ⟨undo, compensated, closed⟩ :=
          closedFor_of_made (made attempt attempted) exchange sent
        have logged : attempt.operation ∈ log.entries := by
          rw [← mem_arrange_iff, ← operations]
          exact List.mem_map_of_mem attempted
        exact ⟨log, attempt.operation, undo, rfl, logged, compensated, closed⟩

/-- Whatever state a store is in, every call that a request leads to, or that a rollback makes
for one of the logged operations, is closed: the names and the values that come along with it
are those that its expressions mention, each of them once; and a condition or a filter is sent
exactly when the request, or the compensation, has one. To write down the calls is no
disturbance. -/
theorem every_call_closed (backend : Backend State) (request : Request) (order : RollbackOrder)
    (store : Store (Transcribed State)) :
    let ran := store.run backend.transcribed request
    let undone := store.rollbackWith backend.transcribed order
    (store.untranscribed.run backend request = (ran.1, ran.2.untranscribed) ∧
        store.untranscribed.rollbackWith backend order = (undone.1, undone.2.untranscribed)) ∧
      (∃ sent, ran.2.backendState.exchanges = store.backendState.exchanges ++ sent ∧
        ∀ exchange ∈ sent, exchange.call.ClosedFor request) ∧
      ∃ sent, undone.2.backendState.exchanges = store.backendState.exchanges ++ sent ∧
        ∀ exchange ∈ sent, ∃ log operation undo, store.transaction.log = some log ∧
          operation ∈ log.entries ∧ operation.compensate = .ok (some undo) ∧
            exchange.call.ClosedFor undo := by
  intro ran undone
  refine ⟨⟨dispatch_untranscribed backend _ store, rollbackWith_untranscribed backend order store⟩,
    ?_, rollbackWith_sends_closed backend order store⟩
  obtain ⟨sent, exchanges, closed⟩ := dispatch_sends_closed backend
    { request with table := store.tablePrefix ++ request.table } store
  exact ⟨sent, exchanges, fun exchange member => (closed exchange member).congr rfl rfl⟩

end Store

end KeyedStore
