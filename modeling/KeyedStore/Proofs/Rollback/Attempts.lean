import KeyedStore.Backend.Script
import KeyedStore.Proofs.Backend.Transcript
import KeyedStore.Proofs.Rollback.Compensation

/-! What a rollback attempts. Each logged operation makes one attempt, in the order asked
for: at most one call goes out for it, on its own table and key, and it reports at most one
error, whatever became of the attempts before it. -/

namespace KeyedStore

/-- The attempt to undo an operation: the call made for it, if any, and the error reported. -/
structure Attempt where
  operation : LoggedOperation
  exchange : Option Exchange
  error : Option StoreError

/-- How an attempt can go. A call is made exactly if there is a compensation that passes
the checks made before any call. -/
inductive Attempt.Made : Attempt → Prop
  | uncomputable {operation error} :
      operation.compensate = .error error → Made ⟨operation, none, some error⟩
  | nothing {operation} : operation.compensate = .ok none → Made ⟨operation, none, none⟩
  | refused {operation undo error} : operation.compensate = .ok (some undo) →
      undo.prepare = .error error → Made ⟨operation, none, some error⟩
  | failed {operation undo prepared cause} : operation.compensate = .ok (some undo) →
      undo.prepare = .ok prepared →
        Made ⟨operation, some ⟨prepared.call, .error cause⟩,
          some (.backendFailed prepared.call.operation cause)⟩
  | undone {operation undo prepared output} : operation.compensate = .ok (some undo) →
      undo.prepare = .ok prepared →
        Made ⟨operation, some ⟨prepared.call, .ok output⟩, none⟩

def Attempt.outcome (attempt : Attempt) : Except StoreError Unit :=
  match attempt.error with
  | some error => .error error
  | none => .ok ()

/-- The call is on a table and on the row of a key; a put carries the fields of the key. -/
def Call.Addresses (table : String) (key : AttributeMap) (call : Call) : Prop :=
  call.table = table ∧
    match call with
    | .put call => ∀ name value, Fields.get? key name = some value →
        Fields.get? call.item name = some value
    | .delete call => call.key = key
    | .update call => call.key = key
    | _ => False

namespace LoggedOperation

structure Ordered (operation : LoggedOperation) : Prop where
  key : operation.request.key.Ascending
  attributes : ∀ row, operation.response.attributes = some row → Fields.Ascending row

def hasUndo (operation : LoggedOperation) : Bool :=
  match operation.compensate with
  | .ok (some _) => true
  | _ => false

def undoCall (operation : LoggedOperation) : Except StoreError (Option Call) :=
  match operation.compensate with
  | .error error => .error error
  | .ok none => .ok none
  | .ok (some undo) => undo.prepare.map fun prepared => some prepared.call

theorem compensate_some_cases {operation : LoggedOperation} {undo : Request}
    (compensated : operation.compensate = .ok (some undo)) :
    undo = operation.request.inverse .delete ∨
      (∃ row item, operation.response.attributes = some row ∧ row.unmarshal = .ok item ∧
        undo = { operation.request.inverse .put with item }) ∨
      ∃ item, undo = { operation.request.inverse .update with
        updates := Update.restoringAll item operation.request.updates } := by
  cases action : operation.request.action with
  | put => exact .inl (by simpa [compensate_put action] using compensated.symm)
  | delete =>
      cases held : operation.response.attributes with
      | none => simp [compensate_delete_absent action held] at compensated
      | some row =>
          cases read : row.unmarshal with
          | error cause => simp [compensate, action, held, read] at compensated
          | ok item =>
              refine .inr (.inl ⟨row, item, rfl, read, ?_⟩)
              simpa [compensate_delete action held read] using compensated.symm
  | update =>
      cases held : operation.response.attributes with
      | none => exact .inl (by simpa [compensate_update_absent action held] using compensated.symm)
      | some row =>
          cases read : row.unmarshal with
          | error cause => simp [compensate, action, held, read] at compensated
          | ok item =>
              refine .inr (.inr ⟨item, ?_⟩)
              simpa [compensate_update action held read] using compensated.symm
  | get => simp [compensate_read, action] at compensated
  | query => simp [compensate_read, action] at compensated
  | queryPager => simp [compensate_read, action] at compensated

theorem undo_addressed {operation : LoggedOperation} {undo : Request}
    (compensated : operation.compensate = .ok (some undo)) :
    undo.table = operation.request.table ∧ undo.key = operation.request.key ∧
      undo.action ≠ .get := by
  rcases compensate_some_cases compensated with
    delete | ⟨row, item, -, -, put⟩ | ⟨item, update⟩
  · simp [delete, Request.inverse]
  · simp [put, Request.inverse]
  · simp [update, Request.inverse]

theorem call_of_compensate {operation : LoggedOperation} (ordered : operation.Ordered)
    {undo : Request} (compensated : operation.compensate = .ok (some undo))
    {prepared : Prepared} (ready : undo.prepare = .ok prepared) :
    ∃ row, operation.request.key.marshal = .ok row ∧
      prepared.call.table = operation.request.table ∧
      match prepared.call with
      | .put call => ∃ old : Item, old.Ascending ∧
          Item.marshal (old.overlay operation.request.key) = .ok call.item
      | .delete call => call.key = row
      | .update call => call.key = row
      | _ => False := by
  rcases compensate_some_cases compensated with
    delete | ⟨old, item, held, read, put⟩ | ⟨item, update⟩
  · subst delete
    simp only [Request.prepare, Request.inverse, Request.prepareDelete_eq_ok_iff] at ready
    obtain ⟨-, row, written, condition, aliases, -, shape⟩ := ready
    exact ⟨row, written, by rw [shape]; exact ⟨rfl, rfl⟩⟩
  · have itemAscending : item.Ascending :=
      (AttributeMap.ascending_unmarshal read).mpr (ordered.attributes old held)
    have keyAscending : undo.key.Ascending := by
      rw [put]
      exact ordered.key
    obtain ⟨-, keyRow, keyWritten⟩ :=
      Request.keyWritable_of_prepare keyAscending (.inl (by rw [put]; rfl)) ready
    subst put
    simp only [Request.prepare, Request.inverse, Request.preparePut_eq_ok_iff] at ready keyWritten
    obtain ⟨-, row, written, condition, aliases, -, shape⟩ := ready
    exact ⟨keyRow, keyWritten, by rw [shape]; exact ⟨rfl, item, itemAscending, written⟩⟩
  · subst update
    simp only [Request.prepare, Request.inverse, Request.prepareUpdate_eq_ok_iff] at ready
    obtain ⟨-, row, written, _, _, -, condition, aliases, -, shape⟩ := ready
    exact ⟨row, written, by rw [shape]; exact ⟨rfl, rfl⟩⟩

theorem addresses_of_compensate {operation : LoggedOperation} (ordered : operation.Ordered)
    {undo : Request} (compensated : operation.compensate = .ok (some undo))
    {prepared : Prepared} (ready : undo.prepare = .ok prepared) :
    ∃ row, operation.request.key.marshal = .ok row ∧
      prepared.call.Addresses operation.request.table row := by
  obtain ⟨row, keyWritten, sameTable, shape⟩ := call_of_compensate ordered compensated ready
  refine ⟨row, keyWritten, sameTable, ?_⟩
  cases called : prepared.call with
  | put call =>
      rw [called] at shape
      obtain ⟨old, ascending, written⟩ := shape
      intro name value inKey
      have member : name ∈ operation.request.key.map Prod.fst := by
        by_contra absent
        rw [Item.get?_marshal ordered.key keyWritten, Fields.get?_eq_none_iff.mpr absent] at inKey
        simp at inKey
      exact (Item.get?_marshal_overlay ascending ordered.key written keyWritten member).trans inKey
  | delete call => simpa [called] using shape
  | update call => simpa [called] using shape
  | get call => simp [called] at shape
  | query call => simp [called] at shape
  | queryPages call => simp [called] at shape

end LoggedOperation

theorem Attempt.Made.addresses {attempt : Attempt} (made : attempt.Made)
    (ordered : attempt.operation.Ordered) :
    ∀ exchange, attempt.exchange = some exchange →
      ∃ row, attempt.operation.request.key.marshal = .ok row ∧
        exchange.call.Addresses attempt.operation.request.table row := by
  intro exchange sent
  cases made with
  | uncomputable compensated => simp at sent
  | nothing compensated => simp at sent
  | refused compensated refused => simp at sent
  | failed compensated ready =>
      rw [← Option.some.inj sent]
      exact LoggedOperation.addresses_of_compensate ordered compensated ready
  | undone compensated ready =>
      rw [← Option.some.inj sent]
      exact LoggedOperation.addresses_of_compensate ordered compensated ready

/-- The entries of other tables and keys than those that an operation is undone at. -/
def ResultCache.forget (operations : List LoggedOperation) (cache : ResultCache) : ResultCache :=
  { cache with
    entries := cache.entries.filter fun entry =>
      !operations.any fun operation =>
        operation.hasUndo && entry.isFor operation.request.table operation.request.key }

namespace ResultCache

theorem forget_nil (cache : ResultCache) : cache.forget [] = cache := by
  simp [forget]

theorem forget_cons (operation : LoggedOperation) (rest : List LoggedOperation)
    (cache : ResultCache) :
    cache.forget (operation :: rest) = (cache.forget [operation]).forget rest := by
  simp [forget, List.filter_filter, Bool.and_comm]

theorem forget_reverse (operations : List LoggedOperation) (cache : ResultCache) :
    cache.forget operations.reverse = cache.forget operations := by
  simp [forget]

theorem forget_arrange (order : RollbackOrder) (log : OperationLog) (cache : ResultCache) :
    cache.forget (order.arrange log) = cache.forget log.entries := by
  cases order with
  | recorded => rfl
  | reverse => exact forget_reverse log.entries cache

theorem forget_of_hasUndo {operation : LoggedOperation} (undoable : operation.hasUndo = true)
    (cache : ResultCache) :
    cache.forget [operation] = cache.evict operation.request.table operation.request.key := by
  simp [forget, evict, undoable]

theorem forget_of_not_hasUndo {operation : LoggedOperation}
    (settled : operation.hasUndo = false) (cache : ResultCache) :
    cache.forget [operation] = cache := by
  simp [forget, settled]

end ResultCache

namespace Store

variable {State : Type}

theorem undo_of_idle (backend : Backend State) (operation : LoggedOperation)
    {store : Store State} (idle : store.transaction.log = none) :
    store.undo backend operation =
      let forgetful := { store with cache := store.cache.forget [operation] }
      match operation.undoCall with
      | .error error => (.error error, forgetful)
      | .ok none => (.ok (), forgetful)
      | .ok (some call) =>
          let answered := backend.answer call store.backendState
          ((answered.1.map fun _ => ()).mapError (.backendFailed call.operation),
            { forgetful with backendState := answered.2 }) := by
  have settled (lacking : operation.hasUndo = false) :
      { store with cache := store.cache.forget [operation] } = store := by
    rw [ResultCache.forget_of_not_hasUndo lacking]
  cases compensated : operation.compensate with
  | error error =>
      have lacking : operation.hasUndo = false := by simp [LoggedOperation.hasUndo, compensated]
      simp only [undo_error compensated, settled lacking, LoggedOperation.undoCall, compensated]
  | ok undo =>
      cases undo with
      | none =>
          have lacking : operation.hasUndo = false := by
            simp [LoggedOperation.hasUndo, compensated]
          simp only [undo_none compensated, settled lacking, LoggedOperation.undoCall, compensated]
      | some request =>
          have undoable : operation.hasUndo = true := by
            simp [LoggedOperation.hasUndo, compensated]
          obtain ⟨sameTable, sameKey, write⟩ := LoggedOperation.undo_addressed compensated
          have evicted : store.cache.evict request.table request.key =
              store.cache.forget [operation] := by
            rw [ResultCache.forget_of_hasUndo undoable, sameTable, sameKey]
          have dispatched := @dispatch_of_idle _ backend request
            { store with cache := store.cache.forget [operation] } idle write
          rw [undo_eq_dispatch compensated, evicted]
          simp only [dispatched, LoggedOperation.undoCall, compensated]
          cases ready : request.prepare with
          | error error => rfl
          | ok prepared =>
              simp only [Except.map]
              cases (backend.answer prepared.call store.backendState).1 <;> rfl

theorem undo_attempts (backend : Backend State) (operation : LoggedOperation)
    {store : Store (Transcribed State)} (idle : store.transaction.log = none) :
    ∃ (attempt : Attempt) (next : Store (Transcribed State)),
      attempt.operation = operation ∧ attempt.Made ∧
      store.undo backend.transcribed operation = (attempt.outcome, next) ∧
      next.backendState.exchanges = store.backendState.exchanges ++ attempt.exchange.toList ∧
      next.transaction.log = none ∧ next.cache = store.cache.forget [operation] := by
  rw [undo_of_idle backend.transcribed operation idle]
  cases compensated : operation.compensate with
  | error error =>
      simp only [LoggedOperation.undoCall, compensated]
      exact ⟨_, _, rfl, .uncomputable compensated, rfl, by simp, idle, rfl⟩
  | ok undo =>
      cases undo with
      | none =>
          simp only [LoggedOperation.undoCall, compensated]
          exact ⟨_, _, rfl, .nothing compensated, rfl, by simp, idle, rfl⟩
      | some request =>
          simp only [LoggedOperation.undoCall, compensated]
          cases ready : request.prepare with
          | error error =>
              exact ⟨_, _, rfl, .refused compensated ready, rfl, by simp, idle, rfl⟩
          | ok prepared =>
              cases answered : backend.transcribed.answer prepared.call store.backendState with
              | mk outcome after =>
                  have written := (transcribed_answer_eq_iff.mp answered).2
                  simp only [Except.map, answered]
                  cases outcome with
                  | error cause =>
                      exact ⟨⟨operation, some ⟨prepared.call, .error cause⟩, _⟩, _, rfl,
                        .failed compensated ready, rfl, written, idle, rfl⟩
                  | ok output =>
                      exact ⟨⟨operation, some ⟨prepared.call, .ok output⟩, _⟩, _, rfl,
                        .undone compensated ready, rfl, written, idle, rfl⟩

theorem undoAll_attempts (backend : Backend State) (operations : List LoggedOperation)
    {store : Store (Transcribed State)} (idle : store.transaction.log = none) :
    ∃ attempts : List Attempt,
      attempts.map (·.operation) = operations ∧ (∀ attempt ∈ attempts, attempt.Made) ∧
      (store.undoAll backend.transcribed operations).2.backendState.exchanges =
        store.backendState.exchanges ++ attempts.filterMap (·.exchange) ∧
      (store.undoAll backend.transcribed operations).1 = attempts.filterMap (·.error) ∧
      (store.undoAll backend.transcribed operations).2.transaction.log = none ∧
      (store.undoAll backend.transcribed operations).2.cache = store.cache.forget operations := by
  induction operations generalizing store with
  | nil =>
      exact ⟨[], rfl, by simp, by simp [undoAll], rfl, idle,
        (ResultCache.forget_nil store.cache).symm⟩
  | cons operation rest ih =>
      obtain ⟨attempt, next, same, made, undone, exchanged, nextIdle, evicted⟩ :=
        undo_attempts backend operation idle
      obtain ⟨attempts, operations, allMade, exchanges, errors, ended, cache⟩ := ih nextIdle
      have unfolded : store.undoAll backend.transcribed (operation :: rest) =
          (attempt.error.toList ++ (next.undoAll backend.transcribed rest).1,
            (next.undoAll backend.transcribed rest).2) := by
        simp only [undoAll, undone, Attempt.outcome]
        cases attempt.error <;> rfl
      rw [unfolded]
      refine ⟨attempt :: attempts, ?_, ?_, ?_, ?_, ended, ?_⟩
      · rw [List.map_cons, same, operations]
      · exact List.forall_mem_cons.mpr ⟨made, allMade⟩
      · rw [exchanges, exchanged, List.append_assoc]
        cases sent : attempt.exchange <;> simp [sent]
      · rw [errors]
        cases reported : attempt.error <;> simp [reported]
      · rw [cache, evicted, ← ResultCache.forget_cons]

theorem rollbackWith_of_idle {store : Store State} (idle : store.transaction.log = none)
    (backend : Backend State) (order : RollbackOrder) :
    store.rollbackWith backend order = ([], store) := by
  simp [rollbackWith, idle]

theorem rollbackWith_of_active {store : Store State} {log : OperationLog}
    (active : store.transaction.log = some log) (backend : Backend State) (order : RollbackOrder) :
    store.rollbackWith backend order =
      store.finishTransaction.undoAll backend (order.arrange log) := by
  simp [rollbackWith, active]

/-- A rollback attempts every logged operation once, in the order asked for, and reports
every failure. It leaves no transaction behind, forgets the reads of what it undid and no
others, and another rollback does nothing. -/
theorem rollbackWith_attempts_all (backend : Backend State) {store : Store (Transcribed State)}
    {log : OperationLog} (active : store.transaction.log = some log) (order : RollbackOrder) :
    let ended := store.rollbackWith backend.transcribed order
    store.untranscribed.rollbackWith backend order = (ended.1, ended.2.untranscribed) ∧
      (∃ attempts : List Attempt,
        attempts.map (·.operation) = order.arrange log ∧
        (∀ attempt ∈ attempts, attempt.Made ∧
          (attempt.operation.Ordered → ∀ exchange, attempt.exchange = some exchange →
            ∃ row, attempt.operation.request.key.marshal = .ok row ∧
              exchange.call.Addresses attempt.operation.request.table row)) ∧
        ended.2.backendState.exchanges =
          store.backendState.exchanges ++ attempts.filterMap (·.exchange) ∧
        ended.1 = attempts.filterMap (·.error)) ∧
      ended.2.transaction.log = none ∧
      ended.2.cache = store.cache.forget log.entries ∧
      ∀ later, ended.2.rollbackWith backend.transcribed later = ([], ended.2) := by
  intro ended
  have unfolded : ended =
      store.finishTransaction.undoAll backend.transcribed (order.arrange log) :=
    rollbackWith_of_active active backend.transcribed order
  have finished : store.finishTransaction.transaction.log = none := rfl
  obtain ⟨attempts, operations, made, exchanges, errors, idle, cache⟩ :=
    undoAll_attempts backend (order.arrange log) finished
  rw [← unfolded] at exchanges errors idle cache
  refine ⟨rollbackWith_untranscribed backend order store,
    ⟨attempts, operations, ?_, exchanges, errors⟩, idle,
    cache.trans (ResultCache.forget_arrange order log _),
    fun later => rollbackWith_of_idle idle backend.transcribed later⟩
  intro attempt member
  exact ⟨made attempt member, (made attempt member).addresses⟩

theorem rollbackWith_attempts_all_of_four :
    let key (id : String) : Item := [("id", .string id)]
    let entries : List LoggedOperation := [
      ⟨{ table := "app-notes", action := .put, key := key "a" }, {}⟩,
      ⟨{ table := "app-notes", action := .update, key := key "b",
          updates := [⟨.put, "/info/note", .string "new"⟩] },
        { attributes := some [("info", .map [("note", .string "")])] }⟩,
      ⟨{ table := "app-notes", action := .delete, key := key "c" },
        { attributes := some [("id", .string "c"), ("text", .string "old")] }⟩,
      ⟨{ table := "app-notes", action := .delete, key := key "d" },
        { attributes := some [("text", .number "old")] }⟩]
    let store : Store (Transcribed (Scripted Memory)) := {
      backendState := { inner := { inner := {}, failing := [.delete] } }
      tablePrefix := "app-"
      transaction := { log := some ⟨⟨0⟩, entries⟩ }
      cache := { entries := [⟨"app-notes", key "a", {}⟩, ⟨"notes", key "a", {}⟩] } }
    let ended := store.rollbackWith (Backend.memory.scripted).transcribed .reverse
    ended.1.map StoreError.code =
        ["UnmarshalItemFailed", "InvalidUpdateOperation", "DeleteItemFailed"] ∧
      ended.2.backendState.exchanges.map (·.call.operation) = [.put, .delete] ∧
      ended.2.cache.entries.map (·.table) = ["notes"] ∧
      ∃ attempts : List Attempt, attempts.map (·.operation) = entries.reverse ∧
        ended.1 = attempts.filterMap (·.error) ∧
        ended.2.backendState.exchanges = attempts.filterMap (·.exchange) ∧
        ∀ attempt ∈ attempts, ∀ exchange, attempt.exchange = some exchange →
          ∃ row, attempt.operation.request.key.marshal = .ok row ∧
            exchange.call.Addresses "app-notes" row := by
  intro key entries store
  have tables : ∀ operation ∈ entries, operation.request.table = "app-notes" := by
    simp [entries]
  have ordered : ∀ operation ∈ entries, operation.Ordered := by
    simp only [entries, List.forall_mem_cons]
    refine ⟨⟨by decide, by simp⟩, ⟨by decide, ?_⟩, ⟨by decide, ?_⟩, ⟨by decide, ?_⟩, by simp⟩
    all_goals
      intro row same
      rw [← Option.some.inj same]
      decide
  obtain ⟨-, ⟨attempts, operations, each, exchanges, errors⟩, -, cache, -⟩ :=
    @rollbackWith_attempts_all _ Backend.memory.scripted store _ rfl .reverse
  refine ⟨by decide +kernel, by decide +kernel, ?_, attempts, operations, errors, exchanges, ?_⟩
  · rw [cache]
    decide +kernel
  · intro attempt member exchange sent
    have logged : attempt.operation ∈ entries := by
      rw [← List.mem_reverse, ← show attempts.map (·.operation) = entries.reverse from operations]
      exact List.mem_map_of_mem member
    rw [← tables _ logged]
    exact (each attempt member).2 (ordered _ logged) exchange sent

end Store

end KeyedStore
