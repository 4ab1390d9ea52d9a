import KeyedStore.Proofs.Request.Prepare
import KeyedStore.Store.Basic

/-! What one dispatch can do: it answers from the cache, stops at a fault of the request,
passes on a failure of the backend, or settles with the backend's answer. -/

namespace KeyedStore

namespace Store

variable {State : Type}

theorem asSent_eq (store : Store State) (request : Request) :
    ∃ values, store.asSent request = { request with returnValues := values } := by
  unfold asSent
  split
  · exact ⟨.allOld, rfl⟩
  · exact ⟨request.returnValues, rfl⟩

theorem exists_prepare_asSent_iff (store : Store State) (request : Request) :
    (∃ prepared, (store.asSent request).prepare = .ok prepared) ↔
      ∃ prepared, request.prepare = .ok prepared := by
  unfold asSent
  split
  · rename_i asks
    rcases asks.2 with update | delete
    · simpa only [Request.prepare, update] using
        Request.exists_prepareUpdate_returnValues_iff request .allOld
    · simpa only [Request.prepare, delete] using
        Request.exists_prepareDelete_returnValues_iff request .allOld
  · rfl

theorem asSent_of_inactive {store : Store State} (inactive : store.transaction.isActive = false)
    (request : Request) : store.asSent request = request := by
  simp [asSent, inactive]

theorem cached?_of_ne_get (store : Store State) {request : Request}
    (write : request.action ≠ .get) : store.cached? request = none := by
  simp [cached?, write]

theorem cached?_eq_some_iff {store : Store State} {request : Request} {response : Response} :
    store.cached? request = some response ↔
      (request.action = .get ∧ request.liveData = false ∧ store.cache.enabled = true) ∧
        store.cache.lookup? request.table request.key = some response := by
  unfold cached?
  split
  · simp_all
  · simp_all

/-- The outcomes of a dispatch, each with the store it leaves. -/
theorem dispatch_cases (backend : Backend State) (request : Request) (store : Store State) :
    (∃ response, store.cached? request = some response ∧
      store.dispatch backend request = (.ok response, store)) ∨
    store.cached? request = none ∧
      ((∃ error, (store.asSent request).prepare = .error error ∧
        store.dispatch backend request = (.error error, store)) ∨
      ∃ prepared, (store.asSent request).prepare = .ok prepared ∧
        ((∃ cause after, backend.answer prepared.call store.backendState = (.error cause, after) ∧
          store.dispatch backend request =
            (.error (.backendFailed prepared.call.operation cause),
              { store with backendState := after })) ∨
        ∃ output after, backend.answer prepared.call store.backendState = (.ok output, after) ∧
          store.dispatch backend request =
            (.ok (prepared.respond output),
              settle { store with backendState := after } (store.asSent request)
                (prepared.respond output)))) := by
  cases cached : store.cached? request with
  | some response => exact .inl ⟨response, rfl, by simp [dispatch, cached]⟩
  | none =>
      refine .inr ⟨rfl, ?_⟩
      cases ready : (store.asSent request).prepare with
      | error error => exact .inl ⟨error, rfl, by simp [dispatch, cached, ready]⟩
      | ok prepared =>
          refine .inr ⟨prepared, rfl, ?_⟩
          cases answered : backend.answer prepared.call store.backendState with
          | mk outcome after =>
              cases outcome with
              | error cause =>
                  exact .inl ⟨cause, after, rfl, by simp [dispatch, cached, ready, answered]⟩
              | ok output =>
                  exact .inr ⟨output, after, rfl, by simp [dispatch, cached, ready, answered]⟩

theorem record_of_idle {transaction : Transaction} (idle : transaction.log = none)
    (request : Request) (response : Response) :
    transaction.record request response = transaction := by
  obtain ⟨log, started⟩ := transaction
  simp only at idle
  simp [Transaction.record, idle]

theorem dispatch_of_idle (backend : Backend State) {request : Request} {store : Store State}
    (idle : store.transaction.log = none) (other : request.action ≠ .get) :
    store.dispatch backend request =
      match request.prepare with
      | .error error => (.error error, store)
      | .ok prepared =>
          let answered := backend.answer prepared.call store.backendState
          ((answered.1.map prepared.respond).mapError (.backendFailed prepared.call.operation),
            { store with backendState := answered.2 }) := by
  have sent : store.asSent request = request := by
    apply asSent_of_inactive
    simp [Transaction.isActive, idle]
  rw [dispatch, cached?_of_ne_get store other]
  simp only [sent]
  cases request.prepare with
  | error error => rfl
  | ok prepared =>
      simp only
      split
      · rename_i cause after answered
        simp [answered, Except.map, Except.mapError]
      · rename_i output after answered
        simp [answered, Except.map, Except.mapError, settle, other, record_of_idle idle]

theorem dispatch_query (backend : Backend State) (request : Request)
    (query : request.action = .query ∨ request.action = .queryPager) (store : Store State) :
    store.dispatch backend request =
      match request.prepare with
      | .error error => (.error error, store)
      | .ok prepared =>
          match backend.answer prepared.call store.backendState with
          | (.error cause, after) =>
              (.error (.backendFailed prepared.call.operation cause),
                { store with backendState := after })
          | (.ok output, after) =>
              (.ok (prepared.respond output),
                settle { store with backendState := after } request (prepared.respond output)) := by
  have other : request.action ≠ .get := by rcases query with same | same <;> simp [same]
  have sent : store.asSent request = request := by
    rcases query with same | same <;> simp [asSent, same]
  have missed := cached?_of_ne_get store other
  cases ready : request.prepare with
  | error error => simp only [dispatch, missed, sent, ready]
  | ok prepared =>
      cases answered : backend.answer prepared.call store.backendState with
      | mk outcome after =>
          cases outcome with
          | error cause => simp only [dispatch, missed, sent, ready, answered]
          | ok output => simp only [dispatch, missed, sent, ready, answered]

theorem exists_prepare_of_dispatch {backend : Backend State} {request : Request}
    {store : Store State} {response : Response} (write : request.action ≠ .get)
    (answered : (store.dispatch backend request).1 = .ok response) :
    ∃ prepared, (store.asSent request).prepare = .ok prepared := by
  rcases dispatch_cases backend request store with
    ⟨remembered, cached, -⟩ | ⟨-, ⟨error, -, failed⟩ | ⟨prepared, ready, -⟩⟩
  · simp [cached?_of_ne_get store write] at cached
  · simp [failed] at answered
  · exact ⟨prepared, ready⟩

theorem dispatch_error {backend : Backend State} {request : Request} {store : Store State}
    {error : StoreError} (failed : (store.dispatch backend request).1 = .error error) :
    (store.asSent request).prepare = .error error ∨ error.isBackendFailure = true := by
  rcases dispatch_cases backend request store with
    ⟨response, -, answered⟩ |
      ⟨-, ⟨fault, refused, left⟩ |
        ⟨prepared, -, ⟨cause, after, -, left⟩ | ⟨output, after, -, left⟩⟩⟩
  · simp [answered] at failed
  · simp only [left, Except.error.injEq] at failed
    exact .inl (failed ▸ refused)
  · simp only [left, Except.error.injEq] at failed
    exact .inr (failed ▸ rfl)
  · simp [left] at failed

theorem dispatch_of_refused {backend : Backend State} {request : Request} {store : Store State}
    {error : StoreError} (write : request.action ≠ .get)
    (refused : (store.asSent request).prepare = .error error) :
    store.dispatch backend request = (.error error, store) := by
  simp [dispatch, cached?_of_ne_get store write, refused]

theorem undo_eq_dispatch {operation : LoggedOperation} {undo : Request}
    (compensated : operation.compensate = .ok (some undo)) (backend : Backend State)
    (store : Store State) :
    store.undo backend operation =
      let dispatched :=
        { store with cache := store.cache.evict undo.table undo.key }.dispatch backend undo
      (dispatched.1.map fun _ => (), dispatched.2) := by
  simp only [Store.undo, compensated]
  cases dispatch backend undo { store with cache := store.cache.evict undo.table undo.key } with
  | mk outcome after => cases outcome <;> rfl

theorem undo_none {operation : LoggedOperation} (compensated : operation.compensate = .ok none)
    (backend : Backend State) (store : Store State) :
    store.undo backend operation = (.ok (), store) := by
  simp only [Store.undo, compensated]

theorem undo_error {operation : LoggedOperation} {error : StoreError}
    (compensated : operation.compensate = .error error) (backend : Backend State)
    (store : Store State) : store.undo backend operation = (.error error, store) := by
  simp only [Store.undo, compensated]

end Store

end KeyedStore
