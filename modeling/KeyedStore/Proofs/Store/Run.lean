import KeyedStore.Proofs.ResultCache
import KeyedStore.Proofs.Store.History

/-! One request, all or nothing. Every check comes before the one call, and the store is changed
only once the call was answered, so a run that fails leaves all but the backend as it was. -/

namespace KeyedStore

namespace Store

variable {State : Type}

theorem settle_eq (store : Store State) (request : Request) (after : State)
    (response : Response) :
    settle { store with backendState := after }
        (store.asSent { request with table := store.tablePrefix ++ request.table }) response =
      { store with
        backendState := after
        cache :=
          if request.action = .get ∧ store.cache.enabled = true then
            store.cache.insert (store.tablePrefix ++ request.table) request.key response
          else store.cache
        transaction := { store.transaction with
          log := store.transaction.log.map fun log =>
            { log with entries := log.entries ++
                [⟨request.asLogged store.tablePrefix, response⟩] } } } := by
  obtain ⟨values, sent⟩ :=
    store.asSent_eq { request with table := store.tablePrefix ++ request.table }
  cases active : store.transaction.log with
  | none => simp [settle, Transaction.record, sent, active]
  | some log =>
      have isActive : store.transaction.isActive = true := by simp [Transaction.isActive, active]
      have logged := asSent_eq_asLogged isActive request
      simp only [settle, Transaction.record, logged, active, Option.map_some]
      rfl

theorem same_key_of_prepare {store : Store State} {request : Request} {prepared : Prepared}
    (ready : (store.asSent request).prepare = .ok prepared) (read : request.action = .get) :
    request.key.same request.key = true := by
  obtain ⟨values, sent⟩ := store.asSent_eq request
  rw [sent] at ready
  simp only [Request.prepare, read, Request.prepareGet_eq_ok_iff] at ready
  obtain ⟨-, row, written, -⟩ := ready
  exact Item.same_self_of_marshal written

theorem operation_of_prepare {store : Store State} {request : Request} {prepared : Prepared}
    (ready : (store.asSent request).prepare = .ok prepared) :
    prepared.call.operation = request.action.operation := by
  obtain ⟨values, sent⟩ := store.asSent_eq request
  rw [sent] at ready
  exact (carries_of_prepare ready).operation

/-- A run makes no call or one. Without a call it fails for a fault of the request, and nothing
changes, or it answers a get from the cache. With a call it fails as the call did, and only the
backend changes, or it gives the answer: a transaction logs it, and the cache changes if the
request is a get, at its table and key, and only while it is in use. To write down the calls is
no disturbance. -/
theorem run_all_or_nothing (backend : Backend State) (request : Request)
    (store : Store (Transcribed State)) :
    let ran := store.run backend.transcribed request
    let table := store.tablePrefix ++ request.table
    store.untranscribed.run backend request = (ran.1, ran.2.untranscribed) ∧
      ∃ sent : Option Exchange,
        ran.2.backendState.exchanges = store.backendState.exchanges ++ sent.toList ∧
          match ran.1, sent with
          | .error error, none => error.isBackendFailure = false ∧ ran.2 = store
          | .error error, some exchange =>
              (∃ cause, exchange.outcome = .error cause ∧
                error = .backendFailed request.action.operation cause) ∧
                ran.2 = { store with backendState := ran.2.backendState }
          | .ok response, none =>
              (request.action = .get ∧ request.liveData = false ∧ store.cache.enabled = true) ∧
                store.cache.lookup? table request.key = some response ∧ ran.2 = store
          | .ok response, some exchange =>
              (∃ output, exchange.outcome = .ok output) ∧
                ran.2 = { store with
                  backendState := ran.2.backendState
                  cache := ran.2.cache
                  transaction := { store.transaction with
                    log := store.transaction.log.map fun log =>
                      { log with entries := log.entries ++
                          [⟨request.asLogged store.tablePrefix, response⟩] } } } ∧
                if request.action = .get ∧ store.cache.enabled = true then
                  ran.2.cache.evict table request.key = store.cache.evict table request.key ∧
                    ran.2.cache.lookup? table request.key = some response
                else ran.2.cache = store.cache := by
  intro ran table
  refine ⟨dispatch_untranscribed backend _ store, ?_⟩
  rcases dispatch_cases backend.transcribed { request with table } store with
    ⟨response, cached, left⟩ |
      ⟨-, ⟨error, refused, left⟩ |
        ⟨prepared, ready, ⟨cause, after, answered, left⟩ | ⟨output, after, answered, left⟩⟩⟩
  · have same : ran = (.ok response, store) := left
    obtain ⟨read, held⟩ := cached?_eq_some_iff.mp cached
    rw [same]
    exact ⟨none, by simp, read, held, rfl⟩
  · have same : ran = (.error error, store) := left
    rw [same]
    exact ⟨none, by simp, Request.local_prepare _ error refused, rfl⟩
  · have same : ran = (.error (.backendFailed prepared.call.operation cause),
        { store with backendState := after }) := left
    obtain ⟨-, written⟩ := transcribed_answer_eq_iff.mp answered
    rw [same, operation_of_prepare ready]
    exact ⟨some ⟨prepared.call, .error cause⟩, written, ⟨cause, rfl, rfl⟩, rfl⟩
  · rw [settle_eq] at left
    have same : ran = _ := left
    obtain ⟨-, written⟩ := transcribed_answer_eq_iff.mp answered
    rw [same]
    refine ⟨some ⟨prepared.call, .ok output⟩, written, ⟨output, rfl⟩, rfl, ?_⟩
    by_cases remembers : request.action = .get ∧ store.cache.enabled = true
    · have equal := same_key_of_prepare ready remembers.1
      rw [if_pos remembers, if_pos remembers]
      exact ⟨ResultCache.evict_insert equal _ _, ResultCache.lookup?_insert equal _ _⟩
    · rw [if_neg remembers, if_neg remembers]

end Store

end KeyedStore
