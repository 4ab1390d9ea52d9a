import KeyedStore.Backend.Transcript
import KeyedStore.Proofs.Store.Dispatch

/-! A store over a transcribed backend does what it does over the backend itself. -/

namespace KeyedStore

theorem transcribed_answer_eq_iff {State : Type} {backend : Backend State} {call : Call}
    {transcript after : Transcribed State} {outcome : Except BackendError call.operation.Output} :
    backend.transcribed.answer call transcript = (outcome, after) ↔
      backend.answer call transcript.inner = (outcome, after.inner) ∧
        after.exchanges = transcript.exchanges ++ [⟨call, outcome⟩] := by
  simp only [Backend.transcribed, Prod.mk.injEq]
  constructor
  · rintro ⟨answered, same⟩
    subst answered same
    exact ⟨rfl, rfl⟩
  · rintro ⟨answered, written⟩
    obtain ⟨inner, exchanges⟩ := after
    simp only at answered written
    simp [answered, written]

namespace Store

variable {State : Type}

def untranscribed (store : Store (Transcribed State)) : Store State :=
  { store with backendState := store.backendState.inner }

theorem dispatch_untranscribed (backend : Backend State) (request : Request)
    (store : Store (Transcribed State)) :
    store.untranscribed.dispatch backend request =
      ((store.dispatch backend.transcribed request).1,
        (store.dispatch backend.transcribed request).2.untranscribed) := by
  have cached : store.untranscribed.cached? request = store.cached? request := rfl
  have sent : store.untranscribed.asSent request = store.asSent request := rfl
  rcases dispatch_cases backend.transcribed request store with
    ⟨response, remembered, left⟩ |
      ⟨missing, ⟨error, refused, left⟩ |
        ⟨prepared, ready, ⟨cause, after, answered, left⟩ | ⟨output, after, answered, left⟩⟩⟩
  · rw [left]
    simp [dispatch, cached, remembered]
  · rw [left]
    simp [dispatch, cached, missing, sent, refused]
  · have inner : backend.answer prepared.call store.untranscribed.backendState =
        (.error cause, after.inner) := (transcribed_answer_eq_iff.mp answered).1
    rw [left]
    simp only [dispatch, cached, missing, sent, ready, inner]
    rfl
  · have inner : backend.answer prepared.call store.untranscribed.backendState =
        (.ok output, after.inner) := (transcribed_answer_eq_iff.mp answered).1
    rw [left]
    simp only [dispatch, cached, missing, sent, ready, inner]
    rfl

theorem undo_untranscribed (backend : Backend State) (operation : LoggedOperation)
    (store : Store (Transcribed State)) :
    store.untranscribed.undo backend operation =
      ((store.undo backend.transcribed operation).1,
        (store.undo backend.transcribed operation).2.untranscribed) := by
  cases compensated : operation.compensate with
  | error error => rw [undo_error compensated, undo_error compensated]
  | ok undo =>
      cases undo with
      | none => rw [undo_none compensated, undo_none compensated]
      | some request =>
          have dispatched := dispatch_untranscribed backend request
            { store with cache := store.cache.evict request.table request.key }
          simp only [untranscribed] at dispatched ⊢
          rw [undo_eq_dispatch compensated, undo_eq_dispatch compensated]
          simp only [dispatched]

theorem undoAll_untranscribed (backend : Backend State) (operations : List LoggedOperation)
    (store : Store (Transcribed State)) :
    store.untranscribed.undoAll backend operations =
      ((store.undoAll backend.transcribed operations).1,
        (store.undoAll backend.transcribed operations).2.untranscribed) := by
  induction operations generalizing store with
  | nil => rfl
  | cons operation rest ih =>
      simp only [undoAll, undo_untranscribed]
      cases store.undo backend.transcribed operation with
      | mk outcome after => cases outcome <;> simp [ih]

theorem rollbackWith_untranscribed (backend : Backend State) (order : RollbackOrder)
    (store : Store (Transcribed State)) :
    store.untranscribed.rollbackWith backend order =
      ((store.rollbackWith backend.transcribed order).1,
        (store.rollbackWith backend.transcribed order).2.untranscribed) := by
  cases active : store.transaction.log with
  | none =>
      have same : store.untranscribed.transaction.log = none := active
      simp [rollbackWith, active, same]
  | some log =>
      have same : store.untranscribed.transaction.log = some log := active
      simp only [rollbackWith, active, same]
      exact undoAll_untranscribed backend (order.arrange log) store.finishTransaction

end Store

end KeyedStore
