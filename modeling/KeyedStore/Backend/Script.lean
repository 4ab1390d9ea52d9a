import KeyedStore.Backend.Basic

/-! Scripted backends: another backend behind queued replies and failing operations. A
queued reply decides the outcome of the next call of its operation, and while an
operation is failing its other calls fail. -/

namespace KeyedStore

structure Reply where
  operation : Operation
  outcome : Except BackendError operation.Output

structure Scripted (State : Type) where
  inner : State
  failing : List Operation := []
  replies : List Reply := []

def takeReply (operation : Operation) :
    List Reply → Option (Except BackendError operation.Output × List Reply)
  | [] => none
  | reply :: rest =>
      if same : reply.operation = operation then some (same ▸ reply.outcome, rest)
      else (takeReply operation rest).map fun (outcome, others) => (outcome, reply :: others)

def Operation.unavailable (operation : Operation) : BackendError :=
  ⟨"InternalServerError", operation.name ++ " unavailable"⟩

def Backend.scripted {State : Type} (backend : Backend State) : Backend (Scripted State) where
  answer call script :=
    match takeReply call.operation script.replies with
    | some (outcome, replies) => (outcome, { script with replies })
    | none =>
        if call.operation ∈ script.failing then (.error call.operation.unavailable, script)
        else
          let (outcome, inner) := backend.answer call script.inner
          (outcome, { script with inner })

end KeyedStore
