import KeyedStore.Backend.Basic

/-! Transcripts: every call of a backend beside the answer it got, in their order. -/

namespace KeyedStore

structure Exchange where
  call : Call
  outcome : Except BackendError call.operation.Output

structure Transcribed (State : Type) where
  inner : State
  exchanges : List Exchange := []

def Backend.transcribed {State : Type} (backend : Backend State) :
    Backend (Transcribed State) where
  answer call transcript :=
    let (outcome, inner) := backend.answer call transcript.inner
    (outcome, ⟨inner, transcript.exchanges ++ [⟨call, outcome⟩]⟩)

end KeyedStore
