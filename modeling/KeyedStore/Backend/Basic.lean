import KeyedStore.Backend.Call

/-! Backends: anything that answers calls, one at a time, from a state of its own. -/

namespace KeyedStore

/-- A backend with states of a given type. A failed call may also change the state. -/
structure Backend (State : Type) where
  answer : (call : Call) → State → Except BackendError call.operation.Output × State

end KeyedStore
