import KeyedStore.Options
import KeyedStore.Store.Basic

/-! Opening a store from options: the session connects to a backend, at an endpoint if
one is given, and the table prefix is empty unless given. -/

namespace KeyedStore

structure Connector (Session State : Type) where
  typeName : String
  fallback : Session
  connect : Session → Option String → State

/-- A store on the session of the options. The session is read first, then the endpoint,
then the prefix. -/
def Store.ofOptions {Session State : Type} (connector : Connector Session State)
    (options : Options Session) : Except OptionError (Store State) := do
  let session ← options.getHandle? (.session connector.typeName) .session
  let endpoint ← options.getText? .endpoint
  let tablePrefix ← options.getText? .tablePrefix
  return {
    backendState := connector.connect (session.getD connector.fallback) endpoint
    tablePrefix := tablePrefix.getD "" }

end KeyedStore
