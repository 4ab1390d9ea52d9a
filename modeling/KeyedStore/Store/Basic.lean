import KeyedStore.Backend.Basic
import KeyedStore.ResultCache
import KeyedStore.Store.Prepare
import KeyedStore.Transaction.Compensation

/-! The store: requests go to a backend under a table prefix, reads are remembered, and
the operations of a transaction are logged so that a rollback can undo them. -/

namespace KeyedStore

structure Store (State : Type) where
  backendState : State
  tablePrefix : String := ""
  transaction : Transaction := .idle
  cache : ResultCache := .empty
  rollbackOrder : RollbackOrder := .recorded

namespace Store

variable {State : Type}

/-- The remembered response for a request: only a get may be answered from the cache,
and not when it asks for live data or the cache is out of use. -/
def cached? (store : Store State) (request : Request) : Option Response :=
  if request.action = .get ∧ !request.liveData ∧ store.cache.enabled then
    store.cache.lookup? request.table request.key
  else none

/-- A request as it is sent: within a transaction, updates and deletes ask for the old
values that undo them. -/
def asSent (store : Store State) (request : Request) : Request :=
  if store.transaction.isActive ∧ (request.action = .update ∨ request.action = .delete) then
    { request with returnValues := .allOld }
  else request

def settle (store : Store State) (request : Request) (response : Response) : Store State :=
  { store with
    cache :=
      if request.action = .get ∧ store.cache.enabled then
        store.cache.insert request.table request.key response
      else store.cache
    transaction := store.transaction.record request response }

/-- Runs a request whose table name is final. -/
def dispatch (backend : Backend State) (request : Request) (store : Store State) :
    Except StoreError Response × Store State :=
  match store.cached? request with
  | some response => (.ok response, store)
  | none =>
      let request := store.asSent request
      match request.prepare with
      | .error error => (.error error, store)
      | .ok prepared =>
          match backend.answer prepared.call store.backendState with
          | (.error cause, backendState) =>
              (.error (.backendFailed prepared.call.operation cause),
                { store with backendState })
          | (.ok output, backendState) =>
              let response := prepared.respond output
              (.ok response, settle { store with backendState } request response)

def run (backend : Backend State) (request : Request) (store : Store State) :
    Except StoreError Response × Store State :=
  store.dispatch backend { request with table := store.tablePrefix ++ request.table }

def startTransaction (store : Store State) : Store State :=
  { store with transaction := store.transaction.start }

def finishTransaction (store : Store State) : Store State :=
  { store with transaction := store.transaction.finish }

/-- Undoes one operation. A remembered read of the same key is forgotten first. -/
def undo (backend : Backend State) (operation : LoggedOperation) (store : Store State) :
    Except StoreError Unit × Store State :=
  match operation.compensate with
  | .error error => (.error error, store)
  | .ok none => (.ok (), store)
  | .ok (some request) =>
      let store := { store with cache := store.cache.evict request.table request.key }
      match store.dispatch backend request with
      | (.error error, store) => (.error error, store)
      | (.ok _, store) => (.ok (), store)

/-- Undoes operations one after the other; a failure does not keep the next from being
undone. -/
def undoAll (backend : Backend State) :
    List LoggedOperation → Store State → List StoreError × Store State
  | [], store => ([], store)
  | operation :: rest, store =>
      match store.undo backend operation with
      | (.error error, store) =>
          let (errors, store) := undoAll backend rest store
          (error :: errors, store)
      | (.ok _, store) => undoAll backend rest store

/-- Ends the transaction and undoes its operations in an order. The errors are those of
the operations that could not be undone. -/
def rollbackWith (backend : Backend State) (order : RollbackOrder) (store : Store State) :
    List StoreError × Store State :=
  match store.transaction.log with
  | none => ([], store)
  | some log => store.finishTransaction.undoAll backend (order.arrange log)

def rollback (backend : Backend State) (store : Store State) :
    List StoreError × Store State :=
  store.rollbackWith backend store.rollbackOrder

def setRollbackOrder (store : Store State) (order : RollbackOrder) : Store State :=
  { store with rollbackOrder := order }

def clearCache (store : Store State) : Store State :=
  { store with cache := store.cache.clear }

def cacheOff (store : Store State) : Store State :=
  { store with cache := store.cache.disable }

def cacheOn (store : Store State) : Store State :=
  { store with cache := store.cache.enable }

end Store

end KeyedStore
