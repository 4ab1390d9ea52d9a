import KeyedStore.Request.Basic
import KeyedStore.Response.Basic
import KeyedStore.Transaction.Id

/-! Transactions. While one is active, every successful operation is logged; starting
another one begins a fresh log under a fresh identifier. -/

namespace KeyedStore

/-- A successful operation as it was sent. -/
structure LoggedOperation where
  request : Request
  response : Response

structure OperationLog where
  id : TransactionId
  entries : List LoggedOperation := []

structure Transaction where
  log : Option OperationLog := none
  started : Nat := 0

inductive RollbackOrder where
  | recorded
  | reverse
  deriving DecidableEq

def RollbackOrder.arrange (order : RollbackOrder) (log : OperationLog) :
    List LoggedOperation :=
  match order with
  | recorded => log.entries
  | reverse => log.entries.reverse

namespace Transaction

def idle : Transaction := {}

def isActive (transaction : Transaction) : Bool :=
  transaction.log.isSome

def id? (transaction : Transaction) : Option TransactionId :=
  transaction.log.map (·.id)

def pending (transaction : Transaction) : Nat :=
  match transaction.log with
  | some log => log.entries.length
  | none => 0

/-- A fresh log under the next identifier; a previous log is dropped. -/
def start (transaction : Transaction) : Transaction :=
  { log := some { id := ⟨BitVec.ofNat 128 transaction.started⟩ }
    started := transaction.started + 1 }

def record (transaction : Transaction) (request : Request) (response : Response) :
    Transaction :=
  { transaction with
    log := transaction.log.map fun log =>
      { log with entries := log.entries ++ [⟨request, response⟩] } }

def finish (transaction : Transaction) : Transaction :=
  { transaction with log := none }

end Transaction

end KeyedStore
