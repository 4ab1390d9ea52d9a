import KeyedStore.PageWindow
import KeyedStore.Response.Field

/-! Preparing a request: every check that needs no backend, and the one call the request
comes down to. -/

namespace KeyedStore

structure Prepared where
  call : Call
  respond : call.operation.Output → Response

def nonEmpty? (expression : String) : Option String :=
  if expression.isEmpty then none else some expression

def Item.marshalRow (item : Item) : Except StoreError AttributeMap :=
  item.marshal.mapError .marshalFailed

namespace Request

def requireKey (request : Request) : Except StoreError Unit :=
  if request.key.isEmpty then
    .error (.invalidRequest (.missingKey request.action request.table))
  else .ok ()

def conditionExpression (request : Request) (aliases : Aliases) :
    Except StoreError (String × Aliases) :=
  match compileConditions request.conditions aliases with
  | (.ok expression, aliases) => .ok (expression, aliases)
  | (.error cause, _) => .error (.invalidCondition cause)

def filterExpression (request : Request) (aliases : Aliases) :
    Except StoreError (String × Aliases) :=
  match compileConditions request.filter aliases with
  | (.ok expression, aliases) => .ok (expression, aliases)
  | (.error cause, _) => .error (.invalidFilter cause)

def updateExpression (request : Request) : Except StoreError (String × Aliases) :=
  match compileUpdates request.updates .empty with
  | (.ok expression, aliases) => .ok (expression, aliases)
  | (.error cause, _) => .error (.invalidUpdate cause)

/-- A put stores the item together with its key. -/
def preparePut (request : Request) : Except StoreError Prepared := do
  request.requireKey
  let item ← Item.marshalRow (request.item.overlay request.key)
  let (condition, aliases) ← request.conditionExpression .empty
  return {
    call := .put { table := request.table, item, condition := nonEmpty? condition, aliases }
    respond := fun _ => {} }

/-- A get answers no row for a row without fields. -/
def prepareGet (request : Request) : Except StoreError Prepared := do
  request.requireKey
  let key ← request.key.marshalRow
  return {
    call := .get { table := request.table, key, consistentRead := request.consistentRead }
    respond := fun row => .ofItems (row.toList.filter fun row => !row.isEmpty) }

def prepareDelete (request : Request) : Except StoreError Prepared := do
  request.requireKey
  let key ← request.key.marshalRow
  let (condition, aliases) ← request.conditionExpression .empty
  return {
    call := .delete {
      table := request.table, key, condition := nonEmpty? condition, aliases
      returnValues := request.returnValues }
    respond := .ofAttributes }

def prepareUpdate (request : Request) : Except StoreError Prepared := do
  request.requireKey
  let key ← request.key.marshalRow
  let (update, aliases) ← request.updateExpression
  let (condition, aliases) ← request.conditionExpression aliases
  return {
    call := .update {
      table := request.table, key, update, condition := nonEmpty? condition, aliases
      returnValues := request.returnValues }
    respond := .ofAttributes }

def rowLimit? (request : Request) : Option Nat :=
  if request.limit = 0 then none else some request.limit.toNat

def startKey? (request : Request) : Except StoreError (Option AttributeMap) :=
  if request.lastKey.isEmpty then .ok none else return some (← request.lastKey.marshalRow)

/-- A query of one backend page. Rows beyond the limit are dropped. -/
def prepareQuery (request : Request) : Except StoreError Prepared := do
  let (keyCondition, aliases) ← request.conditionExpression .empty
  let (filter, aliases) ← request.filterExpression aliases
  let startKey ← request.startKey?
  let limit := request.rowLimit?
  return {
    call := .query {
      table := request.table, index := request.index, keyCondition
      filter := nonEmpty? filter, aliases, consistentRead := request.consistentRead
      limit, startKey }
    respond := fun page =>
      { items := match limit with
          | some limit => page.items.take limit
          | none => page.items
        lastKey := page.lastKey } }

/-- A query of all backend pages, out of which one page of the client is cut. -/
def preparePages (request : Request) : Except StoreError Prepared := do
  let window ← (PageWindow.ofPage request.page request.pageSize).mapError .invalidRequest
  let (keyCondition, aliases) ← request.conditionExpression .empty
  return {
    call := .queryPages {
      table := request.table, index := request.index, keyCondition, aliases
      consistentRead := request.consistentRead }
    respond := fun pages =>
      let window := window.offerAll pages
      { items := window.items, pageCount := window.pageCount } }

def prepare (request : Request) : Except StoreError Prepared :=
  match request.action with
  | .put => request.preparePut
  | .get => request.prepareGet
  | .update => request.prepareUpdate
  | .delete => request.prepareDelete
  | .query => request.prepareQuery
  | .queryPager => request.preparePages

end Request

end KeyedStore
