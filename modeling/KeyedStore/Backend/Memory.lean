import KeyedStore.Backend.Basic

/-! A backend in memory. Rows are found by their key fields; expressions are not
evaluated, so an update only makes sure that its row exists. -/

namespace KeyedStore

structure Memory where
  keyFields : List String := ["id"]
  nativePageSize : Nat := 7
  endpoint : Option String := none
  tables : Fields (List AttributeMap) := []

namespace Memory

def rows (memory : Memory) (table : String) : List AttributeMap :=
  (memory.tables.get? table).getD []

/-- Whether every key field is equal in both, or missing from both. -/
def hasKey (memory : Memory) (row key : AttributeMap) : Bool :=
  memory.keyFields.all fun field => row.get? field == key.get? field

def keyOf (memory : Memory) (row : AttributeMap) : AttributeMap :=
  Fields.ofList (memory.keyFields.filterMap fun field =>
    (row.get? field).map fun value => (field, value))

def find? (memory : Memory) (table : String) (key : AttributeMap) : Option AttributeMap :=
  (memory.rows table).find? (memory.hasKey · key)

def store (memory : Memory) (table : String) (row : AttributeMap) : Memory :=
  { memory with tables := memory.tables.set table (memory.rows table ++ [row]) }

def remove (memory : Memory) (table : String) (key : AttributeMap) : Memory :=
  match memory.find? table key with
  | none => memory
  | some _ =>
      { memory with
        tables :=
          memory.tables.set table ((memory.rows table).eraseP (memory.hasKey · key)) }

/-- The rows behind the one with a key; all rows without a key, none if no row has it. -/
def rowsAfter (memory : Memory) (table : String) (key : Option AttributeMap) :
    List AttributeMap :=
  match key with
  | none => memory.rows table
  | some key => ((memory.rows table).dropWhile (!memory.hasKey · key)).drop 1

def page (memory : Memory) (call : QueryCall) : Page :=
  let ahead := memory.rowsAfter call.table call.startKey
  let items := match call.limit with
    | some limit => ahead.take limit
    | none => ahead
  { items
    lastKey := if items.length < ahead.length then items.getLast?.map memory.keyOf else none }

def pages (memory : Memory) (table : String) : List Page :=
  let rows := memory.rows table
  let size := memory.nativePageSize
  (List.range ((rows.length + size - 1) / size)).map fun number =>
    { items := (rows.drop (number * size)).take size }

def returned (values : ReturnValues) (row : Option AttributeMap) : Option AttributeMap :=
  match values with
  | .allOld => row
  | .nothing => none

def answer (call : Call) (memory : Memory) : call.operation.Output × Memory :=
  match call with
  | .put call =>
      let key := memory.keyOf call.item
      (memory.find? call.table key, (memory.remove call.table key).store call.table call.item)
  | .get call => (memory.find? call.table call.key, memory)
  | .delete call =>
      (returned call.returnValues (memory.find? call.table call.key),
        memory.remove call.table call.key)
  | .update call =>
      let old := memory.find? call.table call.key
      (returned call.returnValues old,
        if old.isSome then memory else memory.store call.table call.key)
  | .query call => (memory.page call, memory)
  | .queryPages call => (memory.pages call.table, memory)

end Memory

/-- Tables in memory as a backend, which never fails. -/
def Backend.memory : Backend Memory where
  answer call memory :=
    let (output, memory) := memory.answer call
    (.ok output, memory)

end KeyedStore
