import KeyedStore.Backend.Basic

/-! Backends that act as a map: every table has at most one row for the values of the key
fields, a put replaces that row, a delete removes it, and reads change nothing. -/

namespace KeyedStore

def AttributeMap.cell (keyFields : List String) (row : AttributeMap) : List (Option Attribute) :=
  keyFields.map fun field => Fields.get? row field

/-- The rows of all tables by the attributes of their key fields. -/
abbrev Rows := String → List (Option Attribute) → Option AttributeMap

namespace Rows

def set (table : String) (cell : List (Option Attribute)) (content : Option AttributeMap)
    (rows : Rows) : Rows :=
  fun otherTable otherCell =>
    if otherTable = table ∧ otherCell = cell then content else rows otherTable otherCell

variable {table : String} {cell : List (Option Attribute)} {rows : Rows}

theorem set_self (content : Option AttributeMap) : rows.set table cell content table cell = content := by
  simp [set]

theorem set_eq_self {content : Option AttributeMap} (held : rows table cell = content) :
    rows.set table cell content = rows := by
  funext otherTable otherCell
  unfold set
  split
  · rename_i same
    rw [same.1, same.2, held]
  · rfl

theorem set_set (first second : Option AttributeMap) :
    (rows.set table cell first).set table cell second = rows.set table cell second := by
  funext otherTable otherCell
  unfold set
  split <;> rfl

end Rows

/-- A view of a backend as a map. The laws hold of valid states; updates are left open. -/
structure RowView {State : Type} (backend : Backend State) (keyFields : List String) where
  Valid : State → Prop
  rows : State → Rows
  cell_of_row : ∀ {state table cell row}, Valid state → rows state table cell = some row →
    row.cell keyFields = cell
  failed : ∀ {call state cause after}, Valid state → call.operation ≠ .update →
    backend.answer call state = (.error cause, after) → Valid after ∧ rows after = rows state
  put : ∀ {call state output after}, Valid state →
    backend.answer (.put call) state = (.ok output, after) →
      Valid after ∧
        rows after = (rows state).set call.table (call.item.cell keyFields) (some call.item)
  delete : ∀ {call : DeleteCall} {state after} {output : Option AttributeMap}, Valid state →
    backend.answer (.delete call) state = (.ok output, after) →
      Valid after ∧ rows after = (rows state).set call.table (call.key.cell keyFields) none ∧
        output = if call.returnValues = .allOld then
          rows state call.table (call.key.cell keyFields) else none
  read : ∀ {call state output after}, Valid state →
    call.operation ∈ [Operation.get, Operation.query, Operation.queryPages] →
      backend.answer call state = (.ok output, after) → Valid after ∧ rows after = rows state

end KeyedStore
