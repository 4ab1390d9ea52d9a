import KeyedStore.Backend.Script
import KeyedStore.Proofs.Backend.Memory
import Mathlib.Logic.Function.Basic

/-! Backends made of cells. A call that writes is about one cell: what it makes of the cell, and
whether it fails, depends on the call and on the cell, and it leaves all others alone. -/

namespace KeyedStore

abbrev Cell := String × List (Option Attribute)

def Call.cell (keyFields : List String) : Call → Cell
  | .put call => (call.table, call.item.cell keyFields)
  | .get call => (call.table, call.key.cell keyFields)
  | .delete call => (call.table, call.key.cell keyFields)
  | .update call => (call.table, call.key.cell keyFields)
  | .query call => (call.table, [])
  | .queryPages call => (call.table, [])

def Operation.writes : Operation → Bool
  | put => true
  | update => true
  | delete => true
  | get => false
  | query => false
  | queryPages => false

/-- A view of a backend as cells with contents. Of calls that read, and of what a call gives
back, nothing is said. -/
structure CellView {State : Type} (backend : Backend State) (keyFields : List String)
    (Content : Type) where
  Valid : State → Prop
  contents : State → Cell → Content
  outcome : Call → Content → Except BackendError Unit
  next : Call → Content → Content
  write : ∀ {call state answer after}, Valid state → call.operation.writes = true →
    backend.answer call state = (answer, after) →
      Valid after ∧
        answer.map (fun _ => ()) = outcome call (contents state (call.cell keyFields)) ∧
        contents after = Function.update (contents state) (call.cell keyFields)
          (next call (contents state (call.cell keyFields)))

theorem Rows.uncurry_set (rows : Rows) (cell : Cell) (content : Option AttributeMap) :
    (fun other : Cell => rows.set cell.1 cell.2 content other.1 other.2) =
      Function.update (fun other : Cell => rows other.1 other.2) cell content := by
  funext other
  by_cases same : other = cell
  · subst same
    simp [set]
  · have elsewhere : ¬(other.1 = cell.1 ∧ other.2 = cell.2) := fun both =>
      same (Prod.ext both.1 both.2)
    rw [Function.update_of_ne same, set, if_neg elsewhere]

variable {keyFields : List String} {Content : Type}

def Memory.nextRow (call : Call) (row : Option AttributeMap) : Option AttributeMap :=
  match call with
  | .put call => some call.item
  | .delete _ => none
  | .update call => some (row.getD call.key)
  | _ => row

theorem Memory.UniqueRows.answer {memory : Memory} (unique : memory.UniqueRows keyFields)
    {call : Call} (writes : call.operation.writes = true) :
    (memory.answer call).2.UniqueRows keyFields ∧
      (memory.answer call).2.cells keyFields =
        (memory.cells keyFields).set (call.cell keyFields).1 (call.cell keyFields).2
          (nextRow call
            (memory.cells keyFields (call.cell keyFields).1 (call.cell keyFields).2)) := by
  cases call with
  | put call =>
      exact (RowView.memory keyFields).put unique
        (show Backend.memory.answer (.put call) memory = (.ok _, _) from rfl)
  | delete call =>
      obtain ⟨valid, rows, -⟩ := (RowView.memory keyFields).delete unique
        (show Backend.memory.answer (.delete call) memory = (.ok _, _) from rfl)
      exact ⟨valid, rows⟩
  | update call =>
      have found : memory.find? call.table call.key =
          memory.cells keyFields call.table (call.key.cell keyFields) := by
        rw [find?_eq, unique.keyFields_eq]
        rfl
      simp only [Memory.answer, found, nextRow, Call.cell]
      cases held : memory.cells keyFields call.table (call.key.cell keyFields) with
      | some row => exact ⟨unique, (Rows.set_eq_self held).symm⟩
      | none => exact unique.store held
  | get call => simp [Call.operation, Operation.writes] at writes
  | query call => simp [Call.operation, Operation.writes] at writes
  | queryPages call => simp [Call.operation, Operation.writes] at writes

def CellView.memory (keyFields : List String) :
    CellView Backend.memory keyFields (Option AttributeMap) where
  Valid := Memory.UniqueRows keyFields
  contents memory cell := memory.cells keyFields cell.1 cell.2
  outcome _ _ := .ok ()
  next := Memory.nextRow
  write := by
    intro call memory answer after valid writes answered
    have given : .ok (memory.answer call).1 = answer := congrArg Prod.fst answered
    have left : (memory.answer call).2 = after := congrArg Prod.snd answered
    obtain ⟨afterValid, rows⟩ := valid.answer writes
    rw [← given, ← left]
    refine ⟨afterValid, rfl, ?_⟩
    rw [rows, Rows.uncurry_set]

def CellView.scripted {State : Type} {backend : Backend State}
    (view : CellView backend keyFields Content) (failing : List Operation) :
    CellView backend.scripted keyFields Content where
  Valid script := script.failing = failing ∧ script.replies = [] ∧ view.Valid script.inner
  contents script := view.contents script.inner
  outcome call content :=
    if call.operation ∈ failing then .error call.operation.unavailable
    else view.outcome call content
  next call content := if call.operation ∈ failing then content else view.next call content
  write := by
    rintro call script answer after ⟨sameFailing, noReply, valid⟩ writes answered
    simp only [Backend.scripted, noReply, takeReply, sameFailing] at answered
    by_cases fails : call.operation ∈ failing
    · rw [if_pos fails, Prod.mk.injEq] at answered
      obtain ⟨given, left⟩ := answered
      subst given left
      refine ⟨⟨sameFailing, noReply, valid⟩, ?_⟩
      simp [fails, Except.map]
    · rw [if_neg fails, Prod.mk.injEq] at answered
      obtain ⟨given, left⟩ := answered
      subst given left
      obtain ⟨afterValid, outcome, contents⟩ := view.write valid writes rfl
      refine ⟨⟨rfl, rfl, afterValid⟩, ?_⟩
      simp only [if_neg fails]
      exact ⟨outcome, contents⟩

end KeyedStore
