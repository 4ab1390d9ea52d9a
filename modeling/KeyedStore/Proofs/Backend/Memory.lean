import KeyedStore.Backend.Memory
import KeyedStore.Proofs.Backend.Rows
import KeyedStore.Proofs.Fields

/-! Tables in memory act as a map as long as no two rows of a table share their key
fields: a put takes out the row of its cell before it adds its own. -/

namespace KeyedStore

section UniqueKeys

variable {α β : Type} [BEq β] [LawfulBEq β] {key : α → β} {rows : List α} {cell other : β}

theorem notMem_cells_eraseP (unique : (rows.map key).Nodup) :
    cell ∉ (rows.eraseP fun row => key row == cell).map key := by
  induction rows with
  | nil => simp
  | cons row rest ih =>
      rw [List.map_cons, List.nodup_cons] at unique
      by_cases same : key row = cell
      · subst same
        simpa using unique.1
      · have kept := ih unique.2
        simp only [List.eraseP_cons, beq_eq_false_iff_ne.mpr same, cond_false, List.map_cons,
          List.mem_cons, not_or]
        exact ⟨Ne.symm same, kept⟩

theorem find?_eraseP_of_ne (different : cell ≠ other) :
    (rows.eraseP fun row => key row == cell).find? (fun row => key row == other) =
      rows.find? fun row => key row == other := by
  induction rows with
  | nil => rfl
  | cons row rest ih =>
      by_cases same : key row = cell
      · have passed : (key row == other) = false := by
          rw [same]
          exact beq_eq_false_iff_ne.mpr different
        simp [same, same ▸ passed]
      · simp only [List.eraseP_cons, beq_eq_false_iff_ne.mpr same, cond_false, List.find?_cons, ih]

theorem find?_eraseP_self (unique : (rows.map key).Nodup) :
    (rows.eraseP fun row => key row == cell).find? (fun row => key row == cell) = none := by
  rw [List.find?_eq_none]
  intro row member same
  apply notMem_cells_eraseP unique
  exact (beq_iff_eq.mp same) ▸ List.mem_map_of_mem member

end UniqueKeys

namespace Memory

variable {memory : Memory} {table : String} {row key : AttributeMap}

theorem hasKey_eq (memory : Memory) (row key : AttributeMap) :
    memory.hasKey row key = (row.cell memory.keyFields == key.cell memory.keyFields) := by
  rw [Bool.eq_iff_iff, beq_iff_eq, AttributeMap.cell, AttributeMap.cell, List.map_inj_left]
  simp [hasKey]

theorem find?_eq (memory : Memory) (table : String) (key : AttributeMap) :
    memory.find? table key =
      (memory.rows table).find? fun row =>
        row.cell memory.keyFields == key.cell memory.keyFields := by
  simp only [find?, hasKey_eq]

theorem get?_overlay_filterMap (row base : AttributeMap) (names : List String) (name : String) :
    Fields.get? (base.overlay (names.filterMap fun field =>
        (Fields.get? row field).map fun value => (field, value))) name =
      if name ∈ names ∧ (Fields.get? row name).isSome then Fields.get? row name
      else Fields.get? base name := by
  induction names generalizing base with
  | nil => simp [Fields.overlay]
  | cons field rest ih =>
      cases held : Fields.get? row field with
      | none =>
          rw [List.filterMap_cons_none (by simp [held]), ih]
          by_cases same : name = field
          · simp [same, held]
          · simp [same]
      | some value =>
          rw [List.filterMap_cons_some (by simp [held]; rfl)]
          simp only [Fields.overlay, List.foldl_cons] at ih ⊢
          rw [ih]
          by_cases same : name = field
          · subst same
            simp [held, Fields.get?_set_self]
          · simp [same, Fields.get?_set_of_ne (Ne.symm same)]

theorem cell_keyOf (memory : Memory) (row : AttributeMap) :
    (memory.keyOf row).cell memory.keyFields = row.cell memory.keyFields := by
  apply List.map_congr_left
  intro field member
  rw [keyOf, Fields.ofList, get?_overlay_filterMap]
  cases held : Fields.get? row field with
  | none => simp [Fields.get?]
  | some value => simp [member]

theorem rows_set (memory : Memory) (table other : String) (rows : List AttributeMap) :
    ({ memory with tables := memory.tables.set table rows } : Memory).rows other =
      if other = table then rows else memory.rows other := by
  by_cases same : other = table
  · subst same
    simp [Memory.rows, Fields.get?_set_self]
  · simp [Memory.rows, Fields.get?_set_of_ne (Ne.symm same), same]

theorem rows_store (memory : Memory) (table other : String) (row : AttributeMap) :
    (memory.store table row).rows other =
      if other = table then memory.rows table ++ [row] else memory.rows other :=
  rows_set memory table other _

theorem rows_remove (memory : Memory) (table other : String) (key : AttributeMap) :
    (memory.remove table key).rows other =
      if other = table then
        (memory.rows table).eraseP fun row =>
          row.cell memory.keyFields == key.cell memory.keyFields
      else memory.rows other := by
  unfold remove
  cases found : memory.find? table key with
  | some row => simp only [rows_set, hasKey_eq]
  | none =>
      rw [find?_eq, List.find?_eq_none] at found
      by_cases same : other = table
      · subst same
        rw [if_pos rfl, List.eraseP_of_forall_not found]
      · rw [if_neg same]

theorem keyFields_remove (memory : Memory) (table : String) (key : AttributeMap) :
    (memory.remove table key).keyFields = memory.keyFields := by
  unfold remove
  split <;> rfl

/-- The key fields are the given ones, and no two rows of a table agree in all of them. -/
structure UniqueRows (keyFields : List String) (memory : Memory) : Prop where
  keyFields_eq : memory.keyFields = keyFields
  unique : ∀ table, ((memory.rows table).map (AttributeMap.cell keyFields)).Nodup

def cells (keyFields : List String) (memory : Memory) : Rows := fun table cell =>
  (memory.rows table).find? fun row => row.cell keyFields == cell

variable {keyFields : List String}

theorem UniqueRows.remove (unique : memory.UniqueRows keyFields) (table : String)
    (key : AttributeMap) :
    (memory.remove table key).UniqueRows keyFields ∧
      (memory.remove table key).cells keyFields =
        (memory.cells keyFields).set table (key.cell keyFields) none := by
  obtain ⟨same, distinct⟩ := unique
  subst same
  refine ⟨⟨keyFields_remove memory table key, ?_⟩, ?_⟩
  · intro other
    rw [rows_remove]
    split
    · exact (distinct table).sublist (List.eraseP_sublist.map _)
    · exact distinct other
  · funext other cell
    simp only [cells, rows_remove, Rows.set]
    by_cases sameTable : other = table
    · subst sameTable
      by_cases sameCell : cell = key.cell memory.keyFields
      · subst sameCell
        rw [if_pos rfl, if_pos ⟨rfl, rfl⟩]
        exact find?_eraseP_self (distinct other)
      · rw [if_pos rfl, if_neg fun both => sameCell both.2]
        exact find?_eraseP_of_ne (Ne.symm sameCell)
    · simp [sameTable]

theorem UniqueRows.store (unique : memory.UniqueRows keyFields) {table : String}
    {row : AttributeMap} (absent : memory.cells keyFields table (row.cell keyFields) = none) :
    (memory.store table row).UniqueRows keyFields ∧
      (memory.store table row).cells keyFields =
        (memory.cells keyFields).set table (row.cell keyFields) (some row) := by
  obtain ⟨same, distinct⟩ := unique
  simp only [cells, List.find?_eq_none, beq_iff_eq] at absent
  refine ⟨⟨same, ?_⟩, ?_⟩
  · intro other
    rw [rows_store]
    split
    · rw [List.map_append, List.nodup_append]
      refine ⟨distinct table, by simp, ?_⟩
      intro left leftMember right rightMember
      obtain ⟨held, heldMember, heldCell⟩ := List.mem_map.mp leftMember
      simp only [List.map_cons, List.map_nil, List.mem_singleton] at rightMember
      rw [rightMember, ← heldCell]
      exact absent held heldMember
    · exact distinct other
  · funext other cell
    simp only [cells, rows_store, Rows.set]
    by_cases sameTable : other = table
    · subst sameTable
      by_cases sameCell : cell = row.cell keyFields
      · subst sameCell
        have missing : (memory.rows other).find?
            (fun held => held.cell keyFields == row.cell keyFields) = none := by
          simpa [List.find?_eq_none] using absent
        simp [List.find?_append, missing]
      · have passed : (row.cell keyFields == cell) = false := by
          simpa using Ne.symm sameCell
        simp [List.find?_append, sameCell, passed]
    · simp [sameTable]

end Memory

def RowView.memory (keyFields : List String) : RowView Backend.memory keyFields where
  Valid := Memory.UniqueRows keyFields
  rows := Memory.cells keyFields
  cell_of_row := by
    intro memory table cell row _ held
    unfold Memory.cells at held
    have found := List.find?_some held
    exact beq_iff_eq.mp found
  failed := by
    intro call memory cause after _ _ answered
    simp [Backend.memory] at answered
  put := by
    intro call memory output after valid answered
    have same : after = (memory.remove call.table (memory.keyOf call.item)).store call.table
        call.item := by
      simp only [Backend.memory, Memory.answer, Prod.mk.injEq] at answered
      exact answered.2.symm
    have cell : (memory.keyOf call.item).cell keyFields = call.item.cell keyFields := by
      rw [← valid.keyFields_eq, Memory.cell_keyOf]
    obtain ⟨removedValid, removed⟩ := valid.remove call.table (memory.keyOf call.item)
    rw [cell] at removed
    obtain ⟨storedValid, stored⟩ := removedValid.store
      (by rw [removed, Rows.set_self] : _ = none)
    rw [same]
    refine ⟨storedValid, ?_⟩
    rw [stored, removed, Rows.set_set]
  delete := by
    intro call memory after output valid answered
    simp only [Backend.memory, Memory.answer, Prod.mk.injEq] at answered
    obtain ⟨given, same⟩ := answered
    have output_eq : Memory.returned call.returnValues (memory.find? call.table call.key) =
        output := Except.ok.inj given
    obtain ⟨removedValid, removed⟩ := valid.remove call.table call.key
    rw [← same]
    refine ⟨removedValid, removed, ?_⟩
    rw [← output_eq, Memory.find?_eq, valid.keyFields_eq]
    cases call.returnValues <;> rfl
  read := by
    intro call memory output after valid reads answered
    have same : after = memory := by
      cases call <;> simp_all [Call.operation, Backend.memory, Memory.answer]
    exact ⟨same ▸ valid, by rw [same]⟩

end KeyedStore
