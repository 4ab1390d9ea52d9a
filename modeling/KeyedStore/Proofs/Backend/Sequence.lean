import KeyedStore.Proofs.Attribute.Codec
import KeyedStore.Proofs.Backend.Memory

/-! Backends that hold the rows of a table in a fixed order, and give a query with a limit the
next rows behind the one whose key it names. -/

namespace KeyedStore

def rowsBehind (rows : List AttributeMap) (keyOf : AttributeMap → AttributeMap) :
    Option AttributeMap → List AttributeMap
  | none => rows
  | some key => (rows.dropWhile fun row => keyOf row != key).drop 1

theorem rowsBehind_keyOf {rows front rest : List AttributeMap}
    {keyOf : AttributeMap → AttributeMap} {row : AttributeMap}
    (distinct : (rows.map keyOf).Nodup) (cut : rows = front ++ row :: rest) :
    rowsBehind rows keyOf (some (keyOf row)) = rest := by
  subst cut
  rw [List.map_append, List.map_cons] at distinct
  have passed : ∀ early ∈ front, (keyOf early != keyOf row) = true := by
    intro early member
    rw [bne_iff_ne]
    exact (List.nodup_append.mp distinct).2.2 _ (List.mem_map_of_mem member) _ List.mem_cons_self
  rw [rowsBehind, List.dropWhile_append_of_pos passed]
  simp

/-- Rows of a table in a fixed order. Their keys are distinct and not empty, and come back as they
were after a turn as items. While the backend holds the rows, a query with a limit gives as many
rows behind its start key as it may, and names the last of them if there are more. -/
structure RowSequence {State : Type} (backend : Backend State) (table : String) where
  rows : List AttributeMap
  keyOf : AttributeMap → AttributeMap
  Holds : State → Prop
  distinct : (rows.map keyOf).Nodup
  nonempty : ∀ row ∈ rows, keyOf row ≠ []
  returning : ∀ row ∈ rows, ∃ item, (keyOf row).unmarshal = .ok item ∧
    Item.marshal item = .ok (keyOf row)
  answer_query : ∀ {call : QueryCall} {limit : Nat} {state : State}, Holds state →
    call.table = table → call.limit = some limit →
      (∀ key ∈ call.startKey, key ∈ rows.map keyOf) →
        let ahead := rowsBehind rows keyOf call.startKey
        ∃ page after, backend.answer (.query call) state = (.ok page, after) ∧ Holds after ∧
          page.items = ahead.take limit ∧
            page.lastKey =
              if limit < ahead.length then (ahead.take limit).getLast?.map keyOf else none

namespace Memory

theorem keyOf_eq_iff (memory : Memory) (left right : AttributeMap) :
    memory.keyOf left = memory.keyOf right ↔
      left.cell memory.keyFields = right.cell memory.keyFields := by
  constructor
  · intro same
    rw [← cell_keyOf, same, cell_keyOf]
  · intro same
    rw [AttributeMap.cell, AttributeMap.cell, List.map_inj_left] at same
    unfold keyOf
    congr 1
    apply List.filterMap_congr
    intro field member
    rw [same field member]

theorem rowsAfter_keyOf (memory : Memory) (table : String) (row : AttributeMap) :
    memory.rowsAfter table (some (memory.keyOf row)) =
      rowsBehind (memory.rows table) memory.keyOf (some (memory.keyOf row)) := by
  have same : ∀ other,
      (!memory.hasKey other (memory.keyOf row)) = (memory.keyOf other != memory.keyOf row) := by
    intro other
    rw [hasKey_eq, cell_keyOf, Bool.eq_iff_iff, bne_iff_ne, ne_eq, keyOf_eq_iff]
    simp
  simp only [rowsAfter, rowsBehind, same]

end Memory

def RowSequence.memory (memory : Memory) (table : String)
    (distinct : ((memory.rows table).map memory.keyOf).Nodup)
    (nonempty : ∀ row ∈ memory.rows table, memory.keyOf row ≠ [])
    (returning : ∀ row ∈ memory.rows table, ∃ item,
      (memory.keyOf row).unmarshal = .ok item ∧ Item.marshal item = .ok (memory.keyOf row)) :
    RowSequence Backend.memory table where
  rows := memory.rows table
  keyOf := memory.keyOf
  Holds := (· = memory)
  distinct := distinct
  nonempty := nonempty
  returning := returning
  answer_query := by
    intro call limit state holds sameTable limited known ahead
    subst holds
    refine ⟨state.page call, state, rfl, rfl, ?_⟩
    have rest : state.rowsAfter call.table call.startKey = ahead := by
      rw [sameTable]
      cases start : call.startKey with
      | none => simp only [ahead, start, Memory.rowsAfter, rowsBehind]
      | some key =>
          obtain ⟨row, -, named⟩ := List.mem_map.mp (known key (by simp [start]))
          simp only [ahead, start, ← named, Memory.rowsAfter_keyOf]
    have more : (ahead.take limit).length < ahead.length ↔ limit < ahead.length := by
      rw [List.length_take]
      omega
    simp only [Memory.page, rest, limited, more, and_self]

end KeyedStore
