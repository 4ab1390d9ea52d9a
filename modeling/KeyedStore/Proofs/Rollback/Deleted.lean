import KeyedStore.Proofs.Attribute.Canonical
import KeyedStore.Proofs.Rollback.Attempts

/-! Putting a deleted item back. The old row is read, its key is laid over it and the whole is
written again, so what comes back is the canonical form of the row: numbers and texts as they
were at any depth, sets as lists, every null true, and no field of its own that is empty. -/

namespace KeyedStore

def AttributeMap.HasKey (row : AttributeMap) (key : Item) : Prop :=
  ∃ keyRow, key.marshal = .ok keyRow ∧
    ∀ name value, Fields.get? keyRow name = some value → row.get? name = some value

theorem AttributeMap.hasKey_of_subset {row : AttributeMap} {key : Item}
    (ascending : Fields.Ascending row) (keyRow : AttributeMap) (written : key.marshal = .ok keyRow)
    (inside : keyRow ⊆ row) : row.HasKey key :=
  ⟨keyRow, written, fun _ _ held => Fields.get?_of_mem ascending (inside (Fields.mem_of_get? held))⟩

section

variable {old row : AttributeMap} {key item : Item}

theorem Item.get?_overlay_of_hasKey (keyAscending : key.Ascending) (keyed : old.HasKey key)
    (read : old.unmarshal = .ok item) {name : String} (filled : key.get? name ≠ some (.string "")) :
    Fields.get? (item.overlay key) name = item.get? name := by
  obtain ⟨keyRow, keyWritten, contained⟩ := keyed
  rw [Fields.get?_overlay item keyAscending]
  cases held : Fields.get? key name with
  | none => rfl
  | some value =>
      have notEmpty : value.isEmptyString = false := by
        rw [← Bool.not_eq_true, Value.isEmptyString_iff]
        exact fun same => filled (by rw [held, same])
      have finite := (Item.exists_marshal_iff key).mp ⟨keyRow, keyWritten⟩ _
        (Fields.mem_of_get? held)
      obtain ⟨encoded, written⟩ := (Value.exists_marshal_iff value).mpr finite
      -- the row holds what the key writes here, and that reads as what the key holds
      have inKey : Fields.get? keyRow name = some encoded := by
        simp [Item.get?_marshal keyAscending keyWritten, held, notEmpty, written, Except.toOption]
      rw [AttributeMap.unmarshal, Attribute.unmarshalFields_eq_traverse] at read
      simp [Fields.get?_traverse read, contained name encoded inKey,
        Attribute.unmarshal_marshal written, Except.toOption]

theorem get?_canonical_of_hasKey (ascending : Fields.Ascending old)
    (keyAscending : key.Ascending) (keyed : old.HasKey key) (read : old.unmarshal = .ok item)
    (finite : ∀ field ∈ old, field.2.AllFinite)
    (written : Item.marshal (item.overlay key) = .ok row) {name : String}
    (filled : key.get? name ≠ some (.string "")) :
    Fields.get? row name = old.canonical.get? name := by
  have itemAscending := (AttributeMap.ascending_unmarshal read).mpr ascending
  have itemWritten := AttributeMap.marshal_of_unmarshal finite read
  rw [Item.get?_marshal (Fields.ascending_overlay itemAscending key) written,
    Item.get?_marshal itemAscending itemWritten,
    Item.get?_overlay_of_hasKey keyAscending keyed read filled]

theorem eq_canonical_of_hasKey (ascending : Fields.Ascending old)
    (keyAscending : key.Ascending) (keyed : old.HasKey key) (read : old.unmarshal = .ok item)
    (finite : ∀ field ∈ old, field.2.AllFinite)
    (written : Item.marshal (item.overlay key) = .ok row)
    (free : ∀ name, key.get? name = some (.string "") → Fields.get? old name = none) :
    row = old.canonical := by
  have itemAscending := (AttributeMap.ascending_unmarshal read).mpr ascending
  have mergedAscending := Fields.ascending_overlay itemAscending key
  have itemWritten := AttributeMap.marshal_of_unmarshal finite read
  apply Fields.ext_get? (Item.ascending_marshal mergedAscending written)
    (Item.ascending_marshal itemAscending itemWritten)
  intro name
  by_cases empty : key.get? name = some (.string "")
  · -- the key leaves such a name out, and the row has no field there
    rw [AttributeMap.unmarshal, Attribute.unmarshalFields_eq_traverse] at read
    rw [Item.get?_marshal mergedAscending written, Item.get?_marshal itemAscending itemWritten,
      Fields.get?_overlay item keyAscending, empty, Fields.get?_traverse read, free name empty]
    rfl
  · exact get?_canonical_of_hasKey ascending keyAscending keyed read finite written empty

end

namespace Store

theorem exchanges_of_dispatch_put {State : Type} (backend : Backend State) {request : Request}
    {prepared : Prepared} (put : request.action = .put) (ready : request.prepare = .ok prepared)
    (store : Store (Transcribed State)) :
    ∃ outcome, (store.dispatch backend.transcribed request).2.backendState.exchanges =
      store.backendState.exchanges ++ [⟨prepared.call, outcome⟩] := by
  have sent : store.asSent request = request := by simp [asSent, put]
  have missing : store.cached? request = none := cached?_of_ne_get store (by simp [put])
  rcases dispatch_cases backend.transcribed request store with
    ⟨response, remembered, -⟩ |
      ⟨-, ⟨error, refused, -⟩ |
        ⟨other, same, ⟨cause, after, answered, left⟩ | ⟨output, after, answered, left⟩⟩⟩
  · simp [missing] at remembered
  · simp [sent, ready] at refused
  · have isOther : prepared = other := by simpa [sent, ready] using same
    subst isOther
    exact ⟨_, by rw [left]; exact (transcribed_answer_eq_iff.mp answered).2⟩
  · have isOther : prepared = other := by simpa [sent, ready] using same
    subst isOther
    exact ⟨_, by rw [left]; exact (transcribed_answer_eq_iff.mp answered).2⟩

end Store

/-- Undoing a delete puts the canonical form of the deleted row, field by field, except where
the key holds an empty string. Numbers keep their texts. Of a row without a field at such a name
it is the row itself exactly if this has no empty string of its own and, at any depth, no set and
no false null. -/
theorem compensate_delete_puts_canonical {operation : LoggedOperation} {old : AttributeMap}
    {item : Item} (action : operation.request.action = .delete) (ordered : operation.Ordered)
    (attributes : operation.response.attributes = some old)
    (keyed : old.HasKey operation.request.key) (read : old.unmarshal = .ok item)
    (written : ∀ field ∈ old, field.2.NumbersWritten) :
    (∀ field ∈ old, ∀ leaf ∈ field.2.leaves, ∀ text ∈ leaf.numberTexts,
      canonicalNumberText text = text) ∧
    ∃ undo, operation.compensate = .ok (some undo) ∧ undo.action = .put ∧
      ((∃ prepared, undo.prepare = .ok prepared) ↔ operation.request.key ≠ []) ∧
      (operation.request.key ≠ [] → ∃ call : PutCall, call.table = operation.request.table ∧
        (∀ (State : Type) (backend : Backend State) (store : Store (Transcribed State)),
          ∃ outcome, (store.dispatch backend.transcribed undo).2.backendState.exchanges =
            store.backendState.exchanges ++ [⟨.put call, outcome⟩]) ∧
        (∀ name, operation.request.key.get? name ≠ some (.string "") →
          call.item.get? name = old.canonical.get? name) ∧
        ((∀ name, operation.request.key.get? name = some (.string "") → old.get? name = none) →
          call.item = old.canonical ∧
            (call.item = old ↔ ∀ field ∈ old, field.2.isEmptyString = false ∧
              ∀ leaf ∈ field.2.leaves, leaf.keepsForm = true))) := by
  have finite : ∀ field ∈ old, field.2.AllFinite :=
    fun field member => (written field member).allFinite
  have ascending := ordered.attributes old attributes
  have itemFinite : ∀ entry ∈ item, entry.2.isFinite = true :=
    (Item.exists_marshal_iff item).mp ⟨_, AttributeMap.marshal_of_unmarshal finite read⟩
  have keyWritten : ∃ keyRow, operation.request.key.marshal = .ok keyRow :=
    keyed.imp fun _ both => both.1
  have compensated := LoggedOperation.compensate_delete action attributes read
  refine ⟨?_, _, compensated, rfl, ⟨?_, ?_⟩, ?_⟩
  · intro field member leaf inField text inLeaf
    obtain ⟨number, marshaled⟩ := written field member leaf inField text inLeaf
    exact Attribute.canonicalNumberText_of_marshal marshaled
  · rintro ⟨prepared, ready⟩
    exact (Request.preparePut_eq_ok_iff.mp ready).1
  · exact fun filled => Request.exists_prepare_inverse_put filled keyWritten itemFinite
  · intro filled
    obtain ⟨prepared, ready⟩ := Request.exists_prepare_inverse_put filled keyWritten itemFinite
    obtain ⟨-, row, rowWritten, condition, aliases, -, shape⟩ :=
      Request.preparePut_eq_ok_iff.mp ready
    refine ⟨⟨operation.request.table, row, nonEmpty? condition, aliases⟩, rfl, ?_, ?_, ?_⟩
    · intro State backend store
      have sent := Store.exchanges_of_dispatch_put backend rfl ready store
      rw [shape] at sent
      exact sent
    · intro name notEmpty
      exact get?_canonical_of_hasKey ascending ordered.key keyed read finite rowWritten notEmpty
    · intro free
      have same := eq_canonical_of_hasKey ascending ordered.key keyed read finite rowWritten free
      exact ⟨same, by rw [same, AttributeMap.canonical_eq_self_iff written]⟩

theorem compensate_delete_puts_plain_row :
    let old : AttributeMap := [("gone", .null false), ("id", .string "a"),
      ("sizes", .list [.number "7", .string ""])]
    let operation : LoggedOperation := {
      request := { table := "notes", action := .delete, key := [("id", .string "a")] }
      response := { attributes := some old } }
    ∃ undo, operation.compensate = .ok (some undo) ∧
      ∃ call : PutCall,
        (∀ (State : Type) (backend : Backend State) (store : Store (Transcribed State)),
          ∃ outcome, (store.dispatch backend.transcribed undo).2.backendState.exchanges =
            store.backendState.exchanges ++ [⟨.put call, outcome⟩]) ∧
        call.item = [("gone", .null true), ("id", .string "a"),
          ("sizes", .list [.number "7", .string ""])] := by
  intro old operation
  have seven : ∃ number : Number, number.marshal = .ok "7" :=
    ⟨(readNumberText? "7").getD .notANumber, Number.marshal_eq_ok_iff.mpr (by decide +kernel)⟩
  have written : ∀ field ∈ old, field.2.NumbersWritten := by
    simpa [old, Attribute.NumbersWritten, Attribute.leaves, Attribute.elementLeaves,
      Attribute.numberTexts] using seven
  have ordered : operation.Ordered := ⟨by decide, by
    intro row same
    rw [← Option.some.inj same]
    decide⟩
  have keyed : old.HasKey operation.request.key :=
    AttributeMap.hasKey_of_subset (by decide) [("id", .string "a")] rfl (by simp [old])
  obtain ⟨item, read⟩ : ∃ item, old.unmarshal = .ok item := ⟨_, rfl⟩
  have canonical : old.canonical = [("gone", .null true), ("id", .string "a"),
      ("sizes", .list [.number "7", .string ""])] := by
    decide +kernel
  obtain ⟨-, undo, compensated, -, -, puts⟩ :=
    compensate_delete_puts_canonical rfl ordered rfl keyed read written
  obtain ⟨call, -, sent, -, whole⟩ := puts (by simp [operation])
  refine ⟨undo, compensated, call, sent, ?_⟩
  rw [(whole ?_).1, canonical]
  intro name empty
  simp only [operation, Fields.get?] at empty
  split at empty <;> simp at empty

/-- A deleted set of texts is put back as a list of them. -/
theorem compensate_delete_puts_set_as_list :
    let key : Item := [("id", .string "a")]
    let old : AttributeMap := [("id", .string "a"), ("tags", .stringSet ["x", "y"])]
    let operation : LoggedOperation :=
      ⟨{ table := "notes", action := .delete, key }, { attributes := some old }⟩
    old.HasKey key ∧ (∃ item, old.unmarshal = .ok item) ∧
      (∀ field ∈ old, field.2.NumbersWritten) ∧
      ∃ undo prepared call, operation.compensate = .ok (some undo) ∧
        undo.prepare = .ok prepared ∧ prepared.call = .put call ∧
        call.item = [("id", .string "a"), ("tags", .list [.string "x", .string "y"])] ∧
        call.item ≠ old := by
  intro key old operation
  have keyed : old.HasKey key :=
    AttributeMap.hasKey_of_subset (by decide) [("id", .string "a")] rfl (by simp [old])
  refine ⟨keyed, ⟨_, rfl⟩, ?_, _, _, _, rfl, rfl, rfl, rfl, by decide⟩
  simp [old, Attribute.NumbersWritten, Attribute.leaves, Attribute.numberTexts]

end KeyedStore
