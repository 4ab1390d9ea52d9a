import KeyedStore.Backend.Memory
import KeyedStore.Proofs.Path.RestoreTarget
import KeyedStore.Proofs.Store.Dispatch

/-! Compensations as requests. A logged operation always has a compensation when its old
row can be read; the compensation passes every check made before the backend is called,
unless it has to bring back an empty string. -/

namespace KeyedStore

namespace Value

theorem isFinite_step? {value inner : Value} {segment : String}
    (finite : value.isFinite = true) (stepped : value.step? segment = some inner) :
    inner.isFinite = true := by
  unfold step? at stepped
  split at stepped
  · rw [isFinite, finiteElements_iff] at finite
    exact finite inner (List.mem_of_getElem? stepped)
  · rw [isFinite, finiteFields_iff] at finite
    exact finite _ (Fields.mem_of_get? stepped)
  · simp at stepped

theorem isFinite_walk? {value reached : Value} {segments : List String}
    (finite : value.isFinite = true) (walked : value.walk? segments = some reached) :
    reached.isFinite = true := by
  induction segments generalizing value with
  | nil =>
      simp only [walk?, List.foldlM_nil, pure, Option.some.injEq] at walked
      exact walked ▸ finite
  | cons segment rest ih =>
      simp only [walk?, List.foldlM_cons, Option.bind_eq_bind, Option.bind_eq_some_iff]
        at walked
      obtain ⟨inner, stepped, below⟩ := walked
      exact ih (isFinite_step? finite stepped) below

end Value

theorem Item.isFinite_lookup? {item : Item} {path : String} {reached : Value}
    (finite : ∀ entry ∈ item, entry.2.isFinite = true)
    (found : item.lookup? path = some reached) : reached.isFinite = true := by
  unfold lookup? at found
  split at found
  · simp at found
  · obtain ⟨value, held, walked⟩ := Option.bind_eq_some_iff.mp found
    exact Value.isFinite_walk? (finite _ (Fields.mem_of_get? held)) walked

def Response.OldFinite (response : Response) : Prop :=
  ∀ row, response.attributes = some row →
    ∃ item, row.unmarshal = .ok item ∧ ∀ entry ∈ item, entry.2.isFinite = true

/-- The operation updated a path below which the old row held an empty string. -/
def LoggedOperation.RestoresEmptyString (operation : LoggedOperation) : Prop :=
  operation.request.action = .update ∧
    ∃ row old, operation.response.attributes = some row ∧ row.unmarshal = .ok old ∧
      ∃ update ∈ operation.request.updates,
        old.lookup? (restoreTarget update.path) = some (.string "")

namespace Update

def restoringAll (old : Item) (updates : List Update) : List Update :=
  (updates.map fun update => restoreTarget update.path).eraseDups.map (restoring old)

theorem mem_restoringAll_iff {old : Item} {updates : List Update} {restored : Update} :
    restored ∈ restoringAll old updates ↔
      ∃ update ∈ updates, restored = restoring old (restoreTarget update.path) := by
  simp only [restoringAll, List.mem_map, List.mem_eraseDups]
  constructor
  · rintro ⟨path, ⟨update, member, same⟩, isRestored⟩
    exact ⟨update, member, by rw [same, isRestored]⟩
  · rintro ⟨update, member, same⟩
    exact ⟨_, ⟨update, member, rfl⟩, same.symm⟩

theorem restoringAll_ne_nil {updates : List Update} (filled : updates ≠ []) (old : Item) :
    restoringAll old updates ≠ [] := by
  obtain ⟨first, rest, shape⟩ := List.exists_cons_of_ne_nil filled
  apply List.ne_nil_of_mem
  exact mem_restoringAll_iff.mpr ⟨first, by simp [shape], rfl⟩

end Update

theorem Update.accepted_restoring_iff {path : String} (admitted : Admits (pathSegments path))
    {old : Item} (finite : ∀ entry ∈ old, entry.2.isFinite = true) :
    (Update.restoring old (restoreTarget path)).Accepted ↔
      old.lookup? (restoreTarget path) ≠ some (.string "") := by
  obtain ⟨targetAdmitted, unmarked⟩ := admitted.dropMarker
  rw [← pathSegments_restoreTarget admitted] at targetAdmitted unmarked
  unfold restoring
  split
  · rename_i value found
    have valueFinite := Item.isFinite_lookup? finite found
    simp only [Accepted, targetAdmitted, reduceCtorEq, if_false, valueFinite, and_true, true_and,
      found]
    cases value <;> simp [Value.isEmptyString]
  · rename_i missing
    simp [Accepted, targetAdmitted, unmarked, missing]

namespace LoggedOperation

variable {operation : LoggedOperation}

theorem compensate_put (put : operation.request.action = .put) :
    operation.compensate = .ok (some (operation.request.inverse .delete)) := by
  simp [compensate, put]

theorem compensate_read
    (read : operation.request.action ∈ [Action.get, Action.query, Action.queryPager]) :
    operation.compensate = .ok none := by
  simp only [List.mem_cons, List.not_mem_nil, or_false] at read
  rcases read with get | query | pages
  · simp [compensate, get]
  · simp [compensate, query]
  · simp [compensate, pages]

theorem compensate_delete_absent (delete : operation.request.action = .delete)
    (absent : operation.response.attributes = none) : operation.compensate = .ok none := by
  simp [compensate, delete, absent]

theorem compensate_delete (delete : operation.request.action = .delete) {row : AttributeMap}
    {item : Item} (held : operation.response.attributes = some row)
    (read : row.unmarshal = .ok item) :
    operation.compensate = .ok (some { operation.request.inverse .put with item }) := by
  simp [compensate, delete, held, read]

theorem compensate_update_absent (update : operation.request.action = .update)
    (absent : operation.response.attributes = none) :
    operation.compensate = .ok (some (operation.request.inverse .delete)) := by
  simp [compensate, update, absent]

theorem compensate_update (update : operation.request.action = .update) {row : AttributeMap}
    {old : Item} (held : operation.response.attributes = some row)
    (read : row.unmarshal = .ok old) :
    operation.compensate = .ok (some { operation.request.inverse .update with
      updates := Update.restoringAll old operation.request.updates }) := by
  simp [compensate, update, held, read, Update.restoringAll]

end LoggedOperation

namespace Request

variable {request : Request}

theorem keyWritable_of_prepare {prepared : Prepared} (keyAscending : request.key.Ascending)
    (write : request.action = .put ∨ request.action = .delete ∨ request.action = .update)
    (ready : request.prepare = .ok prepared) :
    request.key ≠ [] ∧ ∃ row, request.key.marshal = .ok row := by
  unfold prepare at ready
  rcases write with put | delete | update
  · simp only [put, preparePut_eq_ok_iff] at ready
    obtain ⟨keyed, row, written, -⟩ := ready
    refine ⟨keyed, (Item.exists_marshal_iff _).mpr ?_⟩
    intro entry member
    have onTop : Fields.get? (request.item.overlay request.key) entry.1 = some entry.2 := by
      rw [Fields.get?_overlay _ keyAscending, Fields.get?_of_mem keyAscending member,
        Option.some_or]
    exact (Item.exists_marshal_iff _).mp ⟨row, written⟩ entry (Fields.mem_of_get? onTop)
  · simp only [delete, prepareDelete_eq_ok_iff] at ready
    exact ⟨ready.1, ready.2.imp fun _ both => both.1⟩
  · simp only [update, prepareUpdate_eq_ok_iff] at ready
    exact ⟨ready.1, ready.2.imp fun _ both => both.1⟩

theorem exists_prepare_inverse_delete (keyed : request.key ≠ [])
    (keyWritten : ∃ row, request.key.marshal = .ok row) :
    ∃ prepared, (request.inverse .delete).prepare = .ok prepared := by
  obtain ⟨row, written⟩ := keyWritten
  have conditions := conditionExpression_of_unconditional (request.inverse .delete) rfl .empty
  exact ⟨_, prepareDelete_eq_ok_iff.mpr ⟨keyed, row, written, _, _, conditions, rfl⟩⟩

theorem exists_prepare_inverse_put (keyed : request.key ≠ [])
    (keyWritten : ∃ row, request.key.marshal = .ok row) {item : Item}
    (finite : ∀ entry ∈ item, entry.2.isFinite = true) :
    ∃ prepared, { request.inverse .put with item }.prepare = .ok prepared := by
  have mergedFinite : ∀ entry ∈ item.overlay request.key, entry.2.isFinite = true := by
    intro entry member
    rcases Fields.mem_overlay member with inKey | inItem
    · exact (Item.exists_marshal_iff _).mp keyWritten entry inKey
    · exact finite entry inItem
  obtain ⟨row, written⟩ := (Item.exists_marshal_iff _).mpr mergedFinite
  have conditions := conditionExpression_of_unconditional
    { request.inverse .put with item } rfl .empty
  exact ⟨_, preparePut_eq_ok_iff.mpr ⟨keyed, row, written, _, _, conditions, rfl⟩⟩

theorem exists_prepare_inverse_update_iff (keyed : request.key ≠ [])
    (keyWritten : ∃ row, request.key.marshal = .ok row) (updates : List Update) :
    (∃ prepared, { request.inverse .update with updates }.prepare = .ok prepared) ↔
      updates ≠ [] ∧ ∀ update ∈ updates, update.Accepted := by
  obtain ⟨row, written⟩ := keyWritten
  have accepted := exists_updateExpression_iff { request.inverse .update with updates }
  rw [← accepted]
  constructor
  · rintro ⟨prepared, ready⟩
    obtain ⟨-, -, -, expression, aliases, compiled, -⟩ := prepareUpdate_eq_ok_iff.mp ready
    exact ⟨_, compiled⟩
  · rintro ⟨⟨expression, aliases⟩, compiled⟩
    have conditions := conditionExpression_of_unconditional
      { request.inverse .update with updates } rfl aliases
    exact ⟨_, prepareUpdate_eq_ok_iff.mpr
      ⟨keyed, row, written, expression, aliases, compiled, _, _, conditions, rfl⟩⟩

theorem accepted_of_prepare {prepared : Prepared} (update : request.action = .update)
    (ready : request.prepare = .ok prepared) :
    request.updates ≠ [] ∧ ∀ update ∈ request.updates, update.Accepted := by
  simp only [prepare, update, prepareUpdate_eq_ok_iff] at ready
  obtain ⟨-, -, -, expression, aliases, compiled, -⟩ := ready
  exact (exists_updateExpression_iff request).mp ⟨_, compiled⟩

end Request

namespace LoggedOperation

theorem restoringAll_accepted_iff {updates : List Update} {old : Item}
    (filled : updates ≠ []) (accepted : ∀ update ∈ updates, update.Accepted)
    (finite : ∀ entry ∈ old, entry.2.isFinite = true) :
    (Update.restoringAll old updates ≠ [] ∧
        ∀ restored ∈ Update.restoringAll old updates, restored.Accepted) ↔
      ∀ update ∈ updates, old.lookup? (restoreTarget update.path) ≠ some (.string "") := by
  constructor
  · rintro ⟨-, restored⟩ update member
    apply (Update.accepted_restoring_iff (accepted update member).1 finite).mp
    exact restored _ (Update.mem_restoringAll_iff.mpr ⟨update, member, rfl⟩)
  · intro clear
    refine ⟨Update.restoringAll_ne_nil filled old, ?_⟩
    intro restored member
    obtain ⟨update, updateMember, same⟩ := Update.mem_restoringAll_iff.mp member
    subst same
    exact (Update.accepted_restoring_iff (accepted update updateMember).1 finite).mpr
      (clear update updateMember)

/-- What a prepared operation needs to be undone, and when that is prepared as well. -/
theorem compensation_cases (operation : LoggedOperation)
    (keyAscending : operation.request.key.Ascending)
    (sent : operation.request.action ≠ .get → ∃ prepared, operation.request.prepare = .ok prepared)
    (finite : operation.response.OldFinite) :
    operation.compensate = .ok none ∧ ¬operation.RestoresEmptyString ∨
      ∃ undo, operation.compensate = .ok (some undo) ∧ undo.action ≠ .get ∧
        ((∃ prepared, undo.prepare = .ok prepared) ↔ ¬operation.RestoresEmptyString) := by
  have harmless (noUpdate : operation.request.action ≠ .update) :
      ¬operation.RestoresEmptyString :=
    fun restores => noUpdate restores.1
  cases action : operation.request.action with
  | get => exact .inl ⟨compensate_read (by simp [action]), harmless (by simp [action])⟩
  | query => exact .inl ⟨compensate_read (by simp [action]), harmless (by simp [action])⟩
  | queryPager => exact .inl ⟨compensate_read (by simp [action]), harmless (by simp [action])⟩
  | put =>
      obtain ⟨prepared, ready⟩ := sent (by simp [action])
      obtain ⟨keyed, written⟩ := Request.keyWritable_of_prepare keyAscending (.inl action) ready
      refine .inr ⟨_, compensate_put action, by simp [Request.inverse], ?_⟩
      simp [Request.exists_prepare_inverse_delete keyed written, harmless, action]
  | delete =>
      obtain ⟨prepared, ready⟩ := sent (by simp [action])
      obtain ⟨keyed, written⟩ :=
        Request.keyWritable_of_prepare keyAscending (.inr (.inl action)) ready
      cases held : operation.response.attributes with
      | none =>
          exact .inl ⟨compensate_delete_absent action held, harmless (by simp [action])⟩
      | some row =>
          obtain ⟨item, read, itemFinite⟩ := finite row held
          refine .inr ⟨_, compensate_delete action held read, by simp [Request.inverse], ?_⟩
          simp [Request.exists_prepare_inverse_put keyed written itemFinite, harmless, action]
  | update =>
      obtain ⟨prepared, ready⟩ := sent (by simp [action])
      obtain ⟨keyed, written⟩ :=
        Request.keyWritable_of_prepare keyAscending (.inr (.inr action)) ready
      cases held : operation.response.attributes with
      | none =>
          refine .inr ⟨_, compensate_update_absent action held, by simp [Request.inverse], ?_⟩
          simp [Request.exists_prepare_inverse_delete keyed written, RestoresEmptyString, held]
      | some row =>
          obtain ⟨old, read, oldFinite⟩ := finite row held
          obtain ⟨filled, accepted⟩ := Request.accepted_of_prepare action ready
          refine .inr ⟨_, compensate_update action held read, by simp [Request.inverse], ?_⟩
          rw [Request.exists_prepare_inverse_update_iff keyed written,
            restoringAll_accepted_iff filled accepted oldFinite]
          simp [RestoresEmptyString, action, held, read]

end LoggedOperation

namespace Store

variable {State : Type}

theorem undo_error_iff {operation : LoggedOperation} {undo : Request}
    (compensated : operation.compensate = .ok (some undo)) (backend : Backend State)
    (store : Store State) (error : StoreError) :
    (store.undo backend operation).1 = .error error ↔
      ({ store with cache := store.cache.evict undo.table undo.key }.dispatch backend undo).1 =
        .error error := by
  rw [undo_eq_dispatch compensated]
  cases dispatch backend undo { store with cache := store.cache.evict undo.table undo.key } with
  | mk outcome after => cases outcome <;> simp [Except.map]

theorem undo_fails_in_backend_iff {operation : LoggedOperation} {undo : Request}
    (compensated : operation.compensate = .ok (some undo)) (write : undo.action ≠ .get) :
    (∀ (State : Type) (backend : Backend State) (store : Store State) (error : StoreError),
        (store.undo backend operation).1 = .error error → error.isBackendFailure = true) ↔
      ∃ prepared, undo.prepare = .ok prepared := by
  constructor
  · intro backendOnly
    cases ready : undo.prepare with
    | ok prepared => exact ⟨prepared, rfl⟩
    | error error =>
        have refused (store : Store Memory) (idle : store.transaction = .idle) :
            (store.dispatch .memory undo).1 = .error error := by
          have sent : (store.asSent undo).prepare = .error error := by
            rw [asSent_of_inactive (by rw [idle]; rfl), ready]
          rw [dispatch_of_refused write sent]
        have failed := (undo_error_iff compensated .memory { backendState := {} } error).mpr
          (refused _ rfl)
        have fromBackend := backendOnly Memory .memory { backendState := {} } error failed
        rw [Request.local_prepare undo error ready] at fromBackend
        simp at fromBackend
  · intro ready State backend store error failed
    rcases dispatch_error ((undo_error_iff compensated backend store error).mp failed) with
      refused | fromBackend
    · obtain ⟨prepared, sent⟩ := (exists_prepare_asSent_iff
        { store with cache := store.cache.evict undo.table undo.key } undo).mpr ready
      simp [sent] at refused
    · exact fromBackend

end Store

open LoggedOperation in
/-- A dispatched operation can be compensated, and its compensation fails by nothing but
the backend exactly when it restores no empty string. -/
theorem compensation_passes_local_checks_iff {State : Type} {backend : Backend State}
    {store : Store State} {request : Request} {answer response : Response}
    (keyAscending : request.key.Ascending)
    (answered : (store.dispatch backend request).1 = .ok answer)
    (finite : response.OldFinite) :
    ∃ undo?, compensate ⟨store.asSent request, response⟩ = .ok undo? ∧
      ((∀ undo, undo? = some undo → ∃ prepared, undo.prepare = .ok prepared) ↔
        ¬RestoresEmptyString ⟨store.asSent request, response⟩) ∧
      ((∀ (Held : Type) (other : Backend Held) (later : Store Held) (error : StoreError),
          (later.undo other ⟨store.asSent request, response⟩).1 = .error error →
            error.isBackendFailure = true) ↔
        ¬RestoresEmptyString ⟨store.asSent request, response⟩) := by
  obtain ⟨values, sentRequest⟩ := store.asSent_eq request
  have sent : (store.asSent request).action ≠ .get →
      ∃ prepared, (store.asSent request).prepare = .ok prepared := by
    intro write
    apply Store.exists_prepare_of_dispatch _ answered
    simpa [sentRequest] using write
  have sentKey : (store.asSent request).key.Ascending := by
    rw [sentRequest]
    exact keyAscending
  rcases compensation_cases ⟨store.asSent request, response⟩ sentKey sent finite with
    ⟨compensated, harmless⟩ | ⟨undo, compensated, write, prepares⟩
  · refine ⟨none, compensated, by simp [harmless], ?_⟩
    simp [Store.undo_none compensated, harmless]
  · refine ⟨some undo, compensated, by simp [prepares], ?_⟩
    rw [Store.undo_fails_in_backend_iff compensated write, prepares]

theorem compensation_of_note_update :
    let request : Request := {
      table := "notes", action := .update, key := [("id", .string "a")]
      updates := [⟨.put, "/info/note", .string "new"⟩] }
    let response (note : String) : Response := {
      attributes := some [("id", .string "a"), ("info", .map [("note", .string note)])] }
    let store : Store Memory := Store.startTransaction { backendState := {} }
    (∀ (Held : Type) (other : Backend Held) (later : Store Held) (error : StoreError),
      (later.undo other ⟨store.asSent request, response "old"⟩).1 = .error error →
        error.isBackendFailure = true) ∧
    ∃ undo, LoggedOperation.compensate ⟨store.asSent request, response ""⟩ = .ok (some undo) ∧
      ¬∃ prepared, undo.prepare = .ok prepared := by
  intro request response store
  have segments : pathSegments "/info/note" = ["info", "note"] := by decide +kernel
  have target : restoreTarget "/info/note" = "/info/note" := by decide +kernel
  have position : readPosition? ['n', 'o', 't', 'e'] = none := by decide +kernel
  have answered : (store.dispatch .memory request).1.isOk = true := by decide +kernel
  have held (note : String) : AttributeMap.unmarshal
      [("id", .string "a"), ("info", .map [("note", .string note)])] =
        .ok [("id", .string "a"), ("info", .map [("note", .string note)])] := rfl
  have found (note : String) : Item.lookup?
      [("id", .string "a"), ("info", .map [("note", .string note)])] "/info/note" =
        some (.string note) := by
    simp [Item.lookup?, segments, Fields.get?, Value.walk?, Value.step?, position]
  have finite (note : String) : (response note).OldFinite := by
    intro row same
    rw [← Option.some.inj same]
    exact ⟨_, held note, by simp [Value.isFinite, Value.finiteFields]⟩
  have restores (note : String) :
      LoggedOperation.RestoresEmptyString ⟨store.asSent request, response note⟩ ↔ note = "" := by
    simp [LoggedOperation.RestoresEmptyString, store, request, response, Store.asSent,
      Store.startTransaction, Transaction.start, Transaction.isActive, held, target, found]
  cases outcome : (store.dispatch .memory request).1 with
  | error error => simp [outcome, Except.isOk, Except.toBool] at answered
  | ok answer =>
      obtain ⟨-, -, -, backendOnly⟩ := compensation_passes_local_checks_iff
        (by decide) outcome (finite "old")
      obtain ⟨undo?, compensated, prepares, -⟩ := compensation_passes_local_checks_iff
        (by decide) outcome (finite "")
      refine ⟨backendOnly.mpr (by simp [restores]), ?_⟩
      cases undo? with
      | none => simp [restores] at prepares
      | some undo => exact ⟨undo, compensated, by simpa [restores] using prepares⟩

end KeyedStore
