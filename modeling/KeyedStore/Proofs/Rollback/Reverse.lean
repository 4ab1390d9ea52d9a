import KeyedStore.Proofs.Backend.Memory
import KeyedStore.Proofs.Rollback.Compensation

/-! Rolling back in reverse order. The log of a transaction, read backwards, is a chain:
each compensation takes the rows after its operation to the rows before it. The chain
grows with every request, and a rollback that meets no failure of the backend follows it
back to the rows the transaction began with. -/

namespace KeyedStore

structure Request.KeyedBy (keyFields : List String) (request : Request) : Prop where
  noUpdate : request.action ≠ .update
  keyAscending : request.key.Ascending
  itemAscending : request.item.Ascending
  names : request.action = .put ∨ request.action = .delete →
    ∀ name, name ∈ request.key.map Prod.fst ↔ name ∈ keyFields

section Rows

variable {keyFields : List String} {item key : Item} {row keyRow : AttributeMap}

theorem cell_marshal_overlay (itemAscending : item.Ascending) (keyAscending : key.Ascending)
    (names : ∀ name ∈ keyFields, name ∈ key.map Prod.fst)
    (written : Item.marshal (item.overlay key) = .ok row)
    (keyWritten : key.marshal = .ok keyRow) : row.cell keyFields = keyRow.cell keyFields := by
  apply List.map_congr_left
  intro field member
  exact Item.get?_marshal_overlay itemAscending keyAscending written keyWritten (names field member)

theorem marshal_overlay_of_cell (rowAscending : Fields.Ascending row)
    (keyAscending : key.Ascending) (names : ∀ name, name ∈ key.map Prod.fst ↔ name ∈ keyFields)
    (read : row.unmarshal = .ok item) (written : item.marshal = .ok row)
    (keyWritten : key.marshal = .ok keyRow)
    (sameCell : row.cell keyFields = keyRow.cell keyFields) :
    Item.marshal (item.overlay key) = .ok row := by
  have itemAscending : item.Ascending := (AttributeMap.ascending_unmarshal read).mpr rowAscending
  have finite : ∀ entry ∈ item.overlay key, entry.2.isFinite = true := by
    intro entry member
    rcases Fields.mem_overlay member with inKey | inItem
    · exact (Item.exists_marshal_iff key).mp ⟨keyRow, keyWritten⟩ entry inKey
    · exact (Item.exists_marshal_iff item).mp ⟨row, written⟩ entry inItem
  obtain ⟨merged, mergedWritten⟩ := (Item.exists_marshal_iff _).mpr finite
  have mergedAscending := Fields.ascending_overlay itemAscending key
  -- The key's fields agree because the row lies in the cell of the key.
  have same : merged = row := by
    apply Fields.ext_get? (Item.ascending_marshal mergedAscending mergedWritten) rowAscending
    intro name
    by_cases member : name ∈ key.map Prod.fst
    · rw [Item.get?_marshal_overlay itemAscending keyAscending mergedWritten keyWritten member]
      exact (List.map_inj_left.mp sameCell name ((names name).mp member)).symm
    · rw [Item.get?_marshal mergedAscending mergedWritten,
        Fields.get?_overlay item keyAscending, Fields.get?_eq_none_iff.mpr member, Option.none_or,
        Item.get?_marshal itemAscending written]
  exact same ▸ mergedWritten

end Rows

variable {State : Type} {backend : Backend State} {keyFields : List String}

/-- The compensation of an operation leads from the rows after it to the rows before it. -/
def Undoes (view : RowView backend keyFields) (operation : LoggedOperation)
    (after before : Rows) : Prop :=
  operation.compensate = .ok none ∧ after = before ∨
    ∃ undo prepared, operation.compensate = .ok (some undo) ∧ undo.action ≠ .get ∧
      undo.prepare = .ok prepared ∧
      ∀ state output next, view.Valid state → view.rows state = after →
        backend.answer prepared.call state = (.ok output, next) →
          view.Valid next ∧ view.rows next = before

def UndoneBy (view : RowView backend keyFields) : List LoggedOperation → Rows → Rows → Prop
  | [], current, initial => current = initial
  | operation :: rest, current, initial =>
      ∃ before, Undoes view operation current before ∧ UndoneBy view rest before initial

theorem undoes_put (view : RowView backend keyFields) {request : Request} {response : Response}
    (keyed : request.KeyedBy keyFields) (put : request.action = .put) {row keyRow : AttributeMap}
    (addressed : request.key ≠ []) (keyWritten : request.key.marshal = .ok keyRow)
    (written : Item.marshal (request.item.overlay request.key) = .ok row) {before : Rows}
    (absent : before request.table (keyRow.cell keyFields) = none) :
    Undoes view ⟨request, response⟩
      (before.set request.table (row.cell keyFields) (some row)) before := by
  obtain ⟨prepared, ready⟩ :=
    Request.exists_prepare_inverse_delete addressed ⟨keyRow, keyWritten⟩
  refine .inr ⟨_, prepared, LoggedOperation.compensate_put put, by simp [Request.inverse],
    ready, ?_⟩
  simp only [Request.prepare, Request.inverse, Request.prepareDelete_eq_ok_iff] at ready
  obtain ⟨-, otherRow, otherWritten, condition, aliases, -, shape⟩ := ready
  have sameRow : otherRow = keyRow := by
    rw [keyWritten] at otherWritten
    exact (Except.ok.inj otherWritten).symm
  have sameCell := cell_marshal_overlay keyed.itemAscending keyed.keyAscending
    (fun name member => (keyed.names (.inl put) name).mpr member) written keyWritten
  subst sameRow shape
  intro state output next valid current answered
  obtain ⟨nextValid, rows, -⟩ := view.delete valid answered
  refine ⟨nextValid, ?_⟩
  rw [rows, current, sameCell]
  exact (Rows.set_set _ _).trans (Rows.set_eq_self absent)

theorem undoes_delete (view : RowView backend keyFields) {request : Request} {response : Response}
    (keyed : request.KeyedBy keyFields) (delete : request.action = .delete)
    {row keyRow : AttributeMap} (addressed : request.key ≠ [])
    (keyWritten : request.key.marshal = .ok keyRow) (stable : row.RoundTrips)
    (returned : response.attributes = some row)
    (sameCell : row.cell keyFields = keyRow.cell keyFields) {before : Rows}
    (held : before request.table (keyRow.cell keyFields) = some row) :
    Undoes view ⟨request, response⟩
      (before.set request.table (keyRow.cell keyFields) none) before := by
  obtain ⟨rowAscending, item, read, written⟩ := stable
  have merged := marshal_overlay_of_cell rowAscending keyed.keyAscending
    (keyed.names (.inr delete)) read written keyWritten sameCell
  obtain ⟨prepared, ready⟩ := Request.exists_prepare_inverse_put addressed ⟨keyRow, keyWritten⟩
    ((Item.exists_marshal_iff item).mp ⟨row, written⟩)
  refine .inr ⟨_, prepared, LoggedOperation.compensate_delete delete returned read,
    by simp [Request.inverse], ready, ?_⟩
  simp only [Request.prepare, Request.inverse, Request.preparePut_eq_ok_iff] at ready
  obtain ⟨-, otherRow, otherWritten, condition, aliases, -, shape⟩ := ready
  have sameRow : otherRow = row := by
    rw [merged] at otherWritten
    exact (Except.ok.inj otherWritten).symm
  subst sameRow shape
  intro state output next valid current answered
  obtain ⟨nextValid, rows⟩ := view.put valid answered
  refine ⟨nextValid, ?_⟩
  rw [rows, current, sameCell]
  exact (Rows.set_set _ _).trans (Rows.set_eq_self held)

namespace Store

/-- An undo whose backend call does not fail goes back over its operation. -/
theorem undo_restores {view : RowView backend keyFields} {operation : LoggedOperation}
    {store : Store State} {before : Rows} (inactive : store.transaction.isActive = false)
    (valid : view.Valid store.backendState)
    (undoes : Undoes view operation (view.rows store.backendState) before)
    (noFailure : ∀ error, (store.undo backend operation).1 = .error error →
      error.isBackendFailure = false) :
    ∃ next, store.undo backend operation = (.ok (), next) ∧
      next.transaction.isActive = false ∧ view.Valid next.backendState ∧
      view.rows next.backendState = before := by
  rcases undoes with ⟨compensated, same⟩ | ⟨undo, prepared, compensated, write, ready, answers⟩
  · exact ⟨store, undo_none compensated backend store, inactive, valid, same⟩
  · have idle : store.transaction.log = none := by simpa [Transaction.isActive] using inactive
    have dispatched := @dispatch_of_idle _ backend undo
      { store with cache := store.cache.evict undo.table undo.key } idle write
    rw [undo_eq_dispatch compensated backend store] at noFailure ⊢
    simp only [dispatched, ready] at noFailure ⊢
    cases answered : backend.answer prepared.call store.backendState with
    | mk outcome after =>
        rw [answered] at noFailure
        cases outcome with
        | error cause =>
            have failed := noFailure (.backendFailed prepared.call.operation cause) rfl
            simp [StoreError.isBackendFailure] at failed
        | ok output =>
            obtain ⟨nextValid, rows⟩ := answers _ output after valid rfl answered
            exact ⟨_, rfl, inactive, nextValid, rows⟩

theorem undoAll_restores {view : RowView backend keyFields} {operations : List LoggedOperation}
    {store : Store State} {initial : Rows} (inactive : store.transaction.isActive = false)
    (valid : view.Valid store.backendState)
    (chain : UndoneBy view operations (view.rows store.backendState) initial)
    (noFailure : ∀ error ∈ (store.undoAll backend operations).1,
      error.isBackendFailure = false) :
    (store.undoAll backend operations).1 = [] ∧
      view.rows (store.undoAll backend operations).2.backendState = initial ∧
      (store.undoAll backend operations).2.transaction.isActive = false := by
  induction operations generalizing store with
  | nil => exact ⟨rfl, chain, inactive⟩
  | cons operation rest ih =>
      obtain ⟨before, undoes, restChain⟩ := chain
      have firstNoFailure : ∀ error, (store.undo backend operation).1 = .error error →
          error.isBackendFailure = false := by
        intro error failed
        apply noFailure
        cases undone : store.undo backend operation with
        | mk outcome next =>
            rw [undone] at failed
            simp only at failed
            subst failed
            simp [undoAll, undone]
      obtain ⟨next, undone, nextInactive, nextValid, rows⟩ :=
        undo_restores inactive valid undoes firstNoFailure
      have unfolded : store.undoAll backend (operation :: rest) = next.undoAll backend rest := by
        simp only [undoAll, undone]
      rw [unfolded] at noFailure ⊢
      exact ih nextInactive nextValid (rows ▸ restChain) noFailure

end Store

def Rows.Stable (rows : Rows) : Prop :=
  ∀ table cell row, rows table cell = some row → row.RoundTrips

theorem Rows.Stable.set {rows : Rows} (stable : rows.Stable) {content : Option AttributeMap}
    (contentStable : ∀ row, content = some row → row.RoundTrips) (table : String)
    (cell : List (Option Attribute)) : (rows.set table cell content).Stable := by
  intro otherTable otherCell row held
  unfold Rows.set at held
  split at held
  · exact contentStable row held
  · exact stable otherTable otherCell row held

theorem undoes_read (view : RowView backend keyFields) {request : Request}
    {prepared : Prepared} {state after : State} {output : prepared.call.operation.Output}
    (valid : view.Valid state)
    (reads : request.action ∈ [Action.get, Action.query, Action.queryPager])
    (ready : request.prepare = .ok prepared)
    (answered : backend.answer prepared.call state = (.ok output, after)) :
    view.Valid after ∧ view.rows after = view.rows state ∧
      Undoes view ⟨request, prepared.respond output⟩ (view.rows after) (view.rows state) := by
  have readCall : prepared.call.operation ∈
      [Operation.get, Operation.query, Operation.queryPages] := by
    rw [(carries_of_prepare ready).operation]
    simp only [List.mem_cons, List.not_mem_nil, or_false] at reads
    rcases reads with get | query | pages
    · simp [get, Action.operation]
    · simp [query, Action.operation]
    · simp [pages, Action.operation]
  obtain ⟨afterValid, same⟩ := view.read valid readCall answered
  exact ⟨afterValid, same, .inl ⟨LoggedOperation.compensate_read reads, same⟩⟩

theorem undoes_answered (view : RowView backend keyFields) {request : Request}
    {prepared : Prepared} {state after : State} {output : prepared.call.operation.Output}
    (valid : view.Valid state) (stable : (view.rows state).Stable)
    (keyed : request.KeyedBy keyFields)
    (asks : request.action = .delete → request.returnValues = .allOld)
    (ready : request.prepare = .ok prepared)
    (newRow : request.action = .put → ∀ keyRow, request.key.marshal = .ok keyRow →
      view.rows state request.table (keyRow.cell keyFields) = none)
    (answered : backend.answer prepared.call state = (.ok output, after)) :
    view.Valid after ∧ (view.rows after).Stable ∧
      Undoes view ⟨request, prepared.respond output⟩ (view.rows after) (view.rows state) := by
  have read (reads : request.action ∈ [Action.get, Action.query, Action.queryPager]) :
      view.Valid after ∧ (view.rows after).Stable ∧
        Undoes view ⟨request, prepared.respond output⟩ (view.rows after) (view.rows state) := by
    obtain ⟨afterValid, same, undoes⟩ := undoes_read view valid reads ready answered
    exact ⟨afterValid, same ▸ stable, undoes⟩
  cases action : request.action with
  | update => exact absurd action keyed.noUpdate
  | get => exact read (by simp [action])
  | query => exact read (by simp [action])
  | queryPager => exact read (by simp [action])
  | put =>
      obtain ⟨addressed, keyRow, keyWritten⟩ :=
        Request.keyWritable_of_prepare keyed.keyAscending (.inl action) ready
      simp only [Request.prepare, action, Request.preparePut_eq_ok_iff] at ready
      obtain ⟨-, row, written, condition, aliases, -, shape⟩ := ready
      subst shape
      -- the row is new, so to remove it is to have the rows as they were
      have sameCell := cell_marshal_overlay keyed.itemAscending keyed.keyAscending
        (fun name member => (keyed.names (.inl action) name).mpr member) written keyWritten
      have roundTrips := AttributeMap.roundTrips_of_marshal
        (Fields.ascending_overlay keyed.itemAscending request.key) written
      obtain ⟨afterValid, rows⟩ := view.put valid answered
      refine ⟨afterValid, ?_, ?_⟩
      · rw [rows]
        apply stable.set
        intro other same
        exact Option.some.inj same ▸ roundTrips
      · rw [rows]
        exact undoes_put view keyed action addressed keyWritten written
          (newRow action keyRow keyWritten)
  | delete =>
      obtain ⟨addressed, -⟩ :=
        Request.keyWritable_of_prepare keyed.keyAscending (.inr (.inl action)) ready
      simp only [Request.prepare, action, Request.prepareDelete_eq_ok_iff] at ready
      obtain ⟨-, keyRow, keyWritten, condition, aliases, -, shape⟩ := ready
      subst shape
      obtain ⟨afterValid, rows, returned⟩ := view.delete valid answered
      refine ⟨afterValid, ?_, ?_⟩
      · rw [rows]
        apply stable.set
        simp
      · rw [rows]
        -- within a transaction a delete asks for the old row, and this is put back
        simp only [asks action, if_true] at returned
        cases held : view.rows state request.table (keyRow.cell keyFields) with
        | none =>
            refine .inl ⟨LoggedOperation.compensate_delete_absent action ?_, ?_⟩
            · simp [Response.ofAttributes, returned, held]
            · exact Rows.set_eq_self held
        | some row =>
            apply undoes_delete view keyed action addressed keyWritten
              (stable _ _ row held) _ (view.cell_of_row valid held) held
            simp [Response.ofAttributes, returned, held]

namespace Store

/-- The store is in a transaction that can be undone down to the initial rows. -/
structure Rollbackable (view : RowView backend keyFields) (initial : Rows)
    (store : Store State) : Prop where
  valid : view.Valid store.backendState
  stable : (view.rows store.backendState).Stable
  logged : ∃ log, store.transaction.log = some log ∧
    UndoneBy view log.entries.reverse (view.rows store.backendState) initial

theorem Rollbackable.startTransaction {view : RowView backend keyFields} {store : Store State}
    (valid : view.Valid store.backendState) (stable : (view.rows store.backendState).Stable) :
    Rollbackable view (view.rows store.backendState) store.startTransaction :=
  ⟨valid, stable, _, rfl, rfl⟩

theorem asSent_keyedBy {request : Request} (keyed : request.KeyedBy keyFields)
    (store : Store State) : (store.asSent request).KeyedBy keyFields := by
  obtain ⟨values, same⟩ := store.asSent_eq request
  rw [same]
  exact ⟨keyed.noUpdate, keyed.keyAscending, keyed.itemAscending, keyed.names⟩

/-- A dispatched request, answered or not, leaves the transaction as undoable as it was. -/
theorem Rollbackable.dispatch {view : RowView backend keyFields} {initial : Rows}
    {store : Store State} (rollbackable : Rollbackable view initial store) {request : Request}
    (keyed : request.KeyedBy keyFields)
    (newRow : request.action = .put →
      (∃ response, (store.dispatch backend request).1 = .ok response) →
        ∀ keyRow, request.key.marshal = .ok keyRow →
          view.rows store.backendState request.table (keyRow.cell keyFields) = none) :
    Rollbackable view initial (store.dispatch backend request).2 := by
  obtain ⟨valid, stable, log, active, chain⟩ := rollbackable
  have sentKeyed := asSent_keyedBy keyed store
  obtain ⟨values, sentRequest⟩ := store.asSent_eq request
  have sameAction : (store.asSent request).action = request.action := by rw [sentRequest]
  have sameTable : (store.asSent request).table = request.table := by rw [sentRequest]
  have sameKey : (store.asSent request).key = request.key := by rw [sentRequest]
  rcases dispatch_cases backend request store with
    ⟨response, -, left⟩ |
      ⟨-, ⟨error, -, left⟩ |
        ⟨prepared, ready, ⟨cause, after, answered, left⟩ | ⟨output, after, answered, left⟩⟩⟩
  · rw [left]
    exact ⟨valid, stable, log, active, chain⟩
  · rw [left]
    exact ⟨valid, stable, log, active, chain⟩
  · have notUpdate : prepared.call.operation ≠ .update := by
      rw [(carries_of_prepare ready).operation]
      have allowed := sentKeyed.noUpdate
      cases action : (store.asSent request).action <;> simp_all [Action.operation]
    obtain ⟨afterValid, same⟩ := view.failed valid notUpdate answered
    rw [left]
    exact ⟨afterValid, same ▸ stable, log, active, same ▸ chain⟩
  · have asks : (store.asSent request).action = .delete →
        (store.asSent request).returnValues = .allOld := by
      intro delete
      rw [sameAction] at delete
      simp [asSent, Transaction.isActive, active, delete]
    have newSentRow : (store.asSent request).action = .put → ∀ keyRow,
        (store.asSent request).key.marshal = .ok keyRow →
          view.rows store.backendState (store.asSent request).table
            (keyRow.cell keyFields) = none := by
      rw [sameAction, sameKey, sameTable]
      exact fun put => newRow put ⟨_, by rw [left]⟩
    obtain ⟨afterValid, afterStable, undoes⟩ :=
      undoes_answered view valid stable sentKeyed asks ready newSentRow answered
    have recorded : (store.transaction.record (store.asSent request)
        (prepared.respond output)).log = some { log with
          entries := log.entries ++ [⟨store.asSent request, prepared.respond output⟩] } := by
      simp only [Transaction.record, active, Option.map_some]
    rw [left]
    refine ⟨afterValid, afterStable, _, recorded, ?_⟩
    rw [List.reverse_append]
    exact ⟨view.rows store.backendState, undoes, chain⟩

def runAll (backend : Backend State) (requests : List Request) (store : Store State) :
    Store State :=
  requests.foldl (fun store request => (store.run backend request).2) store

/-- Every put that succeeds along a run is of a row that is not there yet. -/
def PutsNewRows (view : RowView backend keyFields) : List Request → Store State → Prop
  | [], _ => True
  | request :: rest, store =>
      (request.action = .put → (∃ response, (store.run backend request).1 = .ok response) →
        ∀ keyRow, request.key.marshal = .ok keyRow →
          view.rows store.backendState (store.tablePrefix ++ request.table)
            (keyRow.cell keyFields) = none) ∧
      PutsNewRows view rest (store.run backend request).2

theorem Rollbackable.runAll {view : RowView backend keyFields} {initial : Rows}
    {requests : List Request} {store : Store State}
    (rollbackable : Rollbackable view initial store)
    (keyed : ∀ request ∈ requests, request.KeyedBy keyFields)
    (newRows : PutsNewRows view requests store) :
    Rollbackable view initial (store.runAll backend requests) := by
  induction requests generalizing store with
  | nil => exact rollbackable
  | cons request rest ih =>
      rw [List.forall_mem_cons] at keyed
      obtain ⟨newRow, restNewRows⟩ := newRows
      have fullKeyed :
          { request with table := store.tablePrefix ++ request.table }.KeyedBy keyFields :=
        ⟨keyed.1.noUpdate, keyed.1.keyAscending, keyed.1.itemAscending, keyed.1.names⟩
      exact ih (rollbackable.dispatch fullKeyed newRow) keyed.2 restNewRows

/-- A rollback in reverse order that meets no failure of the backend fails nowhere, and
leaves the rows the transaction began with. -/
theorem rollbackWith_reverse_restores (view : RowView backend keyFields) {store : Store State}
    {requests : List Request} (valid : view.Valid store.backendState)
    (stable : ∀ table cell row, view.rows store.backendState table cell = some row →
      row.RoundTrips)
    (keyed : ∀ request ∈ requests, request.KeyedBy keyFields)
    (newRows : PutsNewRows view requests store.startTransaction)
    (noFailure : ∀ error ∈
      ((store.startTransaction.runAll backend requests).rollbackWith backend .reverse).1,
        error.isBackendFailure = false) :
    let ended := (store.startTransaction.runAll backend requests).rollbackWith backend .reverse
    ended.1 = [] ∧ view.rows ended.2.backendState = view.rows store.backendState ∧
      ended.2.transaction.isActive = false := by
  obtain ⟨lastValid, -, log, active, chain⟩ :=
    (Rollbackable.startTransaction valid stable).runAll keyed newRows
  have unfolded : (store.startTransaction.runAll backend requests).rollbackWith backend .reverse =
      (store.startTransaction.runAll backend requests).finishTransaction.undoAll backend
        log.entries.reverse := by
    simp only [rollbackWith, active, RollbackOrder.arrange]
  rw [unfolded] at noFailure
  simp only [unfolded]
  exact undoAll_restores rfl lastValid chain noFailure

theorem rollbackWith_reverse_restores_replaced_note :
    let key : Item := [("id", .string "a")]
    let store : Store Memory := {
      backendState := { tables := [("app-notes", [[("id", .string "a"), ("text", .string "old")]])] }
      tablePrefix := "app-" }
    let requests : List Request := [
      { table := "notes", action := .delete, key },
      { table := "notes", action := .put, key, item := [("text", .string "new")] },
      { table := "notes", action := .get, key }]
    let ended := (store.startTransaction.runAll .memory requests).rollbackWith .memory .reverse
    ended.1 = [] ∧
      (RowView.memory ["id"]).rows ended.2.backendState =
        (RowView.memory ["id"]).rows store.backendState ∧
      ended.2.transaction.isActive = false := by
  intro key store requests
  have rows (table : String) : store.backendState.rows table = [] ∨
      store.backendState.rows table = [[("id", .string "a"), ("text", .string "old")]] := by
    simp only [store, Memory.rows, Fields.get?]
    split <;> simp
  have valid : store.backendState.UniqueRows ["id"] := by
    refine ⟨rfl, ?_⟩
    intro table
    rcases rows table with none | one
    · simp [none]
    · simp [one]
  have stable : ∀ table cell row, store.backendState.cells ["id"] table cell = some row →
      row.RoundTrips := by
    intro table cell row held
    have member := List.mem_of_find?_eq_some held
    rcases rows table with none | one
    · simp [none] at member
    · rw [one, List.mem_singleton] at member
      rw [member]
      exact ⟨by decide, _, rfl, rfl⟩
  have keyed : ∀ request ∈ requests, request.KeyedBy ["id"] := by
    simp only [requests, List.forall_mem_cons]
    exact ⟨⟨by decide, by decide, by decide, by simp [key]⟩,
      ⟨by decide, by decide, by decide, by simp [key]⟩,
      ⟨by decide, by decide, by decide, by simp [key]⟩, by simp⟩
  have emptied : (RowView.memory ["id"]).rows
      (store.startTransaction.run .memory requests[0]).2.backendState "app-notes"
        [some (.string "a")] = none := by
    decide +kernel
  have newRows : PutsNewRows (RowView.memory ["id"]) requests store.startTransaction := by
    refine ⟨by simp, ?_, by simp, trivial⟩
    intro _ _ keyRow written
    have same : [("id", Attribute.string "a")] = keyRow := Except.ok.inj written
    rw [← same]
    exact emptied
  have noErrors : ((store.startTransaction.runAll .memory requests).rollbackWith .memory
      .reverse).1.isEmpty = true := by
    decide +kernel
  have noFailure : ∀ error ∈ ((store.startTransaction.runAll .memory requests).rollbackWith
      .memory .reverse).1, error.isBackendFailure = false := by
    rw [List.isEmpty_iff.mp noErrors]
    simp
  exact @rollbackWith_reverse_restores Memory .memory ["id"] (RowView.memory ["id"]) store
    requests valid stable keyed newRows noFailure

end Store

end KeyedStore
