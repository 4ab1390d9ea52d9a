import KeyedStore.Proofs.Expression.Update
import KeyedStore.Store.Prepare

/-! What preparing a write asks for: a key, a row or a key that can be written, updates
that are accepted, and conditions that have an expression. -/

namespace KeyedStore

theorem Item.marshalRow_eq_ok_iff {item : Item} {row : AttributeMap} :
    item.marshalRow = .ok row ↔ item.marshal = .ok row := by
  unfold Item.marshalRow
  cases item.marshal <;> simp [Except.mapError]

namespace Request

theorem requireKey_eq_ok_iff {request : Request} {checked : Unit} :
    request.requireKey = .ok checked ↔ request.key ≠ [] := by
  unfold requireKey
  cases request.key <;> simp

theorem conditionExpression_of_unconditional (request : Request)
    (unconditional : request.conditions = []) (aliases : Aliases) :
    request.conditionExpression aliases = .ok ("", aliases) := by
  simp [conditionExpression, unconditional, compileConditions, Condition.compileAll,
    Clause.expression]

theorem conditionExpression_eq_ok_iff {request : Request} {aliases : Aliases}
    {compiled : String × Aliases} :
    request.conditionExpression aliases = .ok compiled ↔
      compileConditions request.conditions aliases = (.ok compiled.1, compiled.2) := by
  unfold conditionExpression
  split
  · rename_i text tables done
    simp [done, Prod.ext_iff]
  · rename_i cause tables failed
    simp [failed]

theorem filterExpression_eq_ok_iff {request : Request} {aliases : Aliases}
    {compiled : String × Aliases} :
    request.filterExpression aliases = .ok compiled ↔
      compileConditions request.filter aliases = (.ok compiled.1, compiled.2) := by
  unfold filterExpression
  split
  · rename_i text tables done
    simp [done, Prod.ext_iff]
  · rename_i cause tables failed
    simp [failed]

theorem updateExpression_eq_ok_iff {request : Request} {compiled : String × Aliases} :
    request.updateExpression = .ok compiled ↔
      compileUpdates request.updates .empty = (.ok compiled.1, compiled.2) := by
  unfold updateExpression
  split
  · rename_i text tables done
    simp [done, Prod.ext_iff]
  · rename_i cause tables failed
    simp [failed]

theorem exists_updateExpression_iff (request : Request) :
    (∃ compiled, request.updateExpression = .ok compiled) ↔
      request.updates ≠ [] ∧ ∀ update ∈ request.updates, update.Accepted := by
  rw [← exists_compileUpdates_iff _ .empty]
  unfold updateExpression
  cases compileUpdates request.updates .empty with
  | mk outcome tables => cases outcome <;> simp

theorem preparePut_eq_ok_iff {request : Request} {prepared : Prepared} :
    request.preparePut = .ok prepared ↔
      request.key ≠ [] ∧ ∃ row, Item.marshal (request.item.overlay request.key) = .ok row ∧
        ∃ condition aliases, request.conditionExpression .empty = .ok (condition, aliases) ∧
          prepared = {
            call := .put {
              table := request.table, item := row, condition := nonEmpty? condition, aliases }
            respond := fun _ => {} } := by
  simp only [preparePut, bind_eq_ok_iff, requireKey_eq_ok_iff, Item.marshalRow_eq_ok_iff,
    Prod.exists, pure, Except.pure, Except.ok.injEq, exists_and_left, exists_const,
    @eq_comm _ prepared]

theorem prepareGet_eq_ok_iff {request : Request} {prepared : Prepared} :
    request.prepareGet = .ok prepared ↔
      request.key ≠ [] ∧ ∃ row, request.key.marshal = .ok row ∧
        prepared = {
          call := .get {
            table := request.table, key := row, consistentRead := request.consistentRead }
          respond := fun row => .ofItems (row.toList.filter fun row => !row.isEmpty) } := by
  simp only [prepareGet, bind_eq_ok_iff, requireKey_eq_ok_iff, Item.marshalRow_eq_ok_iff,
    pure, Except.pure, Except.ok.injEq, exists_and_left, exists_const, @eq_comm _ prepared]

theorem prepareDelete_eq_ok_iff {request : Request} {prepared : Prepared} :
    request.prepareDelete = .ok prepared ↔
      request.key ≠ [] ∧ ∃ row, request.key.marshal = .ok row ∧
        ∃ condition aliases, request.conditionExpression .empty = .ok (condition, aliases) ∧
          prepared = {
            call := .delete {
              table := request.table, key := row, condition := nonEmpty? condition, aliases
              returnValues := request.returnValues }
            respond := .ofAttributes } := by
  simp only [prepareDelete, bind_eq_ok_iff, requireKey_eq_ok_iff, Item.marshalRow_eq_ok_iff,
    Prod.exists, pure, Except.pure, Except.ok.injEq, exists_and_left, exists_const,
    @eq_comm _ prepared]

theorem prepareUpdate_eq_ok_iff {request : Request} {prepared : Prepared} :
    request.prepareUpdate = .ok prepared ↔
      request.key ≠ [] ∧ ∃ row, request.key.marshal = .ok row ∧
        ∃ update updateAliases, request.updateExpression = .ok (update, updateAliases) ∧
          ∃ condition aliases,
            request.conditionExpression updateAliases = .ok (condition, aliases) ∧
              prepared = {
                call := .update {
                  table := request.table, key := row, update
                  condition := nonEmpty? condition, aliases
                  returnValues := request.returnValues }
                respond := .ofAttributes } := by
  simp only [prepareUpdate, bind_eq_ok_iff, requireKey_eq_ok_iff, Item.marshalRow_eq_ok_iff,
    Prod.exists, pure, Except.pure, Except.ok.injEq, exists_and_left, exists_const,
    @eq_comm _ prepared]

theorem prepareQuery_eq_ok_iff {request : Request} {prepared : Prepared} :
    request.prepareQuery = .ok prepared ↔
      ∃ keyCondition keyAliases,
        request.conditionExpression .empty = .ok (keyCondition, keyAliases) ∧
          ∃ filter aliases, request.filterExpression keyAliases = .ok (filter, aliases) ∧
            ∃ startKey, request.startKey? = .ok startKey ∧
              prepared = {
                call := .query {
                  table := request.table, index := request.index, keyCondition
                  filter := nonEmpty? filter, aliases, consistentRead := request.consistentRead
                  limit := request.rowLimit?, startKey }
                respond := fun page =>
                  { items := match request.rowLimit? with
                      | some limit => page.items.take limit
                      | none => page.items
                    lastKey := page.lastKey } } := by
  simp only [prepareQuery, bind_eq_ok_iff, Prod.exists, pure, Except.pure, Except.ok.injEq,
    @eq_comm _ prepared]
  cases request.rowLimit? <;> rfl

theorem preparePages_eq_ok_iff {request : Request} {prepared : Prepared} :
    request.preparePages = .ok prepared ↔
      ∃ window,
        (PageWindow.ofPage request.page request.pageSize).mapError StoreError.invalidRequest =
          .ok window ∧
        ∃ keyCondition aliases,
          request.conditionExpression .empty = .ok (keyCondition, aliases) ∧
            prepared = {
              call := .queryPages {
                table := request.table, index := request.index, keyCondition, aliases
                consistentRead := request.consistentRead }
              respond := fun pages =>
                let window := window.offerAll pages
                { items := window.items, pageCount := window.pageCount } } := by
  simp only [preparePages, bind_eq_ok_iff, Prod.exists, pure, Except.pure, Except.ok.injEq,
    @eq_comm _ prepared]

/-- The faults found before any call are not failures of a backend. -/
def IsLocal {α : Type} (checked : Except StoreError α) : Prop :=
  ∀ error, checked = .error error → error.isBackendFailure = false

theorem IsLocal.bind {α β : Type} {first : Except StoreError α} {next : α → Except StoreError β}
    (firstLocal : IsLocal first) (nextLocal : ∀ value, IsLocal (next value)) :
    IsLocal (first >>= next) := by
  intro error failed
  rcases bind_eq_error_iff.mp failed with early | ⟨value, -, late⟩
  · exact firstLocal error early
  · exact nextLocal value error late

theorem local_pure {α : Type} (value : α) : IsLocal (pure value) := by
  intro error failed
  simp [pure, Except.pure] at failed

theorem local_requireKey (request : Request) : IsLocal request.requireKey := by
  intro error failed
  unfold requireKey at failed
  split at failed
  · simp only [Except.error.injEq] at failed
    exact failed ▸ rfl
  · simp at failed

theorem local_conditionExpression (request : Request) (aliases : Aliases) :
    IsLocal (request.conditionExpression aliases) := by
  intro error failed
  unfold conditionExpression at failed
  split at failed
  · simp at failed
  · simp only [Except.error.injEq] at failed
    exact failed ▸ rfl

theorem local_filterExpression (request : Request) (aliases : Aliases) :
    IsLocal (request.filterExpression aliases) := by
  intro error failed
  unfold filterExpression at failed
  split at failed
  · simp at failed
  · simp only [Except.error.injEq] at failed
    exact failed ▸ rfl

theorem local_updateExpression (request : Request) : IsLocal request.updateExpression := by
  intro error failed
  unfold updateExpression at failed
  split at failed
  · simp at failed
  · simp only [Except.error.injEq] at failed
    exact failed ▸ rfl

theorem local_marshalRow (item : Item) : IsLocal item.marshalRow := by
  intro error failed
  unfold Item.marshalRow at failed
  cases written : item.marshal with
  | ok row => simp [written, Except.mapError] at failed
  | error cause =>
      simp only [written, Except.mapError, Except.error.injEq] at failed
      exact failed ▸ rfl

theorem local_window (page pageSize : UInt64) :
    IsLocal ((PageWindow.ofPage page pageSize).mapError .invalidRequest) := by
  intro error failed
  cases window : PageWindow.ofPage page pageSize with
  | ok found => simp [window, Except.mapError] at failed
  | error fault =>
      simp only [window, Except.mapError, Except.error.injEq] at failed
      exact failed ▸ rfl

theorem local_startKey? (request : Request) : IsLocal request.startKey? := by
  unfold startKey?
  split
  · exact local_pure none
  · exact (local_marshalRow _).bind fun _ => local_pure _

theorem local_prepare (request : Request) : IsLocal request.prepare := by
  unfold prepare
  split
  · exact (local_requireKey _).bind fun _ => (local_marshalRow _).bind fun _ =>
      (local_conditionExpression _ _).bind fun _ => local_pure _
  · exact (local_requireKey _).bind fun _ => (local_marshalRow _).bind fun _ => local_pure _
  · exact (local_requireKey _).bind fun _ => (local_marshalRow _).bind fun _ =>
      (local_updateExpression _).bind fun _ =>
        (local_conditionExpression _ _).bind fun _ => local_pure _
  · exact (local_requireKey _).bind fun _ => (local_marshalRow _).bind fun _ =>
      (local_conditionExpression _ _).bind fun _ => local_pure _
  · exact (local_conditionExpression _ _).bind fun _ => (local_filterExpression _ _).bind
      fun _ => (local_startKey? _).bind fun _ => local_pure _
  · exact (local_window _ _).bind fun _ => (local_conditionExpression _ _).bind
      fun _ => local_pure _

theorem exists_prepareDelete_returnValues_iff (request : Request) (values : ReturnValues) :
    (∃ prepared, { request with returnValues := values }.prepareDelete = .ok prepared) ↔
      ∃ prepared, request.prepareDelete = .ok prepared := by
  have conditions : { request with returnValues := values }.conditionExpression =
      request.conditionExpression := rfl
  simp [prepareDelete_eq_ok_iff, conditions]

theorem exists_prepareUpdate_returnValues_iff (request : Request) (values : ReturnValues) :
    (∃ prepared, { request with returnValues := values }.prepareUpdate = .ok prepared) ↔
      ∃ prepared, request.prepareUpdate = .ok prepared := by
  have conditions : { request with returnValues := values }.conditionExpression =
      request.conditionExpression := rfl
  have updates : { request with returnValues := values }.updateExpression =
      request.updateExpression := rfl
  simp [prepareUpdate_eq_ok_iff, conditions, updates]

end Request

def Action.operation : Action → Operation
  | put => .put
  | get => .get
  | update => .update
  | delete => .delete
  | query => .query
  | queryPager => .queryPages

def Call.returnValues? : Call → Option ReturnValues
  | delete call => some call.returnValues
  | update call => some call.returnValues
  | _ => none

def Call.expressions : Call → List String
  | put call => call.condition.toList
  | get _ => []
  | delete call => call.condition.toList
  | update call => call.update :: call.condition.toList
  | query call => call.keyCondition :: call.filter.toList
  | queryPages call => call.keyCondition :: call.filter.toList

structure Call.Carries (request : Request) (call : Call) : Prop where
  operation : call.operation = request.action.operation
  table : call.table = request.table
  returnValues : request.action = .update ∨ request.action = .delete →
    call.returnValues? = some request.returnValues

theorem carries_of_prepare {request : Request} {prepared : Prepared}
    (ready : request.prepare = .ok prepared) : prepared.call.Carries request := by
  unfold Request.prepare at ready
  cases action : request.action with
  | put =>
      simp only [action, Request.preparePut_eq_ok_iff] at ready
      obtain ⟨-, row, -, condition, aliases, -, shape⟩ := ready
      rw [shape]
      exact ⟨by rw [action]; rfl, rfl, by simp [action]⟩
  | get =>
      simp only [action, Request.prepareGet_eq_ok_iff] at ready
      obtain ⟨-, row, -, shape⟩ := ready
      rw [shape]
      exact ⟨by rw [action]; rfl, rfl, by simp [action]⟩
  | update =>
      simp only [action, Request.prepareUpdate_eq_ok_iff] at ready
      obtain ⟨-, row, -, update, names, -, condition, aliases, -, shape⟩ := ready
      rw [shape]
      exact ⟨by rw [action]; rfl, rfl, fun _ => rfl⟩
  | delete =>
      simp only [action, Request.prepareDelete_eq_ok_iff] at ready
      obtain ⟨-, row, -, condition, aliases, -, shape⟩ := ready
      rw [shape]
      exact ⟨by rw [action]; rfl, rfl, fun _ => rfl⟩
  | query =>
      simp only [action, Request.prepareQuery_eq_ok_iff] at ready
      obtain ⟨condition, names, -, filter, aliases, -, startKey, -, shape⟩ := ready
      rw [shape]
      exact ⟨by rw [action]; rfl, rfl, by simp [action]⟩
  | queryPager =>
      simp only [action, Request.preparePages_eq_ok_iff] at ready
      obtain ⟨window, -, condition, aliases, -, shape⟩ := ready
      rw [shape]
      exact ⟨by rw [action]; rfl, rfl, by simp [action]⟩

end KeyedStore
