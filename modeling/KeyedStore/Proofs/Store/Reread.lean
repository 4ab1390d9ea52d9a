import KeyedStore.Proofs.Expression.Typing
import KeyedStore.Proofs.Request.Json
import KeyedStore.Proofs.Store.Dispatch

/-! What a request does once it was written as JSON and read back. A condition that compiles has
no null to lose, so where the request is accepted its copy is answered alike. -/

namespace KeyedStore

theorem Condition.reread_of_wellTyped {condition : Condition} (typed : condition.WellTyped) :
    condition.reread = condition := by
  rw [reread_eq_iff]
  intro null
  unfold WellTyped at typed
  split at typed <;> simp_all [GivesNumber, GivesText]

namespace Request

theorem map_reread_of_compiled {conditions : List Condition} {start : Aliases}
    {compiled : String × Aliases}
    (done : compileConditions conditions start = (.ok compiled.1, compiled.2)) :
    conditions.map Condition.reread = conditions := by
  have typed := (exists_compileConditions_iff conditions start).mp ⟨_, _, done⟩
  rw [← List.map_id conditions, List.map_map, List.map_inj_left]
  exact fun condition member => Condition.reread_of_wellTyped (typed condition member)

theorem conditionExpression_reread {request : Request} {aliases : Aliases}
    {compiled : String × Aliases} (done : request.conditionExpression aliases = .ok compiled) :
    request.reread.conditionExpression aliases = .ok compiled := by
  rw [conditionExpression_eq_ok_iff] at done ⊢
  rw [reread, map_reread_of_compiled done]
  exact done

theorem filterExpression_reread {request : Request} {aliases : Aliases}
    {compiled : String × Aliases} (done : request.filterExpression aliases = .ok compiled) :
    request.reread.filterExpression aliases = .ok compiled := by
  rw [filterExpression_eq_ok_iff] at done ⊢
  rw [reread, map_reread_of_compiled done]
  exact done

theorem prepare_reread {request : Request} {prepared : Prepared}
    (ready : request.prepare = .ok prepared) : request.reread.prepare = .ok prepared := by
  have sameAction : request.reread.action = request.action := rfl
  unfold prepare at ready ⊢
  rw [sameAction]
  cases action : request.action with
  | put =>
      simp only [action, preparePut_eq_ok_iff] at ready ⊢
      obtain ⟨keyed, row, written, condition, aliases, compiled, shape⟩ := ready
      exact ⟨keyed, row, written, condition, aliases, conditionExpression_reread compiled, shape⟩
  | get =>
      simp only [action, prepareGet_eq_ok_iff] at ready ⊢
      exact ready
  | update =>
      simp only [action, prepareUpdate_eq_ok_iff] at ready ⊢
      obtain ⟨keyed, row, written, update, names, updated, condition, aliases, compiled, shape⟩ :=
        ready
      exact ⟨keyed, row, written, update, names, updated, condition, aliases,
        conditionExpression_reread compiled, shape⟩
  | delete =>
      simp only [action, prepareDelete_eq_ok_iff] at ready ⊢
      obtain ⟨keyed, row, written, condition, aliases, compiled, shape⟩ := ready
      exact ⟨keyed, row, written, condition, aliases, conditionExpression_reread compiled, shape⟩
  | query =>
      simp only [action, prepareQuery_eq_ok_iff] at ready ⊢
      obtain ⟨condition, names, compiled, filter, aliases, filtered, start, started, shape⟩ := ready
      exact ⟨condition, names, conditionExpression_reread compiled, filter, aliases,
        filterExpression_reread filtered, start, started, shape⟩
  | queryPager =>
      simp only [action, preparePages_eq_ok_iff] at ready ⊢
      obtain ⟨window, opened, condition, aliases, compiled, shape⟩ := ready
      exact ⟨window, opened, condition, aliases, conditionExpression_reread compiled, shape⟩

end Request

namespace Store

variable {State : Type}

theorem asSent_reread (store : Store State) (request : Request) :
    store.asSent request.reread = (store.asSent request).reread := by
  have sameAction : request.reread.action = request.action := rfl
  unfold asSent
  rw [sameAction, apply_ite Request.reread]
  rfl

theorem dispatch_reread {backend : Backend State} (request : Request) {store : Store State}
    (accepted : ∀ error, (store.dispatch backend request).1 = .error error →
      error.isBackendFailure = true) :
    (store.dispatch backend request.reread).1 = (store.dispatch backend request).1 ∧
      (store.dispatch backend request.reread).2.backendState =
        (store.dispatch backend request).2.backendState := by
  have sameCached : store.cached? request.reread = store.cached? request := rfl
  rcases dispatch_cases backend request store with
    ⟨response, cached, left⟩ |
      ⟨missed, ⟨error, refused, left⟩ |
        ⟨prepared, ready, ⟨cause, after, answered, left⟩ | ⟨output, after, answered, left⟩⟩⟩
  · simp [dispatch, sameCached, cached]
  · have unlike := Request.local_prepare _ error refused
    rw [accepted error (by rw [left])] at unlike
    contradiction
  all_goals
    have copied := Request.prepare_reread ready
    rw [← asSent_reread] at copied
    rw [left]
    simp [dispatch, sameCached, missed, copied, answered, settle]

end Store

namespace Request

/-- A request with finite numbers, written as JSON and read back, is the request in every field,
but for conditions on the value null, which come back without a value: it is the same request
exactly if there are none. Whatever request a store does not refuse, its copy is answered alike
and calls the backend alike. -/
theorem survives_serialization (request : Request) (finite : request.AllFinite) :
    ∃ copy, decode request.toJson = .ok copy ∧
      copy = { request with
        conditions := request.conditions.map Condition.reread
        filter := request.filter.map Condition.reread } ∧
      (copy = request ↔
        ∀ condition ∈ request.conditions ++ request.filter, condition.value ≠ some .null) ∧
      ∀ {State : Type} (backend : Backend State) (store : Store State),
        (∀ error, (store.run backend request).1 = .error error → error.isBackendFailure = true) →
          (store.run backend copy).1 = (store.run backend request).1 ∧
            (store.run backend copy).2.backendState =
              (store.run backend request).2.backendState := by
  refine ⟨request.reread, decode_toJson finite, rfl, request.reread_eq_iff, ?_⟩
  intro State backend store accepted
  exact Store.dispatch_reread { request with table := store.tablePrefix ++ request.table } accepted

/-- A condition that asks for a field and gives a value with it is refused; with its null value
the refusal is lost. -/
theorem null_value_lost :
    let request : Request :=
      { table := "notes", action := .query
        conditions := [{ field := "note", kind := .present, value := some .null }] }
    request.AllFinite ∧
      ∃ copy, decode request.toJson = .ok copy ∧ copy ≠ request ∧
        (∃ error, request.prepare = .error error) ∧ ∃ prepared, copy.prepare = .ok prepared := by
  intro request
  have finite : request.AllFinite := by
    constructor <;> simp [request, Value.isFinite]
  refine ⟨finite, request.reread, decode_toJson finite, ?_, ⟨_, rfl⟩, ⟨_, rfl⟩⟩
  rw [ne_eq, reread_eq_iff]
  simp [request]

theorem survives_serialization_of_nested :
    let half : Value := .number (.ofQuotient false 1 2)
    let request : Request :=
      { table := "notes", action := .update, key := [("id", .string "a")]
        updates := [⟨.put, "/tags/-", .list [.null, .map [("", half)], .list []]⟩]
        index := some "by note", returnValues := .allOld, limit := 18446744073709551615
        conditions := [.equal "size" half, .absent "note"]
        filter := [(Condition.beginsWith "note" (.string "")).asAlternative] }
    decode request.toJson = .ok request := by
  intro half request
  have halfFinite : half.isFinite = true := by decide
  have finite : request.AllFinite := by
    constructor <;> simp [request, Value.isFinite, Value.finiteElements, Value.finiteFields,
      Condition.equal, Condition.absent, Condition.beginsWith, Condition.asAlternative, halfFinite]
  obtain ⟨copy, read, -, same, -⟩ := survives_serialization request finite
  rw [read, same.mpr]
  simp [request, half, Condition.equal, Condition.absent, Condition.beginsWith,
    Condition.asAlternative]

end Request

end KeyedStore
