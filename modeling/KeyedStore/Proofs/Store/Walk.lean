import KeyedStore.Proofs.Backend.Sequence
import KeyedStore.Proofs.Expression.Typing
import KeyedStore.Proofs.Store.Dispatch
import KeyedStore.Response.Field
import Mathlib.Algebra.Order.Field.Rat
import Mathlib.Algebra.Order.Floor.Semiring

/-! Walks through the answers of a query. Over a backend that holds its rows in order, a walk
from the first row on meets every row once. -/

namespace KeyedStore

namespace Request

theorem rowLimit?_of_pos {request : Request} (limited : 0 < request.limit) :
    request.rowLimit? = some request.limit.toNat := by
  have positive : request.limit ≠ 0 := by
    intro none
    simp [none] at limited
  simp [rowLimit?, positive]

theorem exists_expressions_of_typed {request : Request}
    (typed : ∀ condition ∈ request.conditions ++ request.filter, condition.WellTyped) :
    ∃ keyCondition keyAliases filter aliases,
      request.conditionExpression .empty = .ok (keyCondition, keyAliases) ∧
        request.filterExpression keyAliases = .ok (filter, aliases) := by
  obtain ⟨keyTyped, filterTyped⟩ := List.forall_mem_append.mp typed
  obtain ⟨keyCondition, keyAliases, keyCompiled⟩ :=
    (exists_compileConditions_iff request.conditions .empty).mpr keyTyped
  obtain ⟨filter, aliases, filterCompiled⟩ :=
    (exists_compileConditions_iff request.filter keyAliases).mpr filterTyped
  exact ⟨keyCondition, keyAliases, filter, aliases, conditionExpression_eq_ok_iff.mpr keyCompiled,
    filterExpression_eq_ok_iff.mpr filterCompiled⟩

theorem prepare_of_typed (request : Request) {start : Option AttributeMap}
    (query : request.action = .query)
    (typed : ∀ condition ∈ request.conditions ++ request.filter, condition.WellTyped)
    (started : request.startKey? = .ok start) :
    ∃ call : QueryCall, call.table = request.table ∧ call.limit = request.rowLimit? ∧
      call.startKey = start ∧
        request.prepare = .ok {
          call := .query call
          respond := fun page =>
            { items := match request.rowLimit? with
                | some limit => page.items.take limit
                | none => page.items
              lastKey := page.lastKey } } := by
  obtain ⟨keyCondition, keyAliases, filter, aliases, keyCompiled, filterCompiled⟩ :=
    exists_expressions_of_typed typed
  let call : QueryCall := {
    table := request.table, index := request.index, keyCondition, filter := nonEmpty? filter
    aliases, consistentRead := request.consistentRead, limit := request.rowLimit?
    startKey := start }
  refine ⟨call, rfl, rfl, rfl, ?_⟩
  rw [prepare, query, prepareQuery_eq_ok_iff]
  exact ⟨keyCondition, keyAliases, keyCompiled, filter, aliases, filterCompiled, start, started,
    rfl⟩

theorem prepare_of_unstarted (request : Request) {error : StoreError}
    (query : request.action = .query)
    (typed : ∀ condition ∈ request.conditions ++ request.filter, condition.WellTyped)
    (unstarted : request.startKey? = .error error) : request.prepare = .error error := by
  obtain ⟨keyCondition, keyAliases, filter, aliases, keyCompiled, filterCompiled⟩ :=
    exists_expressions_of_typed typed
  simp only [prepare, query, prepareQuery, keyCompiled, filterCompiled, unstarted, bind,
    Except.bind]

theorem typed_of_prepareQuery {request : Request} {prepared : Prepared}
    (ready : request.prepareQuery = .ok prepared) :
    ∀ condition ∈ request.conditions ++ request.filter, condition.WellTyped := by
  obtain ⟨keyCondition, keyAliases, keyCompiled, filter, aliases, filterCompiled, -⟩ :=
    prepareQuery_eq_ok_iff.mp ready
  rw [conditionExpression_eq_ok_iff] at keyCompiled
  rw [filterExpression_eq_ok_iff] at filterCompiled
  have keyTyped := (exists_compileConditions_iff _ _).mp ⟨_, _, keyCompiled⟩
  have filterTyped := (exists_compileConditions_iff _ _).mp ⟨_, _, filterCompiled⟩
  exact List.forall_mem_append.mpr ⟨keyTyped, filterTyped⟩

end Request

namespace Store

variable {State : Type}

/-- Each request of a walk starts at the key that the response before it names as its last, and
the walk ends at a response that names none. -/
inductive Walk (backend : Backend State) :
    Request → Store State → List Response → Store State → Prop where
  | last {request : Request} {store after : Store State} {response : Response} :
      store.run backend request = (.ok response, after) →
      response.lastEvaluatedKey? = .ok none →
      Walk backend request store [response] after
  | next {request : Request} {store middle after : Store State} {response : Response}
      {key : Item} {responses : List Response} :
      store.run backend request = (.ok response, middle) →
      response.lastEvaluatedKey? = .ok (some key) →
      Walk backend { request with lastKey := key } middle responses after →
      Walk backend request store (response :: responses) after

theorem Walk.unique {backend : Backend State} {request : Request} {store left right : Store State}
    {lefts rights : List Response} (leftWalk : Walk backend request store lefts left)
    (rightWalk : Walk backend request store rights right) : lefts = rights ∧ left = right := by
  induction leftWalk generalizing rights right with
  | last ran ended =>
      cases rightWalk with
      | last otherRan otherEnded => simp_all
      | next otherRan continued others => simp_all
  | next ran continued rest ih =>
      cases rightWalk with
      | last otherRan otherEnded => simp_all
      | next otherRan otherContinued others =>
          obtain ⟨⟨⟩, ⟨⟩⟩ := Prod.mk.inj (ran.symm.trans otherRan)
          cases continued.symm.trans otherContinued
          obtain ⟨sameRest, sameEnd⟩ := ih others
          exact ⟨by rw [sameRest], sameEnd⟩

variable {backend : Backend State} {table : String}

/-- A request that asks, under a limit, for the rows behind a key of a sequence or for the first
rows. -/
structure Asks (sequence : RowSequence backend table) (request : Request)
    (start : Option AttributeMap) : Prop where
  query : request.action = .query
  limited : 0 < request.limit
  typed : ∀ condition ∈ request.conditions ++ request.filter, condition.WellTyped
  started : request.startKey? = .ok start
  known : ∀ key ∈ start, key ∈ sequence.rows.map sequence.keyOf

theorem run_asks {sequence : RowSequence backend table} {request : Request}
    {start : Option AttributeMap} (asks : Asks sequence request start) {store : Store State}
    (holds : sequence.Holds store.backendState)
    (named : store.tablePrefix ++ request.table = table) :
    let ahead := rowsBehind sequence.rows sequence.keyOf start
    ∃ after, sequence.Holds after.backendState ∧ after.tablePrefix = store.tablePrefix ∧
      store.run backend request =
        (.ok {
          items := ahead.take request.limit.toNat
          lastKey := if request.limit.toNat < ahead.length then
            (ahead.take request.limit.toNat).getLast?.map sequence.keyOf else none }, after) := by
  intro ahead
  let sent : Request := { request with table := store.tablePrefix ++ request.table }
  obtain ⟨call, sameTable, limit, sameStart, ready⟩ :=
    sent.prepare_of_typed asks.query asks.typed asks.started
  have limited : sent.rowLimit? = some request.limit.toNat :=
    Request.rowLimit?_of_pos asks.limited
  rw [limited] at limit ready
  obtain ⟨page, after, answered, holdsAfter, items, lastKey⟩ :=
    sequence.answer_query holds (sameTable.trans named) limit (by rw [sameStart]; exact asks.known)
  rw [sameStart] at items lastKey
  let response : Response :=
    { items := page.items.take request.limit.toNat, lastKey := page.lastKey }
  let settled := settle { store with backendState := after } sent response
  refine ⟨settled, holdsAfter, rfl, ?_⟩
  have ran : store.run backend request = (.ok response, settled) := by
    rw [run, dispatch_query backend sent (.inl asks.query), ready]
    simp only [answered]
    rfl
  rw [ran]
  simp only [response, items, lastKey, List.take_take, min_self, ahead]

theorem Asks.next {sequence : RowSequence backend table} {request : Request}
    {start : Option AttributeMap} (asks : Asks sequence request start) {row : AttributeMap}
    (member : row ∈ sequence.rows) :
    ∃ key, (sequence.keyOf row).unmarshal = .ok key ∧
      Asks sequence { request with lastKey := key } (some (sequence.keyOf row)) := by
  obtain ⟨key, read, written⟩ := sequence.returning row member
  have present : key ≠ [] := by
    rintro rfl
    exact sequence.nonempty row member (Except.ok.inj written).symm
  refine ⟨key, read, asks.query, asks.limited, asks.typed, ?_, ?_⟩
  · simp [Request.startKey?, present, Item.marshalRow_eq_ok_iff.mpr written, pure, Except.pure,
      bind, Except.bind]
  · intro named same
    rw [← Option.mem_some.mp same]
    exact List.mem_map_of_mem member

theorem pagesLeft_of_le {count limit : Nat} (positive : 0 < limit) (few : count ≤ limit) :
    max 1 ⌈(count : ℚ) / limit⌉₊ = 1 := by
  have small : (count : ℚ) / limit ≤ 1 := by
    rw [div_le_one (by exact_mod_cast positive)]
    exact_mod_cast few
  have ceil : ⌈(count : ℚ) / limit⌉₊ ≤ 1 := Nat.ceil_le.mpr (by exact_mod_cast small)
  omega

theorem pagesLeft_of_lt {count limit : Nat} (positive : 0 < limit) (more : limit < count) :
    max 1 ⌈(count : ℚ) / limit⌉₊ = max 1 ⌈((count - limit : Nat) : ℚ) / limit⌉₊ + 1 := by
  have ratPositive : (0 : ℚ) < limit := by exact_mod_cast positive
  have behind : (0 : ℚ) < ((count - limit : Nat) : ℚ) / limit :=
    div_pos (by exact_mod_cast Nat.sub_pos_of_lt more) ratPositive
  have split : (count : ℚ) / limit = ((count - limit : Nat) : ℚ) / limit + 1 := by
    rw [Nat.cast_sub more.le]
    field_simp
    ring
  rw [split, Nat.ceil_add_one behind.le]
  have some : 0 < ⌈((count - limit : Nat) : ℚ) / limit⌉₊ := Nat.ceil_pos.mpr behind
  omega

theorem exists_walk {sequence : RowSequence backend table} (request : Request)
    (start : Option AttributeMap) (store : Store State) (front ahead : List AttributeMap)
    (asks : Asks sequence request start) (holds : sequence.Holds store.backendState)
    (named : store.tablePrefix ++ request.table = table)
    (left : rowsBehind sequence.rows sequence.keyOf start = ahead)
    (cut : sequence.rows = front ++ ahead) :
    ∃ responses after, Walk backend request store responses after ∧
      responses.length = max 1 ⌈(ahead.length : ℚ) / request.limit.toNat⌉₊ ∧
        responses.flatMap Response.items = ahead := by
  have positive : 0 < request.limit.toNat := UInt64.lt_iff_toNat_lt.mp asks.limited
  obtain ⟨middle, holdsMiddle, samePrefix, ran⟩ := run_asks asks holds named
  rw [left] at ran
  -- The rows left get fewer with each page: the walk goes on with those behind its last row.
  by_cases more : request.limit.toNat < ahead.length
  · rw [if_pos more] at ran
    rcases List.eq_nil_or_concat (ahead.take request.limit.toNat) with empty | ⟨page, row, full⟩
    · have none := congrArg List.length empty
      rw [List.length_take, List.length_nil] at none
      omega
    · let rest := ahead.drop request.limit.toNat
      have split : sequence.rows = (front ++ page) ++ row :: rest := by
        rw [cut, ← List.take_append_drop request.limit.toNat ahead, full]
        simp [rest]
      have member : row ∈ sequence.rows := by simp [split]
      obtain ⟨key, read, asksNext⟩ := asks.next member
      obtain ⟨responses, after, walk, length, items⟩ := exists_walk _ _ middle
        (front ++ page ++ [row]) rest asksNext holdsMiddle (by rw [samePrefix]; exact named)
        (rowsBehind_keyOf sequence.distinct split) (by simp [split])
      refine ⟨_, after, .next ran ?_ walk, ?_, ?_⟩
      · simp [Response.lastEvaluatedKey?, full, unmarshalRow?, read]
      · rw [List.length_cons, length, pagesLeft_of_lt positive more, List.length_drop]
      · rw [List.flatMap_cons, items]
        exact List.take_append_drop _ _
  · rw [if_neg more] at ran
    refine ⟨_, middle, .last ran rfl, ?_, ?_⟩
    · rw [pagesLeft_of_le positive (by omega)]
      rfl
    · simp only [List.flatMap_cons, List.flatMap_nil, List.append_nil]
      exact List.take_of_length_le (by omega)
termination_by ahead.length
decreasing_by
  rw [List.length_drop]
  omega

theorem typed_of_walk {request : Request} {store after : Store State} {responses : List Response}
    (query : request.action = .query) (walk : Walk backend request store responses after) :
    ∀ condition ∈ request.conditions ++ request.filter, condition.WellTyped := by
  let sent : Request := { request with table := store.tablePrefix ++ request.table }
  have sentQuery : sent.action = .query := query
  have answered : ∃ response, (store.run backend request).1 = .ok response := by
    cases walk with
    | last ran ended => exact ⟨_, congrArg Prod.fst ran⟩
    | next ran continued rest => exact ⟨_, congrArg Prod.fst ran⟩
  obtain ⟨response, answered⟩ := answered
  obtain ⟨prepared, ready⟩ := (exists_prepare_asSent_iff store sent).mp
    (exists_prepare_of_dispatch (by simp [sentQuery]) answered)
  rw [Request.prepare, sentQuery] at ready
  have typed := Request.typed_of_prepareQuery ready
  exact typed

/-- A query with a limit, walked from the first row on over a backend that holds its rows in
order. Exactly if its conditions compile there is a walk, which is to say that all runs are
answered and that it comes to its end, after as many pages as the rows fill, one at least. Its
pages one after the other are the rows. -/
theorem walk_visits_each_row_once (sequence : RowSequence backend table) (store : Store State)
    (request : Request) (holds : sequence.Holds store.backendState)
    (named : store.tablePrefix ++ request.table = table) (limited : 0 < request.limit) :
    let first := { request with action := .query, lastKey := [] }
    ((∃ responses after, Walk backend first store responses after) ↔
        ∀ condition ∈ request.conditions ++ request.filter, condition.WellTyped) ∧
      ∀ responses after, Walk backend first store responses after →
        responses.length = max 1 ⌈(sequence.rows.length : ℚ) / request.limit.toNat⌉₊ ∧
          responses.flatMap Response.items = sequence.rows := by
  intro first
  have walks (typed : ∀ condition ∈ request.conditions ++ request.filter, condition.WellTyped) :=
    exists_walk first none store [] sequence.rows ⟨rfl, limited, typed, rfl, by simp⟩ holds named
      rfl rfl
  have typed {responses after} (walk : Walk backend first store responses after) :=
    typed_of_walk rfl walk
  refine ⟨⟨?_, fun typed => ?_⟩, fun responses after walk => ?_⟩
  · rintro ⟨responses, after, walk⟩
    exact typed walk
  · obtain ⟨responses, after, walk, -⟩ := walks typed
    exact ⟨responses, after, walk⟩
  · obtain ⟨others, otherAfter, otherWalk, length, items⟩ := walks (typed walk)
    rw [(walk.unique otherWalk).1]
    exact ⟨length, items⟩

theorem walk_visits_each_row_once_five_by_two :
    let row (id : String) : AttributeMap := [("id", .string id), ("kind", .string "click")]
    let rows := [row "a", row "b", row "c", row "d", row "e"]
    let request : Request :=
      { table := "events", action := .query, limit := 2, conditions := [.present "kind"] }
    ∃ responses after,
      Walk Backend.memory request { backendState := { tables := [("events", rows)] } }
          responses after ∧
        responses.length = 3 ∧ responses.flatMap Response.items = rows := by
  intro row rows request
  let memory : Memory := { tables := [("events", rows)] }
  have found : memory.rows "events" = ["a", "b", "c", "d", "e"].map row := rfl
  have written : ∀ id ∈ ["a", "b", "c", "d", "e"],
      Item.marshal [("id", .string id)] = .ok [("id", .string id)] := by
    simp only [List.forall_mem_cons]
    exact ⟨rfl, rfl, rfl, rfl, rfl, by simp⟩
  have returning : ∀ row ∈ memory.rows "events", ∃ item,
      (memory.keyOf row).unmarshal = .ok item ∧ Item.marshal item = .ok (memory.keyOf row) := by
    simp only [found, List.forall_mem_map]
    intro id member
    exact ⟨[("id", .string id)], rfl, written id member⟩
  let sequence : RowSequence Backend.memory "events" :=
    .memory memory "events" (by decide) (by decide) returning
  have two : UInt64.toNat 2 = 2 := rfl
  obtain ⟨walks, each⟩ := walk_visits_each_row_once sequence { backendState := memory } request
    rfl rfl (by decide)
  obtain ⟨responses, after, walk⟩ := walks.mpr (by simp [request, Condition.present,
    Condition.WellTyped])
  obtain ⟨length, items⟩ := each responses after walk
  refine ⟨responses, after, walk, ?_, items⟩
  rw [length]
  have ceil : ⌈((5 : Nat) : ℚ) / UInt64.toNat 2⌉₊ = 3 := by
    rw [Nat.ceil_eq_iff (by decide)]
    norm_num [two]
  exact congrArg (max 1) ceil

end Store

end KeyedStore
