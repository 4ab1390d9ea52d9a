import KeyedStore.Proofs.Rollback.Attempts
import KeyedStore.Proofs.Store.Run

/-! What a store remembers of its reads. At any time the look-ups of the cache can be read off
the history: a get is answered without a call exactly if an earlier get of the table and the key
was answered by one while the cache was in use, and neither a clear nor the rollback of an
operation at that place came after the last such get. Nothing else has a part in it. -/

namespace KeyedStore

def caching (events : List Event) : Bool :=
  events.foldl (fun inUse event =>
    match event.command with
    | .cacheOn => true
    | .cacheOff => false
    | _ => inUse) true

def LoggedOperation.UndoneAt (table : String) (key : Item) (operation : LoggedOperation) : Prop :=
  ∃ undo, operation.compensate = .ok (some undo) ∧ undo.table = table ∧ undo.key.same key = true

section Place

variable (tablePrefix table : String) (key : Item)

/-- A get of the table and of a key equal to the given one that was answered by a call. -/
def Event.Reads (response : Response) (event : Event) : Prop :=
  ∃ request, event.command = .run request ∧ request.action = .get ∧
    tablePrefix ++ request.table = table ∧ request.key.same key = true ∧
      event.reply = .answered (.ok response) ∧ event.exchanges ≠ []

/-- A clear, or a rollback of a logged operation that is undone at the place. -/
def Event.Forgets (earlier : List Event) (event : Event) : Prop :=
  event.command = .clearCache ∨
    (event.command = .rollback ∨ ∃ order, event.command = .rollbackWith order) ∧
      ∃ recent, SinceStart earlier recent ∧
        ∃ operation ∈ recent.filterMap (Event.logged? tablePrefix), operation.UndoneAt table key

/-- An event that forgets the reads of the place or is the next of them to be remembered. -/
def Event.Touches (earlier : List Event) (event : Event) : Prop :=
  event.Forgets tablePrefix table key earlier ∨
    caching earlier = true ∧ ∃ response, event.Reads tablePrefix table key response

def Untouched : List Event → List Event → Prop
  | _, [] => True
  | earlier, event :: rest =>
      ¬event.Touches tablePrefix table key earlier ∧ Untouched (earlier ++ [event]) rest

/-- The read was remembered, and it is the last one of the place: it was neither followed by
another nor forgotten. -/
structure LastRead (earlier : List Event) (read : Event) (since : List Event)
    (response : Response) : Prop where
  remembered : caching earlier = true
  reads : read.Reads tablePrefix table key response
  untouched : Untouched tablePrefix table key (earlier ++ [read]) since

def Recalls (events : List Event) (response : Response) : Prop :=
  ∃ earlier read since, events = earlier ++ read :: since ∧
    LastRead tablePrefix table key earlier read since response

def RecallsSince (first later : List Event) (response : Response) : Prop :=
  ∃ earlier read since, later = earlier ++ read :: since ∧
    LastRead tablePrefix table key (first ++ earlier) read since response

end Place

def Command.leavesReads : Command → Bool
  | .run request => decide (request.action ≠ .get)
  | .rollback => false
  | .rollbackWith _ => false
  | .clearCache => false
  | _ => true

variable {tablePrefix table : String} {key : Item}

theorem caching_concat (events : List Event) (event : Event) :
    caching (events ++ [event]) =
      match event.command with
      | .cacheOn => true
      | .cacheOff => false
      | _ => caching events := by
  simp [caching]

theorem untouched_append {earlier front back : List Event} :
    Untouched tablePrefix table key earlier (front ++ back) ↔
      Untouched tablePrefix table key earlier front ∧
        Untouched tablePrefix table key (earlier ++ front) back := by
  induction front generalizing earlier with
  | nil => simp [Untouched]
  | cons event rest ih =>
      simp only [List.cons_append, Untouched, ih, and_assoc, List.append_assoc, List.nil_append]

theorem recalls_append_iff {first later : List Event} {response : Response} :
    Recalls tablePrefix table key (first ++ later) response ↔
      Recalls tablePrefix table key first response ∧ Untouched tablePrefix table key first later ∨
        RecallsSince tablePrefix table key first later response := by
  constructor
  · rintro ⟨earlier, read, since, split, last⟩
    rcases List.append_eq_append_iff.mp split with
      ⟨between, front, back⟩ | ⟨between, front, back⟩
    · exact .inr ⟨between, read, since, back, front ▸ last⟩
    · cases between with
      | nil =>
          rw [List.append_nil] at front
          rw [List.nil_append] at back
          exact .inr ⟨[], read, since, back.symm, by simpa [front] using last⟩
      | cons event between =>
          obtain ⟨rfl, rfl⟩ := List.cons.inj back
          obtain ⟨untouchedBefore, untouchedLater⟩ := untouched_append.mp last.untouched
          have place : earlier ++ [read] ++ between = first := by simp [front]
          rw [place] at untouchedLater
          exact .inl ⟨⟨earlier, read, between, front, last.remembered, last.reads,
            untouchedBefore⟩, untouchedLater⟩
  · rintro (⟨⟨earlier, read, since, split, last⟩, untouched⟩ | ⟨earlier, read, since, split, last⟩)
    · refine ⟨earlier, read, since ++ later, by simp [split], last.remembered, last.reads, ?_⟩
      have place : earlier ++ [read] ++ since = first := by simp [split]
      exact untouched_append.mpr ⟨last.untouched, place ▸ untouched⟩
    · exact ⟨first ++ earlier, read, since, by simp [split], last⟩

theorem recallsSince_cons_iff {first later : List Event} {event : Event} {response : Response} :
    RecallsSince tablePrefix table key first (event :: later) response ↔
      LastRead tablePrefix table key first event later response ∨
        RecallsSince tablePrefix table key (first ++ [event]) later response := by
  constructor
  · rintro ⟨earlier, read, since, split, last⟩
    cases earlier with
    | nil =>
        obtain ⟨rfl, rfl⟩ := List.cons.inj split
        exact .inl (by simpa using last)
    | cons head earlier =>
        obtain ⟨rfl, rest⟩ := List.cons.inj split
        exact .inr ⟨earlier, read, since, rest, by simpa using last⟩
  · rintro (last | ⟨earlier, read, since, split, last⟩)
    · exact ⟨[], event, later, rfl, by simpa using last⟩
    · exact ⟨event :: earlier, read, since, by simp [split], by simpa using last⟩

theorem recalls_concat_iff {events : List Event} {event : Event} {response : Response} :
    Recalls tablePrefix table key (events ++ [event]) response ↔
      caching events = true ∧ event.Reads tablePrefix table key response ∨
        ¬event.Touches tablePrefix table key events ∧
          Recalls tablePrefix table key events response := by
  have none : ¬RecallsSince tablePrefix table key (events ++ [event]) [] response := by
    rintro ⟨earlier, read, since, split, -⟩
    simp at split
  have last : LastRead tablePrefix table key events event [] response ↔
      caching events = true ∧ event.Reads tablePrefix table key response :=
    ⟨fun last => ⟨last.remembered, last.reads⟩, fun ⟨remembered, reads⟩ =>
      ⟨remembered, reads, trivial⟩⟩
  rw [recalls_append_iff, recallsSince_cons_iff, last]
  simp only [none, or_false, Untouched, and_true]
  rw [or_comm, and_comm (a := Recalls _ _ _ _ _)]

theorem LoggedOperation.undoneAt_iff {operation : LoggedOperation} :
    operation.UndoneAt table key ↔
      operation.hasUndo = true ∧ operation.request.table = table ∧
        operation.request.key.same key = true := by
  constructor
  · rintro ⟨undo, compensated, sameTable, sameKey⟩
    obtain ⟨ownTable, ownKey, -⟩ := undo_addressed compensated
    exact ⟨by simp [hasUndo, compensated], ownTable ▸ sameTable, ownKey ▸ sameKey⟩
  · rintro ⟨undoable, sameTable, sameKey⟩
    unfold hasUndo at undoable
    split at undoable
    · rename_i undo compensated
      obtain ⟨ownTable, ownKey, -⟩ := undo_addressed compensated
      exact ⟨undo, compensated, ownTable ▸ sameTable, ownKey ▸ sameKey⟩
    · simp at undoable

theorem ResultCache.lookup?_forget (operations : List LoggedOperation) (cache : ResultCache)
    (table : String) (key : Item) (response : Response) :
    (cache.forget operations).lookup? table key = some response ↔
      (∀ operation ∈ operations, ¬operation.UndoneAt table key) ∧
        cache.lookup? table key = some response := by
  induction operations generalizing cache with
  | nil => simp [forget_nil]
  | cons operation rest ih =>
      rw [forget_cons, ih, List.forall_mem_cons, LoggedOperation.undoneAt_iff]
      cases undoable : operation.hasUndo with
      | false => simp [forget_of_not_hasUndo undoable]
      | true =>
          rw [forget_of_hasUndo undoable, lookup?_evict]
          by_cases place : operation.request.table = table ∧ operation.request.key.same key = true
          · simp [place]
          · simp [place, and_comm]

namespace Event

theorem reads_run_iff {request : Request} {reply : Command.Reply} {exchanges : List Exchange}
    {response : Response} :
    (Event.mk (.run request) reply exchanges).Reads tablePrefix table key response ↔
      request.action = .get ∧ tablePrefix ++ request.table = table ∧
        request.key.same key = true ∧ reply = .answered (.ok response) ∧ exchanges ≠ [] := by
  simp [Reads]

theorem touches_run_iff {earlier : List Event} {request : Request} {reply : Command.Reply}
    {exchanges : List Exchange} :
    (Event.mk (.run request) reply exchanges).Touches tablePrefix table key earlier ↔
      caching earlier = true ∧ ∃ response,
        (Event.mk (.run request) reply exchanges).Reads tablePrefix table key response := by
  simp [Touches, Forgets]

theorem not_reads_of_rollback {event : Event} {response : Response}
    (rollback : event.command = .rollback ∨ ∃ order, event.command = .rollbackWith order) :
    ¬event.Reads tablePrefix table key response := by
  rintro ⟨request, run, -⟩
  rcases rollback with same | ⟨order, same⟩ <;> simp [same] at run

theorem not_touches_of_leavesReads {earlier : List Event} {event : Event}
    (leaves : event.command.leavesReads = true) :
    ¬event.Touches tablePrefix table key earlier := by
  rintro ((clear | ⟨rollback | ⟨order, rollback⟩, -⟩) | ⟨-, response, request, run, read, -⟩)
  · simp [clear, Command.leavesReads] at leaves
  · simp [rollback, Command.leavesReads] at leaves
  · simp [rollback, Command.leavesReads] at leaves
  · simp [run, read, Command.leavesReads] at leaves

theorem not_touches_of_unused {earlier : List Event} {event : Event} {request : Request}
    (run : event.command = .run request) (unused : caching earlier = false) :
    ¬event.Touches tablePrefix table key earlier := by
  rintro (forgets | ⟨inUse, -⟩)
  · simp [Forgets, run] at forgets
  · simp [unused] at inUse

end Event

namespace Store

variable {State : Type}

theorem rollbackWith_cache (backend : Backend State) (order : RollbackOrder)
    {store : Store (Transcribed State)} {log : OperationLog}
    (active : store.transaction.log = some log) :
    (store.rollbackWith backend.transcribed order).2.cache = store.cache.forget log.entries := by
  have idle : store.finishTransaction.transaction.log = none := rfl
  obtain ⟨attempts, -, -, -, -, -, cache⟩ := undoAll_attempts backend (order.arrange log) idle
  rw [rollbackWith_of_active active, cache]
  exact ResultCache.forget_arrange order log store.cache

/-- The look-ups of the cache are what the history recalls. -/
structure Remembers (tablePrefix : String) (events : List Event)
    (store : Store (Transcribed State)) : Prop where
  agrees : Agrees tablePrefix events store
  inUse : store.cache.enabled = caching events
  recalls : ∀ table key response, store.cache.lookup? table key = some response ↔
    Recalls tablePrefix table key events response

variable {events : List Event} {store : Store (Transcribed State)}

theorem Remembers.extend (remembers : Remembers tablePrefix events store) {event : Event}
    {after : Store (Transcribed State)} (agrees : Agrees tablePrefix (events ++ [event]) after)
    (inUse : after.cache.enabled = caching (events ++ [event]))
    (lookups : ∀ table key response, after.cache.lookup? table key = some response ↔
      caching events = true ∧ event.Reads tablePrefix table key response ∨
        ¬event.Touches tablePrefix table key events ∧
          store.cache.lookup? table key = some response) :
    Remembers tablePrefix (events ++ [event]) after := by
  refine ⟨agrees, inUse, ?_⟩
  intro table key response
  rw [lookups, recalls_concat_iff, remembers.recalls]

theorem Remembers.quiet (remembers : Remembers tablePrefix events store) {event : Event}
    {after : Store (Transcribed State)} (agrees : Agrees tablePrefix (events ++ [event]) after)
    (inUse : after.cache.enabled = caching (events ++ [event]))
    (sameEntries : after.cache.entries = store.cache.entries)
    (spared : ∀ table key, ¬event.Touches tablePrefix table key events) :
    Remembers tablePrefix (events ++ [event]) after := by
  apply remembers.extend agrees inUse
  intro table key response
  have same : after.cache.lookup? table key = store.cache.lookup? table key := by
    simp only [ResultCache.lookup?, sameEntries]
  rw [same]
  constructor
  · intro found
    exact .inr ⟨spared table key, found⟩
  · rintro (read | ⟨-, found⟩)
    · exact absurd (.inr ⟨read.1, response, read.2⟩) (spared table key)
    · exact found

theorem run_lookups (backend : Backend State) (request : Request)
    (remembers : Remembers tablePrefix events store) :
    let after := (store.run backend.transcribed request).2
    after.cache.enabled = store.cache.enabled ∧
      ∀ table key response, after.cache.lookup? table key = some response ↔
        caching events = true ∧
            (store.event backend (.run request)).Reads tablePrefix table key response ∨
          ¬(store.event backend (.run request)).Touches tablePrefix table key events ∧
            store.cache.lookup? table key = some response := by
  have samePrefix := remembers.agrees.samePrefix
  have inUse := remembers.inUse
  simp only [event, perform, run]
  rcases dispatch_cases backend.transcribed
      { request with table := store.tablePrefix ++ request.table } store with
    ⟨response, -, left⟩ |
      ⟨-, ⟨error, -, left⟩ |
        ⟨prepared, ready, ⟨cause, after, answered, left⟩ | ⟨output, after, answered, left⟩⟩⟩
  · simp [left, Event.touches_run_iff, Event.reads_run_iff]
  · simp [left, Event.touches_run_iff, Event.reads_run_iff]
  · simp [left, Event.touches_run_iff, Event.reads_run_iff]
  · obtain ⟨-, written⟩ := transcribed_answer_eq_iff.mp answered
    rw [settle_eq] at left
    rw [left]
    simp only [Event.touches_run_iff, Event.reads_run_iff, written, List.drop_left, samePrefix,
      ← inUse]
    by_cases remembered : request.action = .get ∧ store.cache.enabled = true
    · simp only [if_pos remembered, ResultCache.lookup?_insert_eq]
      refine ⟨rfl, ?_⟩
      intro table key response
      by_cases sameTable : tablePrefix ++ request.table = table
      · cases request.key.same key <;> simp [sameTable, remembered]
      · simp [sameTable]
    · rw [if_neg remembered]
      refine ⟨rfl, ?_⟩
      intro table key response
      by_cases inUse : store.cache.enabled = true
      · have other : request.action ≠ .get := fun read => remembered ⟨read, inUse⟩
        simp [other]
      · simp [inUse]

theorem Agrees.exists_pending_iff (agrees : Agrees tablePrefix events store)
    {property : LoggedOperation → Prop} :
    (∃ recent, SinceStart events recent ∧
        ∃ operation ∈ recent.filterMap (Event.logged? tablePrefix), property operation) ↔
      ∃ log, store.transaction.log = some log ∧ ∃ operation ∈ log.entries, property operation := by
  constructor
  · rintro ⟨recent, since, operation, member, holds⟩
    obtain ⟨log, active, same⟩ := Option.map_eq_some_iff.mp (agrees.logged recent since).1
    exact ⟨log, active, operation, same ▸ member, holds⟩
  · rintro ⟨log, active, operation, member, holds⟩
    have begun : ∃ recent, SinceStart events recent := by
      by_contra closed
      simp [agrees.idle closed] at active
    obtain ⟨recent, since⟩ := begun
    have entries := (agrees.logged recent since).1
    rw [active, Option.map_some, Option.some.injEq] at entries
    exact ⟨recent, since, operation, entries ▸ member, holds⟩

theorem Agrees.touches_rollback_iff (agrees : Agrees tablePrefix events store) {event : Event}
    (rollback : event.command = .rollback ∨ ∃ order, event.command = .rollbackWith order) :
    event.Touches tablePrefix table key events ↔
      ∃ log, store.transaction.log = some log ∧
        ∃ operation ∈ log.entries, operation.UndoneAt table key := by
  have noClear : event.command ≠ .clearCache := by
    rcases rollback with same | ⟨order, same⟩ <;> simp [same]
  rw [← agrees.exists_pending_iff]
  simp [Event.Touches, Event.Forgets, Event.not_reads_of_rollback rollback, noClear, rollback]

theorem Remembers.rollbackWith (remembers : Remembers tablePrefix events store)
    (backend : Backend State) (order : RollbackOrder) {event : Event}
    (rollback : event.command = .rollback ∨ ∃ order, event.command = .rollbackWith order)
    (agrees : Agrees tablePrefix (events ++ [event])
      (store.rollbackWith backend.transcribed order).2) :
    Remembers tablePrefix (events ++ [event]) (store.rollbackWith backend.transcribed order).2 := by
  have sameUse : caching (events ++ [event]) = store.cache.enabled := by
    rw [caching_concat, remembers.inUse]
    rcases rollback with same | ⟨order, same⟩ <;> simp [same]
  cases active : store.transaction.log with
  | none =>
      have unchanged := rollbackWith_of_idle active backend.transcribed order
      rw [unchanged] at agrees ⊢
      apply remembers.quiet agrees sameUse.symm rfl
      intro table key
      rw [remembers.agrees.touches_rollback_iff rollback]
      simp [active]
  | some log =>
      have forgotten := rollbackWith_cache backend order active
      apply remembers.extend agrees
      · rw [forgotten, sameUse]
        rfl
      · intro table key response
        rw [forgotten, ResultCache.lookup?_forget, remembers.agrees.touches_rollback_iff rollback]
        simp [active, Event.not_reads_of_rollback rollback]

theorem Remembers.perform (remembers : Remembers tablePrefix events store)
    (backend : Backend State) (command : Command) :
    Remembers tablePrefix (events ++ [store.event backend command])
      (store.perform backend.transcribed command).2 := by
  have agrees := remembers.agrees.perform backend command
  have inUse := remembers.inUse
  cases command with
  | run request =>
      obtain ⟨sameUse, lookups⟩ := run_lookups backend request remembers
      exact remembers.extend agrees (by rw [caching_concat, ← inUse]; exact sameUse) lookups
  | rollback => exact remembers.rollbackWith backend store.rollbackOrder (.inl rfl) agrees
  | rollbackWith order => exact remembers.rollbackWith backend order (.inr ⟨order, rfl⟩) agrees
  | clearCache =>
      apply remembers.extend agrees (by rw [caching_concat]; exact inUse)
      intro table key response
      have emptied : (store.perform backend.transcribed .clearCache).2.cache.lookup? table key =
          none := rfl
      have cleared : (store.event backend .clearCache).Touches tablePrefix table key events :=
        .inl (.inl rfl)
      have unread : ¬(store.event backend .clearCache).Reads tablePrefix table key response := by
        rintro ⟨request, run, -⟩
        simp [event, Store.perform] at run
      simp [emptied, cleared, unread]
  | startTransaction =>
      exact remembers.quiet agrees (by rw [caching_concat]; exact inUse) rfl
        fun _ _ => Event.not_touches_of_leavesReads rfl
  | finishTransaction =>
      exact remembers.quiet agrees (by rw [caching_concat]; exact inUse) rfl
        fun _ _ => Event.not_touches_of_leavesReads rfl
  | cacheOn =>
      exact remembers.quiet agrees (by rw [caching_concat]; rfl) rfl
        fun _ _ => Event.not_touches_of_leavesReads rfl
  | cacheOff =>
      exact remembers.quiet agrees (by rw [caching_concat]; rfl) rfl
        fun _ _ => Event.not_touches_of_leavesReads rfl

theorem Remembers.performAll (backend : Backend State) (commands : List Command)
    (begins : Remembers tablePrefix [] store) :
    Remembers tablePrefix (store.history backend commands)
      (store.performAll backend.transcribed commands) := by
  induction commands using List.reverseRecOn with
  | nil => exact begins
  | append_singleton earlier command ih =>
      rw [history_concat, performAll_concat]
      exact ih.perform backend command

theorem Remembers.fresh (state : State) (tablePrefix : String) (order : RollbackOrder) :
    Remembers tablePrefix []
      { backendState := { inner := state }, tablePrefix, rollbackOrder := order } := by
  refine ⟨.fresh state tablePrefix order, rfl, ?_⟩
  intro table key response
  simp [ResultCache.lookup?, ResultCache.empty, Recalls]

/-- The request is run by one call to the backend, unless it has a fault of its own. -/
def RunsByCall (backend : Backend State) (request : Request)
    (store : Store (Transcribed State)) : Prop :=
  (∃ exchange, (store.run backend.transcribed request).2.backendState.exchanges =
      store.backendState.exchanges ++ [exchange]) ∨
    ∃ error, store.run backend.transcribed request = (.error error, store) ∧
      error.isBackendFailure = false

/-- A get that may be answered from the cache is, exactly if the cache is in use and has a
response for it. -/
theorem run_get_cases (backend : Backend State) {request : Request}
    (read : request.action = .get) (notLive : request.liveData = false)
    (store : Store (Transcribed State)) :
    (∃ response, store.cache.enabled = true ∧
        store.cache.lookup? (store.tablePrefix ++ request.table) request.key = some response ∧
          store.run backend.transcribed request = (.ok response, store)) ∨
      (store.cache.enabled = true →
          store.cache.lookup? (store.tablePrefix ++ request.table) request.key = none) ∧
        store.RunsByCall backend request := by
  have cached :
      store.cached? { request with table := store.tablePrefix ++ request.table } =
        if store.cache.enabled = true then
          store.cache.lookup? (store.tablePrefix ++ request.table) request.key
        else none := by
    simp [cached?, read, notLive]
  rcases dispatch_cases backend.transcribed
      { request with table := store.tablePrefix ++ request.table } store with
    ⟨response, found, left⟩ |
      ⟨missing, ⟨error, refused, left⟩ |
        ⟨prepared, ready, ⟨cause, after, answered, left⟩ | ⟨output, after, answered, left⟩⟩⟩
  · rw [cached] at found
    split at found
    · exact .inl ⟨response, ‹_›, found, left⟩
    · simp at found
  all_goals
    rw [cached] at missing
    refine .inr ⟨fun inUse => by simpa [inUse] using missing, ?_⟩
  · exact .inr ⟨error, left, Request.local_prepare _ error refused⟩
  · refine .inl ⟨⟨prepared.call, .error cause⟩, ?_⟩
    rw [run, left]
    exact (transcribed_answer_eq_iff.mp answered).2
  · refine .inl ⟨⟨prepared.call, .ok output⟩, ?_⟩
    rw [run, left]
    exact (transcribed_answer_eq_iff.mp answered).2

theorem RunsByCall.not_unchanged {backend : Backend State} {request : Request}
    (byCall : store.RunsByCall backend request) (response : Response) :
    store.run backend.transcribed request ≠ (.ok response, store) := by
  intro unchanged
  rcases byCall with ⟨exchange, grown⟩ | ⟨error, failed, -⟩
  · simp [unchanged] at grown
  · simp [unchanged] at failed

theorem Remembers.run_unchanged_iff (remembers : Remembers tablePrefix events store)
    (backend : Backend State) {request : Request} (read : request.action = .get)
    (notLive : request.liveData = false) (response : Response) :
    store.run backend.transcribed request = (.ok response, store) ↔
      caching events = true ∧
        Recalls tablePrefix (tablePrefix ++ request.table) request.key events response := by
  rw [← remembers.inUse, ← remembers.recalls, ← remembers.agrees.samePrefix]
  rcases run_get_cases backend read notLive store with
    ⟨found, inUse, held, answered⟩ | ⟨missing, byCall⟩
  · simp [answered, inUse, held]
  · simp only [byCall.not_unchanged response, false_iff, not_and]
    intro inUse held
    simp [missing inUse] at held

/-- After any commands on a fresh store, a get that does not ask for live data is answered with
the response of the last read of its table and key that was remembered and not forgotten since,
if there is one; then no call is made and nothing is logged. Otherwise it is run by one call.
A command other than a get, a clear and a rollback never changes what it is answered. To write
down the calls is no disturbance. -/
theorem get_answered_by_last_read (backend : Backend State) (state : State)
    (tablePrefix : String) (order : RollbackOrder) (commands : List Command) {request : Request}
    (read : request.action = .get) (notLive : request.liveData = false) :
    let fresh : Store (Transcribed State) :=
      { backendState := { inner := state }, tablePrefix, rollbackOrder := order }
    let events := fresh.history backend commands
    let ended := fresh.performAll backend.transcribed commands
    let ran := ended.run backend.transcribed request
    let table := tablePrefix ++ request.table
    (fresh.untranscribed.performAll backend commands = ended.untranscribed ∧
        ended.untranscribed.run backend request = (ran.1, ran.2.untranscribed)) ∧
      ended.cache.enabled = caching events ∧
      (caching events = true →
        (∀ response, Recalls tablePrefix table request.key events response →
          ran = (.ok response, ended)) ∧
        ((¬∃ response, Recalls tablePrefix table request.key events response) →
          ended.RunsByCall backend request)) ∧
      ∀ command, command.leavesReads = true → ∀ response,
        (Recalls tablePrefix table request.key (fresh.history backend (commands ++ [command]))
            response ↔
          Recalls tablePrefix table request.key events response) := by
  intro fresh events ended ran table
  have remembers : Remembers tablePrefix events ended :=
    (Remembers.fresh state tablePrefix order).performAll backend commands
  refine ⟨⟨(performAll_untranscribed backend commands fresh).1,
    dispatch_untranscribed backend _ ended⟩, remembers.inUse, ?_, ?_⟩
  · intro inUse
    have answered := remembers.run_unchanged_iff backend read notLive
    constructor
    · intro response recalled
      exact (answered response).mpr ⟨inUse, recalled⟩
    · intro forgotten
      rcases run_get_cases backend read notLive ended with ⟨found, -, -, unchanged⟩ | ⟨-, byCall⟩
      · exact absurd ⟨found, ((answered found).mp unchanged).2⟩ forgotten
      · exact byCall
  · intro command leaves response
    have spared : ∀ table key, ¬(ended.event backend command).Touches tablePrefix table key
        events := fun _ _ => Event.not_touches_of_leavesReads leaves
    rw [history_concat, recalls_concat_iff]
    constructor
    · rintro (⟨inUse, reads⟩ | ⟨-, recalled⟩)
      · exact absurd (.inr ⟨inUse, response, reads⟩) (spared table request.key)
      · exact recalled
    · intro recalled
      exact .inr ⟨spared table request.key, recalled⟩

theorem get_answered_by_last_read_of_zero :
    let read (negative : Bool) : Request :=
      { table := "notes", action := .get, key := [("id", .number (.finite (.zero negative)))] }
    let put : Request :=
      { table := "notes", key := [("id", .number (.finite (.zero false)))]
        item := [("text", .string "new")] }
    let commands : List Command := [
      .startTransaction, .run (read false), .run put, .cacheOff, .run (read false), .cacheOn,
      .finishTransaction]
    let fresh : Store (Transcribed Memory) :=
      { backendState := { inner := {} }, tablePrefix := "app-" }
    let ended := fresh.performAll Backend.memory.transcribed commands
    ended.run Backend.memory.transcribed (read true) = (.ok {}, ended) ∧
      ended.backendState.exchanges.map (·.call.operation) = [.get, .put, .get] := by
  intro read put commands fresh ended
  obtain ⟨-, -, served, -⟩ := get_answered_by_last_read Backend.memory {} "app-" .recorded commands
    (show (read true).action = .get from rfl) (show (read true).liveData = false from rfl)
  refine ⟨(served (by decide +kernel)).1 {} ?_, by decide +kernel⟩
  let started := (fresh.perform Backend.memory.transcribed .startTransaction).2
  let known := (started.perform Backend.memory.transcribed (.run (read false))).2
  have called :
      started.backendState.exchanges.length < known.backendState.exchanges.length := by
    decide +kernel
  refine ⟨[fresh.event Backend.memory .startTransaction],
    started.event Backend.memory (.run (read false)),
    known.history Backend.memory (commands.drop 2), rfl, rfl, ?_, ?_⟩
  · exact ⟨read false, rfl, rfl, rfl, rfl, rfl, by simpa [event] using called⟩
  · simp only [commands, List.drop, history, Untouched]
    exact ⟨Event.not_touches_of_leavesReads rfl, Event.not_touches_of_leavesReads rfl,
      Event.not_touches_of_unused rfl rfl, Event.not_touches_of_leavesReads rfl,
      Event.not_touches_of_leavesReads rfl, trivial⟩

end Store

end KeyedStore
