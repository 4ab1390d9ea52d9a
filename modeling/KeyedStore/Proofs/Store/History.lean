import KeyedStore.Proofs.Backend.Transcript

/-! Histories of a store: what a caller asked, what it was told, and which calls that took.
At any time the log of the transaction can be read off the history: it is what was answered
by a call since the last start. -/

namespace KeyedStore

inductive Command where
  | run (request : Request)
  | startTransaction
  | finishTransaction
  | rollback
  | rollbackWith (order : RollbackOrder)
  | clearCache
  | cacheOn
  | cacheOff

def Command.isBoundary : Command → Bool
  | startTransaction => true
  | finishTransaction => true
  | rollback => true
  | rollbackWith _ => true
  | _ => false

inductive Command.Reply where
  | answered (outcome : Except StoreError Response)
  | rolledBack (errors : List StoreError)
  | done

structure Event where
  command : Command
  reply : Command.Reply
  exchanges : List Exchange

def Request.asLogged (tablePrefix : String) (request : Request) : Request :=
  { request with
    table := tablePrefix ++ request.table
    returnValues :=
      if request.action = .update ∨ request.action = .delete then .allOld
      else request.returnValues }

/-- What an event leaves in the log: nothing, unless a call was made for a request and the
request was answered. -/
def Event.logged? (tablePrefix : String) (event : Event) : Option LoggedOperation :=
  match event.command, event.reply, event.exchanges with
  | .run request, .answered (.ok response), _ :: _ =>
      some ⟨request.asLogged tablePrefix, response⟩
  | _, _, _ => none

/-- The entry is of the one call that the event made, and the call asked for the old values
where an update or a delete is to be undone. -/
def Event.Justifies (event : Event) (entry : LoggedOperation) : Prop :=
  ∃ exchange, event.exchanges = [exchange] ∧ exchange.call.Carries entry.request ∧
    (entry.request.action = .update ∨ entry.request.action = .delete →
      exchange.call.returnValues? = some .allOld)

/-- The last event that begins or ends a transaction is a start, and these came after it. -/
def SinceStart (events recent : List Event) : Prop :=
  ∃ earlier start, events = earlier ++ start :: recent ∧ start.command = .startTransaction ∧
    ∀ event ∈ recent, event.command.isBoundary = false

namespace Store

variable {State : Type}

def perform (backend : Backend State) (command : Command) (store : Store State) :
    Command.Reply × Store State :=
  match command with
  | .run request =>
      let (outcome, store) := store.run backend request
      (.answered outcome, store)
  | .startTransaction => (.done, store.startTransaction)
  | .finishTransaction => (.done, store.finishTransaction)
  | .rollback =>
      let (errors, store) := store.rollback backend
      (.rolledBack errors, store)
  | .rollbackWith order =>
      let (errors, store) := store.rollbackWith backend order
      (.rolledBack errors, store)
  | .clearCache => (.done, store.clearCache)
  | .cacheOn => (.done, store.cacheOn)
  | .cacheOff => (.done, store.cacheOff)

def performAll (backend : Backend State) (commands : List Command) (store : Store State) :
    Store State :=
  commands.foldl (fun store command => (store.perform backend command).2) store

def replies (backend : Backend State) : List Command → Store State → List Command.Reply
  | [], _ => []
  | command :: rest, store =>
      (store.perform backend command).1 ::
        replies backend rest (store.perform backend command).2

def event (backend : Backend State) (command : Command) (store : Store (Transcribed State)) :
    Event :=
  let (reply, after) := store.perform backend.transcribed command
  { command, reply
    exchanges := after.backendState.exchanges.drop store.backendState.exchanges.length }

def history (backend : Backend State) : List Command → Store (Transcribed State) → List Event
  | [], _ => []
  | command :: rest, store =>
      store.event backend command ::
        history backend rest (store.perform backend.transcribed command).2

theorem history_append (backend : Backend State) (front back : List Command)
    (store : Store (Transcribed State)) :
    store.history backend (front ++ back) =
      store.history backend front ++
        (store.performAll backend.transcribed front).history backend back := by
  induction front generalizing store with
  | nil => rfl
  | cons first rest ih =>
      simp only [List.cons_append, history, ih, performAll, List.foldl_cons]

theorem history_concat (backend : Backend State) (commands : List Command) (command : Command)
    (store : Store (Transcribed State)) :
    store.history backend (commands ++ [command]) =
      store.history backend commands ++
        [(store.performAll backend.transcribed commands).event backend command] :=
  history_append backend commands [command] store

theorem performAll_append (backend : Backend State) (front back : List Command)
    (store : Store State) :
    store.performAll backend (front ++ back) =
      (store.performAll backend front).performAll backend back := by
  simp [performAll]

theorem performAll_concat (backend : Backend State) (commands : List Command)
    (command : Command) (store : Store State) :
    store.performAll backend (commands ++ [command]) =
      ((store.performAll backend commands).perform backend command).2 :=
  performAll_append backend commands [command] store

end Store

theorem sinceStart_concat_iff {events recent : List Event} {event : Event} :
    SinceStart (events ++ [event]) recent ↔
      event.command = .startTransaction ∧ recent = [] ∨
        event.command.isBoundary = false ∧
          ∃ before, recent = before ++ [event] ∧ SinceStart events before := by
  constructor
  · rintro ⟨earlier, start, split, started, inside⟩
    rcases List.eq_nil_or_concat recent with empty | ⟨before, last, shape⟩
    · subst empty
      obtain ⟨-, same⟩ := List.append_inj' split rfl
      exact .inl ⟨(List.cons.inj same).1 ▸ started, rfl⟩
    · subst shape
      have regrouped : events ++ [event] = (earlier ++ start :: before) ++ [last] := by
        simpa using split
      obtain ⟨front, same⟩ := List.append_inj' regrouped rfl
      have isLast : event = last := (List.cons.inj same).1
      subst isLast
      refine .inr ⟨inside event (by simp), before, by simp, earlier, start, front, started, ?_⟩
      intro other member
      exact inside other (by simp [member])
  · rintro (⟨started, empty⟩ | ⟨inner, before, shape, earlier, start, split, started, inside⟩)
    · exact ⟨events, event, by rw [empty], started, by simp [empty]⟩
    · refine ⟨earlier, start, by simp [split, shape], started, ?_⟩
      intro other member
      rw [shape, List.mem_append, List.mem_singleton] at member
      rcases member with within | last
      · exact inside other within
      · exact last ▸ inner

namespace Store

variable {State : Type}

theorem asSent_eq_asLogged {store : Store State} (active : store.transaction.isActive = true)
    (request : Request) :
    store.asSent { request with table := store.tablePrefix ++ request.table } =
      request.asLogged store.tablePrefix := by
  unfold asSent Request.asLogged
  by_cases write : request.action = .update ∨ request.action = .delete
  · simp [active, write]
  · simp [write]

/-- A request adds its entry to the log of a transaction, and nothing while there is none. -/
theorem run_logs (backend : Backend State) (request : Request)
    (store : Store (Transcribed State)) :
    ((store.run backend.transcribed request).2.transaction.log.map (·.entries) =
      store.transaction.log.map fun log =>
        log.entries ++ ((store.event backend (.run request)).logged? store.tablePrefix).toList) ∧
      (store.transaction.isActive = true →
        ∀ entry, (store.event backend (.run request)).logged? store.tablePrefix = some entry →
          (store.event backend (.run request)).Justifies entry) := by
  simp only [event, perform, run]
  rcases dispatch_cases backend.transcribed
      { request with table := store.tablePrefix ++ request.table } store with
    ⟨response, -, left⟩ |
      ⟨-, ⟨error, -, left⟩ |
        ⟨prepared, ready, ⟨cause, after, answered, left⟩ | ⟨output, after, answered, left⟩⟩⟩
  · simp [left, Event.logged?]
  · simp [left, Event.logged?]
  · simp [left, Event.logged?]
  · obtain ⟨-, written⟩ := transcribed_answer_eq_iff.mp answered
    cases active : store.transaction.log with
    | none => simp [left, settle, Transaction.record, Transaction.isActive, active]
    | some log =>
        have isActive : store.transaction.isActive = true := by
          simp [Transaction.isActive, active]
        have sent := asSent_eq_asLogged isActive request
        rw [sent] at ready
        have carries := carries_of_prepare ready
        have entry : ∀ reply, Event.logged? store.tablePrefix
            ⟨.run request, .answered (.ok reply), [⟨prepared.call, .ok output⟩]⟩ =
              some ⟨request.asLogged store.tablePrefix, reply⟩ := fun _ => rfl
        rw [left]
        simp only [settle, Transaction.record, active, Option.map_some, written, sent,
          List.drop_left, entry, Option.toList_some, Option.some.injEq, forall_eq', true_and]
        intro _
        refine ⟨_, rfl, carries, ?_⟩
        intro write
        rw [carries.returnValues write]
        exact congrArg some (if_pos write)

theorem dispatch_keeps (backend : Backend State) (request : Request) (store : Store State) :
    (store.dispatch backend request).2.tablePrefix = store.tablePrefix ∧
      (store.transaction.log = none →
        (store.dispatch backend request).2.transaction.log = none) := by
  rcases dispatch_cases backend request store with
    ⟨response, -, left⟩ |
      ⟨-, ⟨error, -, left⟩ |
        ⟨prepared, -, ⟨cause, after, -, left⟩ | ⟨output, after, -, left⟩⟩⟩
  · simp [left]
  · simp [left]
  · simp [left]
  · simp [left, settle, Transaction.record]

theorem undo_keeps (backend : Backend State) (operation : LoggedOperation)
    (store : Store State) :
    (store.undo backend operation).2.tablePrefix = store.tablePrefix ∧
      (store.transaction.log = none →
        (store.undo backend operation).2.transaction.log = none) := by
  cases compensated : operation.compensate with
  | error error => simp [undo_error compensated]
  | ok undo =>
      cases undo with
      | none => simp [undo_none compensated]
      | some request =>
          rw [undo_eq_dispatch compensated]
          exact dispatch_keeps backend request
            { store with cache := store.cache.evict request.table request.key }

theorem undoAll_keeps (backend : Backend State) (operations : List LoggedOperation)
    (store : Store State) :
    (store.undoAll backend operations).2.tablePrefix = store.tablePrefix ∧
      (store.transaction.log = none →
        (store.undoAll backend operations).2.transaction.log = none) := by
  induction operations generalizing store with
  | nil => simp [undoAll]
  | cons operation rest ih =>
      obtain ⟨samePrefix, idle⟩ := undo_keeps backend operation store
      simp only [undoAll]
      split
      · rename_i undone
        rw [undone] at samePrefix idle
        exact ⟨(ih _).1.trans samePrefix, fun none => (ih _).2 (idle none)⟩
      · rename_i undone
        rw [undone] at samePrefix idle
        exact ⟨(ih _).1.trans samePrefix, fun none => (ih _).2 (idle none)⟩

theorem rollbackWith_keeps (backend : Backend State) (order : RollbackOrder)
    (store : Store State) :
    (store.rollbackWith backend order).2.tablePrefix = store.tablePrefix ∧
      (store.rollbackWith backend order).2.transaction.log = none := by
  unfold rollbackWith
  split
  · rename_i idle
    exact ⟨rfl, idle⟩
  · rename_i log _
    obtain ⟨samePrefix, idle⟩ := undoAll_keeps backend (order.arrange log) store.finishTransaction
    exact ⟨samePrefix, idle rfl⟩

/-- The log holds what the history says was answered since the last start. -/
structure Agrees (tablePrefix : String) (events : List Event)
    (store : Store (Transcribed State)) : Prop where
  samePrefix : store.tablePrefix = tablePrefix
  idle : (¬∃ recent, SinceStart events recent) → store.transaction.log = none
  logged : ∀ recent, SinceStart events recent →
    store.transaction.log.map (·.entries) =
      some (recent.filterMap (Event.logged? tablePrefix)) ∧
        ∀ event ∈ recent, ∀ entry, event.logged? tablePrefix = some entry →
          event.Justifies entry

variable {tablePrefix : String} {events : List Event} {store : Store (Transcribed State)}

theorem Agrees.fresh (state : State) (tablePrefix : String) (order : RollbackOrder) :
    Agrees tablePrefix []
      { backendState := { inner := state }, tablePrefix, rollbackOrder := order } := by
  refine ⟨rfl, fun _ => rfl, ?_⟩
  rintro recent ⟨earlier, start, split, -⟩
  simp at split

theorem Agrees.start (agrees : Agrees tablePrefix events store) (backend : Backend State) :
    Agrees tablePrefix (events ++ [store.event backend .startTransaction])
      store.startTransaction := by
  have started : (store.event backend .startTransaction).command = .startTransaction := rfl
  refine ⟨agrees.samePrefix, ?_, ?_⟩
  · intro closed
    exact absurd ⟨[], sinceStart_concat_iff.mpr (.inl ⟨started, rfl⟩)⟩ closed
  · intro recent since
    rcases sinceStart_concat_iff.mp since with ⟨-, empty⟩ | ⟨inner, -⟩
    · subst empty
      exact ⟨rfl, by simp⟩
    · simp [started, Command.isBoundary] at inner

theorem Agrees.finish {event : Event} {after : Store (Transcribed State)}
    (samePrefix : after.tablePrefix = tablePrefix) (idle : after.transaction.log = none)
    (boundary : event.command.isBoundary = true) (other : event.command ≠ .startTransaction) :
    Agrees tablePrefix (events ++ [event]) after := by
  refine ⟨samePrefix, fun _ => idle, ?_⟩
  intro recent since
  rcases sinceStart_concat_iff.mp since with ⟨started, -⟩ | ⟨inner, -⟩
  · exact absurd started other
  · simp [boundary] at inner

theorem Agrees.extend (agrees : Agrees tablePrefix events store) {event : Event}
    {after : Store (Transcribed State)} (samePrefix : after.tablePrefix = store.tablePrefix)
    (inner : event.command.isBoundary = false)
    (log : after.transaction.log.map (·.entries) =
      store.transaction.log.map fun log => log.entries ++ (event.logged? tablePrefix).toList)
    (justified : store.transaction.isActive = true →
      ∀ entry, event.logged? tablePrefix = some entry → event.Justifies entry) :
    Agrees tablePrefix (events ++ [event]) after := by
  have noStart : event.command ≠ .startTransaction := by
    intro started
    simp [started, Command.isBoundary] at inner
  refine ⟨samePrefix.trans agrees.samePrefix, ?_, ?_⟩
  · intro closed
    have idle := agrees.idle fun ⟨recent, since⟩ =>
      closed ⟨recent ++ [event], sinceStart_concat_iff.mpr (.inr ⟨inner, recent, rfl, since⟩)⟩
    simpa [idle] using log
  · intro recent since
    rcases sinceStart_concat_iff.mp since with ⟨started, -⟩ | ⟨-, before, shape, earlier⟩
    · exact absurd started noStart
    · obtain ⟨entries, allJustified⟩ := agrees.logged before earlier
      obtain ⟨held, active, same⟩ := Option.map_eq_some_iff.mp entries
      subst shape
      constructor
      · rw [log, active, Option.map_some, same, List.filterMap_append]
        cases entry : event.logged? tablePrefix <;> simp [entry]
      · intro other member entry found
        rcases List.mem_append.mp member with within | last
        · exact allJustified other within entry found
        · rw [List.mem_singleton.mp last] at found ⊢
          exact justified (by simp [Transaction.isActive, active]) entry found

theorem Agrees.perform (agrees : Agrees tablePrefix events store) (backend : Backend State)
    (command : Command) :
    Agrees tablePrefix (events ++ [store.event backend command])
      (store.perform backend.transcribed command).2 := by
  cases command with
  | startTransaction => exact agrees.start backend
  | finishTransaction => exact .finish agrees.samePrefix rfl rfl (by simp [event, Store.perform])
  | rollback =>
      obtain ⟨samePrefix, idle⟩ :=
        rollbackWith_keeps backend.transcribed store.rollbackOrder store
      exact .finish (samePrefix.trans agrees.samePrefix) idle rfl
        (by simp [event, Store.perform])
  | rollbackWith order =>
      obtain ⟨samePrefix, idle⟩ := rollbackWith_keeps backend.transcribed order store
      exact .finish (samePrefix.trans agrees.samePrefix) idle rfl
        (by simp [event, Store.perform])
  | run request =>
      obtain ⟨log, justified⟩ := run_logs backend request store
      rw [agrees.samePrefix] at log justified
      exact agrees.extend (dispatch_keeps backend.transcribed _ store).1 rfl log justified
  | clearCache =>
      have none : (store.event backend .clearCache).logged? tablePrefix = none := rfl
      exact agrees.extend rfl rfl (by simp [none, Store.perform, clearCache]) (by simp [none])
  | cacheOn =>
      have none : (store.event backend .cacheOn).logged? tablePrefix = none := rfl
      exact agrees.extend rfl rfl (by simp [none, Store.perform, cacheOn]) (by simp [none])
  | cacheOff =>
      have none : (store.event backend .cacheOff).logged? tablePrefix = none := rfl
      exact agrees.extend rfl rfl (by simp [none, Store.perform, cacheOff]) (by simp [none])

theorem Agrees.performAll (backend : Backend State) (commands : List Command)
    (begins : Agrees tablePrefix [] store) :
    Agrees tablePrefix (store.history backend commands)
      (store.performAll backend.transcribed commands) := by
  induction commands using List.reverseRecOn with
  | nil => exact begins
  | append_singleton earlier command ih =>
      rw [history_concat, performAll_concat]
      exact ih.perform backend command

theorem perform_untranscribed (backend : Backend State) (command : Command)
    (store : Store (Transcribed State)) :
    store.untranscribed.perform backend command =
      ((store.perform backend.transcribed command).1,
        (store.perform backend.transcribed command).2.untranscribed) := by
  cases command with
  | run request =>
      have dispatched := dispatch_untranscribed backend
        { request with table := store.tablePrefix ++ request.table } store
      exact congrArg (fun left => (Command.Reply.answered left.1, left.2)) dispatched
  | rollback =>
      have undone := rollbackWith_untranscribed backend store.rollbackOrder store
      exact congrArg (fun left => (Command.Reply.rolledBack left.1, left.2)) undone
  | rollbackWith order =>
      have undone := rollbackWith_untranscribed backend order store
      exact congrArg (fun left => (Command.Reply.rolledBack left.1, left.2)) undone
  | _ => rfl

theorem performAll_untranscribed (backend : Backend State) (commands : List Command)
    (store : Store (Transcribed State)) :
    store.untranscribed.performAll backend commands =
        (store.performAll backend.transcribed commands).untranscribed ∧
      store.untranscribed.replies backend commands =
        (store.history backend commands).map (·.reply) := by
  induction commands generalizing store with
  | nil => exact ⟨rfl, rfl⟩
  | cons command rest ih =>
      obtain ⟨sameStore, sameReplies⟩ := ih (store.perform backend.transcribed command).2
      simp only [Store.performAll, List.foldl_cons] at sameStore ⊢
      simp only [replies, history, List.map_cons, perform_untranscribed, sameStore, sameReplies]
      exact ⟨trivial, rfl⟩

/-- After any commands on a fresh store, a transaction is active exactly if a start was the
last to bound one, its log is the requests that a call answered since, in their order, and
no log is kept while operations are undone. To write down the calls is no disturbance. -/
theorem transaction_log_eq_answered (backend : Backend State) (state : State)
    (tablePrefix : String) (order : RollbackOrder) (commands : List Command) :
    let fresh : Store (Transcribed State) :=
      { backendState := { inner := state }, tablePrefix, rollbackOrder := order }
    let events := fresh.history backend commands
    let ended := fresh.performAll backend.transcribed commands
    (fresh.untranscribed.performAll backend commands = ended.untranscribed ∧
        fresh.untranscribed.replies backend commands = events.map (·.reply)) ∧
      (ended.transaction.isActive = true ↔ ∃ recent, SinceStart events recent) ∧
      (∀ recent, SinceStart events recent →
        ended.transaction.log.map (·.entries) =
          some (recent.filterMap (Event.logged? tablePrefix)) ∧
            ∀ event ∈ recent, ∀ entry, event.logged? tablePrefix = some entry →
              event.Justifies entry) ∧
      ∀ undone,
        (ended.finishTransaction.undoAll backend.transcribed undone).2.transaction.log =
          none := by
  intro fresh events ended
  have agrees : Agrees tablePrefix events ended :=
    (Agrees.fresh state tablePrefix order).performAll backend commands
  refine ⟨performAll_untranscribed backend commands fresh, ?_, agrees.logged, ?_⟩
  · constructor
    · intro active
      by_contra closed
      simp [Transaction.isActive, agrees.idle closed] at active
    · rintro ⟨recent, since⟩
      obtain ⟨log, held, -⟩ := Option.map_eq_some_iff.mp (agrees.logged recent since).1
      simp [Transaction.isActive, held]
  · intro undone
    exact (undoAll_keeps backend.transcribed undone ended.finishTransaction).2 rfl

end Store

end KeyedStore
