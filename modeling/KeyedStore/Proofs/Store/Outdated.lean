import KeyedStore.Proofs.Store.Recall

/-! Reads after a rollback. A rollback forgets the reads of the keys it restores, but a key may be
spelled in many ways: a field with an empty string names no other row. A get of a restored row
that was read under another spelling is answered as before the rollback. -/

namespace KeyedStore

namespace Store

variable {State : Type}

/-- A get, after any commands on a fresh store of which one is a rollback, of a row that an
operation is undone at: it is run by one call, or it is answered with a read that came after
the rollback, or the answer is outdated, a read from before it. This happens exactly if the
cache is in use, a read from before is recalled, no logged operation is undone at a key equal to
that of the get, and nothing touched the place since. Then the key is not spelled like that
which was undone: one of them has a field with an empty string. To write down the calls is no
disturbance. -/
theorem get_after_rollback_outdated_iff (backend : Backend State) (state : State)
    (tablePrefix : String) (order : RollbackOrder) (first later : List Command)
    {command : Command} {request : Request}
    (rollsBack : command = .rollback ∨ ∃ order, command = .rollbackWith order)
    (read : request.action = .get) (notLive : request.liveData = false) :
    let fresh : Store (Transcribed State) :=
      { backendState := { inner := state }, tablePrefix, rollbackOrder := order }
    let held := fresh.performAll backend.transcribed first
    let rolledBack := (held.perform backend.transcribed command).2
    let ended := rolledBack.performAll backend.transcribed later
    let ran := ended.run backend.transcribed request
    let before := fresh.history backend first
    let event := held.event backend command
    let after := rolledBack.history backend later
    let table := tablePrefix ++ request.table
    ∀ log operation undo row, held.transaction.log = some log → operation ∈ log.entries →
      operation.compensate = .ok (some undo) → undo.table = table →
        undo.key.marshal = .ok row → request.key.marshal = .ok row →
      let Outdated : Prop := ∃ response, Recalls tablePrefix table request.key before response ∧
        Untouched tablePrefix table request.key before (event :: after) ∧
          ran = (.ok response, ended)
      (fresh.untranscribed.performAll backend (first ++ command :: later) = ended.untranscribed ∧
          ended.untranscribed.run backend request = (ran.1, ran.2.untranscribed)) ∧
        (ended.RunsByCall backend request ∨
          (∃ response, RecallsSince tablePrefix table request.key (before ++ [event]) after
            response ∧ ran = (.ok response, ended)) ∨ Outdated) ∧
        (Outdated ↔ caching (before ++ event :: after) = true ∧
          (∃ response, Recalls tablePrefix table request.key before response) ∧
            (∀ operation ∈ log.entries, ¬operation.UndoneAt table request.key) ∧
              Untouched tablePrefix table request.key (before ++ [event]) after) ∧
        (Outdated → request.key ≠ undo.key ∧
          ∃ field ∈ request.key ++ undo.key, field.2 = .string "") := by
  intro fresh held rolledBack ended ran before event after table log operation undo row active
    logged compensated sameTable undoWritten written Outdated
  have begins := Remembers.fresh state tablePrefix order
  have rememberedBefore : Remembers tablePrefix before held := begins.performAll backend first
  have remembers : Remembers tablePrefix (before ++ event :: after) ended := by
    have all := begins.performAll backend (first ++ command :: later)
    rw [history_append, performAll_append] at all
    exact all
  have rolledBackBy : event.command = .rollback ∨ ∃ order, event.command = .rollbackWith order :=
    rollsBack
  have spared : ¬event.Touches tablePrefix table request.key before ↔
      ∀ operation ∈ log.entries, ¬operation.UndoneAt table request.key := by
    rw [rememberedBefore.agrees.touches_rollback_iff rolledBackBy]
    simp [active]
  have answered := remembers.run_unchanged_iff backend read notLive
  have since (response : Response) :
      RecallsSince tablePrefix table request.key before (event :: after) response ↔
        RecallsSince tablePrefix table request.key (before ++ [event]) after response := by
    rw [recallsSince_cons_iff]
    exact or_iff_right fun last => Event.not_reads_of_rollback rolledBackBy last.reads
  have outdatedIff : Outdated ↔ caching (before ++ event :: after) = true ∧
      (∃ response, Recalls tablePrefix table request.key before response) ∧
        (∀ operation ∈ log.entries, ¬operation.UndoneAt table request.key) ∧
          Untouched tablePrefix table request.key (before ++ [event]) after := by
    rw [← spared]
    constructor
    · rintro ⟨response, recalled, ⟨notTouched, untouched⟩, unchanged⟩
      exact ⟨((answered response).mp unchanged).1, ⟨response, recalled⟩, notTouched, untouched⟩
    · rintro ⟨inUse, ⟨response, recalled⟩, notTouched, untouched⟩
      exact ⟨response, recalled, ⟨notTouched, untouched⟩, (answered response).mpr
        ⟨inUse, recalls_append_iff.mpr (.inl ⟨recalled, notTouched, untouched⟩)⟩⟩
  refine ⟨⟨?_, dispatch_untranscribed backend _ ended⟩, ?_, outdatedIff, ?_⟩
  · rw [(performAll_untranscribed backend _ fresh).1, performAll_append]
    rfl
  · rcases run_get_cases backend read notLive ended with ⟨found, -, -, unchanged⟩ | ⟨-, byCall⟩
    · rcases recalls_append_iff.mp ((answered found).mp unchanged).2 with
        ⟨recalled, untouched⟩ | recalled
      · exact .inr (.inr ⟨found, recalled, untouched, unchanged⟩)
      · exact .inr (.inl ⟨found, (since found).mp recalled, unchanged⟩)
    · exact .inl byCall
  · intro outdated
    obtain ⟨-, -, notUndone, -⟩ := outdatedIff.mp outdated
    have different : request.key ≠ undo.key := by
      intro sameKey
      refine notUndone operation logged ⟨undo, compensated, sameTable, ?_⟩
      rw [sameKey]
      exact Item.same_self_of_marshal undoWritten
    refine ⟨different, ?_⟩
    -- keys written as one row are the same but for the empty texts that a row leaves out
    by_contra filled
    exact different (Item.eq_of_marshal written undoWritten fun field member empty =>
      filled ⟨field, member, empty⟩)

/-- A deleted row was read as missing under its key with an empty label. After the rollback the
get with the label still finds nothing, and the one without it finds the row. -/
theorem get_after_rollback_outdated_iff_of_empty_label :
    let labeled : Item := [("id", .string "a"), ("label", .string "")]
    let put : Request :=
      { table := "notes", key := [("id", .string "a")], item := [("text", .string "old")] }
    let read (key : Item) : Request := { table := "notes", action := .get, key }
    let commands : List Command := [
      .run put, .startTransaction, .run { put with action := .delete }, .run (read labeled)]
    let fresh : Store (Transcribed Memory) := { backendState := { inner := {} } }
    let held := fresh.performAll Backend.memory.transcribed commands
    let ended := (held.perform Backend.memory.transcribed .rollback).2
    (∃ response, ended.run Backend.memory.transcribed (read labeled) = (.ok response, ended) ∧
        response.items = []) ∧
      (ended.run Backend.memory.transcribed (read put.key)).1.toOption.map (·.items) =
        some [[("id", .string "a"), ("text", .string "old")]] := by
  intro labeled put read commands fresh held ended
  let operation : LoggedOperation :=
    ⟨{ put with action := .delete, returnValues := .allOld },
      { attributes := some [("id", .string "a"), ("text", .string "old")] }⟩
  let entries := [operation, ⟨read labeled, {}⟩]
  have active : held.transaction.log = some ⟨⟨0⟩, entries⟩ := rfl
  have undone : operation.compensate =
      .ok (some { put with item := [("id", .string "a"), ("text", .string "old")] }) := rfl
  have notUndone : ∀ operation ∈ entries, ¬operation.UndoneAt "notes" labeled := by
    simp only [LoggedOperation.undoneAt_iff]
    decide +kernel
  have remembers := (Remembers.fresh {} "" .recorded).performAll Backend.memory commands
  have known : (held.cache.lookup? "notes" labeled).isSome = true := by decide +kernel
  obtain ⟨missing, lookedUp⟩ := Option.isSome_iff_exists.mp known
  obtain ⟨-, -, outdatedIff, -⟩ := get_after_rollback_outdated_iff Backend.memory {} "" .recorded
    commands [] (.inl rfl) (show (read labeled).action = .get from rfl) rfl _ _ _ _ active
    (List.mem_cons_self ..) undone rfl rfl rfl
  obtain ⟨response, -, -, unchanged⟩ :=
    outdatedIff.mpr ⟨by decide +kernel, ⟨missing, (remembers.recalls _ _ _).mp lookedUp⟩,
      notUndone, trivial⟩
  have unchanged : ended.run Backend.memory.transcribed (read labeled) = (.ok response, ended) :=
    unchanged
  have nothing : (ended.run Backend.memory.transcribed (read labeled)).1.toOption.map (·.items) =
      some [] := by decide +kernel
  rw [unchanged] at nothing
  exact ⟨⟨response, unchanged, Option.some.inj nothing⟩, by decide +kernel⟩

end Store

end KeyedStore
