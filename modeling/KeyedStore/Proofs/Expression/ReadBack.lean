import KeyedStore.Proofs.Expression.Freshness
import KeyedStore.Proofs.Expression.Reader
import KeyedStore.Proofs.Expression.Validity

/-! Update expressions lose nothing: the text of one, with its aliases looked up in the
tables, gives back the path and the value of every update it was compiled from. The aliases
can be looked up because they are fresh, so the tables at the end still hold each binding,
and their texts can be told apart because no alias holds a character of the syntax. -/

namespace KeyedStore

theorem plain_segmentAlias (path place : Nat) : Plain (Aliases.segmentAlias path place).toList := by
  rw [Aliases.toList_segmentAlias]
  have name : Plain "ename".toList := by simp [Plain, syntaxMarks]
  have mark : Plain ['#'] := by simp [Plain, syntaxMarks]
  exact mark.append ((plain_naturalText path).append (name.append (plain_naturalText place)))

theorem plain_valueAlias (number : Nat) : Plain (Aliases.valueAlias number).toList := by
  rw [Aliases.toList_valueAlias]
  have name : Plain ":val".toList := by simp [Plain, syntaxMarks]
  exact name.append (plain_naturalText number)

theorem plain_of_mem_segmentSteps {number place : Nat} {segments : List String} {step : Step}
    (member : step ∈ segmentSteps number place segments) : step.Plain := by
  rcases mem_segmentSteps member with ⟨later, rfl⟩ | ⟨digits, position, rfl⟩
  · exact plain_segmentAlias number later
  · exact .of_isDigit (List.all_eq_true.mp position)

theorem readable_segmentSteps {segments : List String} (admitted : Admits segments)
    (number : Nat) : Readable (segmentSteps number 0 segments) := by
  refine ⟨?_, fun step => plain_of_mem_segmentSteps⟩
  cases segments with
  | nil => exact admitted.elim
  | cons first rest =>
      obtain ⟨-, name, notPosition, -⟩ := admitted
      rw [segmentSteps, if_neg name, notPosition]
      exact ⟨_, _, rfl⟩

def segmentStep (segment : String) : Step :=
  if isPosition segment then .position segment else .name segment

namespace Aliases

def resolveStep? (aliases : Aliases) : Step → Option Step
  | .name label => (aliases.names.get? label).map Step.name
  | .position digits => some (.position digits)

def resolvePath? (aliases : Aliases) (steps : List Step) : Option (List Step) :=
  steps.mapM aliases.resolveStep?

def resolveAssignment? (aliases : Aliases) (assignment : List Step × String) :
    Option (List Step × Attribute) := do
  let target ← aliases.resolvePath? assignment.1
  let content ← aliases.values.get? assignment.2
  return (target, content)

theorem resolvePath?_append_position {aliases : Aliases} {steps target : List Step}
    (resolved : aliases.resolvePath? steps = some target) (digits : String) :
    aliases.resolvePath? (steps ++ [.position digits]) = some (target ++ [.position digits]) := by
  simp only [resolvePath?] at resolved ⊢
  simp [resolved, resolveStep?]

theorem resolveAssignment?_eq_some {aliases : Aliases} {steps target : List Step}
    {label : String} {content : Attribute} (resolved : aliases.resolvePath? steps = some target)
    (held : aliases.values.get? label = some content) :
    aliases.resolveAssignment? (steps, label) = some (target, content) := by
  simp [resolveAssignment?, resolved, held]

end Aliases

/-- The assignments and removals of a text, all aliases looked up in the tables. -/
def readBack? (text : String) (aliases : Aliases) :
    Option (List (List Step × Attribute) × List (List Step)) := do
  let (assigned, removed) ← UpdateReader.read? text
  let assignments ← assigned.mapM aliases.resolveAssignment?
  let removals ← removed.mapM aliases.resolvePath?
  return (assignments, removals)

namespace Update

def steps (update : Update) : List Step :=
  update.target.map segmentStep

def assignments : Nat → List Update → List (List Step × Except MarshalError Attribute)
  | _, [] => []
  | count, update :: rest =>
      if update.action = .delete then assignments count rest
      else if update.appends then
        (update.steps ++ [.position (numberedText (999000 + count))], update.value.marshal) ::
          assignments (count + 1) rest
      else (update.steps, update.value.marshal) :: assignments count rest

def removals (updates : List Update) : List (List Step) :=
  (updates.filter fun update => update.action = .delete).map steps

end Update

theorem resolvePath?_segmentSteps {segments : List String} (admitted : AdmitsRest segments)
    (number : Nat) {place : Nat} (begun : place ≠ 0 ∨ Admits segments) {tables : Aliases}
    (held : ∀ mint ∈ segmentMints number place segments, tables.Holds mint) :
    tables.resolvePath? (segmentSteps number place segments) =
      some ((dropMarker segments).map segmentStep) := by
  apply mapM_segmentSteps admitted begun
  · intro segment member position
    simp [Aliases.resolveStep?, segmentStep, position]
  · intro label segment bound name
    have found := held _ bound
    rw [Aliases.Holds] at found
    simp [Aliases.resolveStep?, found, segmentStep, name]

namespace Update

theorem marshal_of_assigned {update : Update} {encoded : Attribute}
    (assigned : update.assigned = .ok encoded) : update.value.marshal = .ok encoded := by
  unfold Update.assigned at assigned
  split at assigned
  · simp at assigned
  · split at assigned
    · rename_i content marshaled
      rw [marshaled, Except.ok.inj assigned]
    · simp at assigned

theorem clause_reads_back {update : Update} {number : Nat} {aliases after tables : Aliases}
    {clause : UpdateClause} (compiled : update.compile number aliases = (.ok clause, after))
    (held : ∀ mint ∈ update.mints number aliases, tables.Holds mint) :
    ∃ steps, Readable steps ∧ tables.resolvePath? steps = some update.steps ∧
      (update.action = .delete ∧ clause = .remove steps ∨
        update.action ≠ .delete ∧ ∃ label content, clause = .assign ⟨steps, update.appends⟩ label ∧
          Plain label.toList ∧ tables.values.get? label = some content ∧
          update.value.marshal = .ok content) := by
  obtain ⟨admitted, action⟩ := compile_cases compiled
  simp only [mints, compilePath_of_admits admitted] at held
  obtain ⟨pathHeld, valueHeld⟩ := List.forall_mem_append.mp held
  refine ⟨segmentSteps number 0 (pathSegments update.path), readable_segmentSteps admitted number,
    resolvePath?_segmentSteps admitted.admitsRest number (.inr admitted) pathHeld, ?_⟩
  rcases action with ⟨removal, -, rfl, -⟩ | ⟨assigning, encoded, assigned, rfl, -⟩
  · exact .inl ⟨removal, rfl⟩
  · refine .inr ⟨assigning, _, encoded, rfl, plain_valueAlias _, ?_, marshal_of_assigned assigned⟩
    simpa [valueMints, assigning, assigned, Aliases.Holds] using valueHeld

theorem clauses_read_back {updates : List Update} {number : Nat}
    {aliases after tables : Aliases} {clauses : List UpdateClause}
    (compiled : compileAll number updates aliases = (.ok clauses, after))
    (held : ∀ mint ∈ mintsAll number updates aliases, tables.Holds mint) (count : Nat) :
    (∀ clause ∈ clauses, clause.Readable) ∧
      (∃ assigned,
        (UpdateClause.assignments count clauses).mapM tables.resolveAssignment? = some assigned ∧
          assigned.map (fun entry => (entry.1, Except.ok entry.2)) = assignments count updates) ∧
      (UpdateClause.removals clauses).mapM tables.resolvePath? = some (removals updates) := by
  -- the aliases are looked up in the tables at the end, which stay fixed along the list
  induction updates generalizing number aliases clauses count with
  | nil =>
      simp only [compileAll, Prod.mk.injEq, Except.ok.injEq] at compiled
      rw [← compiled.1]
      exact ⟨by simp, ⟨[], rfl, rfl⟩, rfl⟩
  | cons update rest ih =>
      obtain ⟨clause, next, others, first, later, rfl⟩ := compileAll_cons_ok compiled
      simp only [mintsAll, first] at held
      obtain ⟨ownHeld, restHeld⟩ := List.forall_mem_append.mp held
      obtain ⟨steps, readable, resolved, action⟩ := clause_reads_back first ownHeld
      rcases action with ⟨removal, rfl⟩ | ⟨assigning, label, content, rfl, plain, value, marshaled⟩
      · obtain ⟨restReadable, ⟨assigned, reads, asked⟩, removed⟩ := ih later restHeld count
        refine ⟨List.forall_mem_cons.mpr ⟨readable, restReadable⟩, ⟨assigned, reads, ?_⟩, ?_⟩
        · rw [asked, assignments, if_pos removal]
        · simp [UpdateClause.removals, resolved, removed, removals, removal]
      · have unremoved : removals (update :: rest) = removals rest := by
          simp [removals, assigning]
        rw [unremoved]
        by_cases append : update.appends = true
        · obtain ⟨restReadable, ⟨assigned, reads, asked⟩, removed⟩ := ih later restHeld (count + 1)
          refine ⟨List.forall_mem_cons.mpr ⟨⟨readable, plain⟩, restReadable⟩, ?_, removed⟩
          have position := Aliases.resolvePath?_append_position resolved
            (numberedText (firstAppendPosition + count))
          refine ⟨(update.steps ++ [.position (numberedText (firstAppendPosition + count))],
            content) :: assigned, ?_, ?_⟩
          · rw [UpdateClause.assignments, if_pos append, List.mapM_cons, reads,
              Aliases.resolveAssignment?_eq_some position value]
            rfl
          · simp [assignments, assigning, append, asked, marshaled, firstAppendPosition]
        · obtain ⟨restReadable, ⟨assigned, reads, asked⟩, removed⟩ := ih later restHeld count
          refine ⟨List.forall_mem_cons.mpr ⟨⟨readable, plain⟩, restReadable⟩, ?_, removed⟩
          refine ⟨(update.steps, content) :: assigned, ?_, ?_⟩
          · rw [UpdateClause.assignments, if_neg append, List.mapM_cons, reads,
              Aliases.resolveAssignment?_eq_some resolved value]
            rfl
          · simp [assignments, assigning, append, asked, marshaled]

end Update

/-- Updates compiled from empty tables succeed exactly when there are some and all of them are
valid. The text then reads back, through the tables, as an assignment for every update that
is no removal, with its path and its value, the n-th append at position 999000 + n, and as
a removal for every other one; and otherwise the first update that is not valid decides the
error. -/
theorem compileUpdates_loses_nothing (updates : List Update) :
    ((∃ text tables, compileUpdates updates .empty = (.ok text, tables)) ↔
        updates ≠ [] ∧ ∀ update ∈ updates, update.Valid) ∧
      match compileUpdates updates .empty with
      | (.ok text, tables) =>
          ∃ assigned, readBack? text tables = some (assigned, Update.removals updates) ∧
            assigned.map (fun entry => (entry.1, Except.ok entry.2)) =
              Update.assignments 0 updates
      | (.error error, _) =>
          updates = [] ∧ error = .noUpdates ∨
            ∃ front update back, updates = front ++ update :: back ∧
              (∀ earlier ∈ front, earlier.Valid) ∧ ¬update.Valid ∧ update.Offends error := by
  refine ⟨?_, ?_⟩
  · rw [exists_compileUpdates_iff]
    simp only [Update.valid_iff_accepted]
  · cases updates with
    | nil => exact .inl ⟨rfl, rfl⟩
    | cons update rest =>
        have written := Update.compileAll_tables 0 (update :: rest) .empty
        have fresh := (Update.fresh_mintsAll 0 (update :: rest) Aliases.numbered_empty).1
        cases compiled : Update.compileAll 0 (update :: rest) .empty with
        | mk outcome tables =>
            have sized : Aliases.empty.names.length = 0 := rfl
            cases outcome with
            | error error =>
                simp only [compileUpdates, List.isEmpty_cons, sized, compiled]
                exact .inr (Update.exists_offending_of_compileAll compiled)
            | ok clauses =>
                simp only [compileUpdates, List.isEmpty_cons, sized, compiled]
                rw [compiled] at written
                subst written
                obtain ⟨readable, ⟨assigned, reads, asked⟩, removed⟩ :=
                  Update.clauses_read_back compiled fresh.holds_all 0
                obtain ⟨clause, after, others, -, -, rfl⟩ := Update.compileAll_cons_ok compiled
                refine ⟨assigned, ?_, asked⟩
                have text := UpdateReader.read?_expression (List.cons_ne_nil clause others) readable
                simp [readBack?, text, reads, removed]

end KeyedStore
