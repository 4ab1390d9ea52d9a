import KeyedStore.Expression.Update
import KeyedStore.Proofs.Attribute.Codec
import KeyedStore.Proofs.Path.Segments

/-! Which updates have an expression. The alias tables and the numbering play no part. -/

namespace KeyedStore

namespace Update

def target (update : Update) : List String :=
  dropMarker (pathSegments update.path)

def appends (update : Update) : Bool :=
  endsInMarker (pathSegments update.path)

/-- The path has an expression, a removal is not of the end of a list, and an assigned
value can be stored. -/
def Accepted (update : Update) : Prop :=
  Admits (pathSegments update.path) ∧
    if update.action = .delete then endsInMarker (pathSegments update.path) = false
    else update.value.isEmptyString = false ∧ update.value.isFinite = true

theorem exists_assigned_iff (update : Update) :
    (∃ encoded, update.assigned = .ok encoded) ↔
      update.value.isEmptyString = false ∧ update.value.isFinite = true := by
  rw [← Value.exists_marshal_iff]
  unfold assigned
  cases update.value.isEmptyString with
  | true => simp
  | false => cases update.value.marshal <;> simp

theorem compile_of_admits {update : Update} (admitted : Admits (pathSegments update.path))
    (number : Nat) (aliases : Aliases) :
    (∃ clause tables, update.compile number aliases = (.ok clause, tables)) ↔
      if update.action = .delete then endsInMarker (pathSegments update.path) = false
      else ∃ encoded, update.assigned = .ok encoded := by
  simp only [compile, compilePath_of_admits admitted]
  cases update.action with
  | delete => cases endsInMarker (pathSegments update.path) <;> simp
  | put => cases update.assigned <;> simp
  | update => cases update.assigned <;> simp

theorem exists_compile_iff (update : Update) (number : Nat) (aliases : Aliases) :
    (∃ clause tables, update.compile number aliases = (.ok clause, tables)) ↔
      update.Accepted := by
  by_cases admitted : Admits (pathSegments update.path)
  · rw [compile_of_admits admitted, exists_assigned_iff]
    simp [Accepted, admitted]
  · constructor
    · rintro ⟨clause, tables, compiled⟩
      cases path : compilePath update.path number aliases with
      | mk outcome names =>
          cases outcome with
          | error fault => simp [compile, path] at compiled
          | ok expression => exact absurd (admits_of_compilePath path) admitted
    · intro accepted
      exact absurd accepted.1 admitted

theorem compile_cases {update : Update} {number : Nat} {aliases tables : Aliases}
    {clause : UpdateClause} (compiled : update.compile number aliases = (.ok clause, tables)) :
    Admits (pathSegments update.path) ∧
      (update.action = .delete ∧ endsInMarker (pathSegments update.path) = false ∧
          clause = .remove (segmentSteps number 0 (pathSegments update.path)) ∧
            tables = aliases.bindAll (pathMints number update.path) ∨
        update.action ≠ .delete ∧ ∃ encoded, update.assigned = .ok encoded ∧
          clause = .assign ⟨segmentSteps number 0 (pathSegments update.path),
              endsInMarker (pathSegments update.path)⟩
            (Aliases.valueAlias (aliases.bindAll (pathMints number update.path)).values.length) ∧
            tables = ((aliases.bindAll (pathMints number update.path)).mintValue encoded).2) := by
  have admitted : Admits (pathSegments update.path) :=
    ((exists_compile_iff update number aliases).mp ⟨clause, tables, compiled⟩).1
  refine ⟨admitted, ?_⟩
  simp only [compile, compilePath_of_admits admitted] at compiled
  by_cases removal : update.action = .delete
  · rw [removal] at compiled
    dsimp only at compiled
    split at compiled
    · simp at compiled
    · rename_i unmarked
      simp only [Prod.mk.injEq, Except.ok.injEq] at compiled
      exact .inl ⟨removal, by simpa using unmarked, compiled.1.symm, compiled.2.symm⟩
  · cases assigned : update.assigned with
    | error error => simp [assigned] at compiled
    | ok encoded =>
        simp only [assigned, Prod.mk.injEq, Except.ok.injEq] at compiled
        exact .inr ⟨removal, encoded, rfl, compiled.1.symm, compiled.2.symm⟩

theorem compileAll_cons_ok {update : Update} {rest : List Update} {number : Nat}
    {aliases tables : Aliases} {clauses : List UpdateClause}
    (compiled : compileAll number (update :: rest) aliases = (.ok clauses, tables)) :
    ∃ clause after others, update.compile number aliases = (.ok clause, after) ∧
      compileAll (number + 1) rest after = (.ok others, tables) ∧ clauses = clause :: others := by
  simp only [compileAll] at compiled
  split at compiled
  · simp at compiled
  · rename_i clause after first
    split at compiled
    · simp at compiled
    · rename_i others final later
      simp only [Prod.mk.injEq, Except.ok.injEq] at compiled
      exact ⟨clause, after, others, first, compiled.2 ▸ later, compiled.1.symm⟩

theorem exists_compileAll_iff (updates : List Update) (number : Nat) (aliases : Aliases) :
    (∃ clauses tables, compileAll number updates aliases = (.ok clauses, tables)) ↔
      ∀ update ∈ updates, update.Accepted := by
  induction updates generalizing number aliases with
  | nil => simp [compileAll]
  | cons update rest ih =>
      have first := exists_compile_iff update number aliases
      rw [List.forall_mem_cons, ← first]
      cases compiled : update.compile number aliases with
      | mk outcome tables =>
          cases outcome with
          | error error => simp [compileAll, compiled]
          | ok clause =>
              have tail := ih (number + 1) tables
              rw [← tail]
              cases later : compileAll (number + 1) rest tables with
              | mk others final => cases others <;> simp [compileAll, compiled, later]

end Update

theorem exists_compileUpdates_iff (updates : List Update) (aliases : Aliases) :
    (∃ expression tables, compileUpdates updates aliases = (.ok expression, tables)) ↔
      updates ≠ [] ∧ ∀ update ∈ updates, update.Accepted := by
  cases updates with
  | nil => simp [compileUpdates]
  | cons update rest =>
      rw [← Update.exists_compileAll_iff _ aliases.names.length aliases]
      cases compiled : Update.compileAll aliases.names.length (update :: rest) aliases with
      | mk outcome tables => cases outcome <;> simp [compileUpdates, compiled]

theorem compileUpdates_ok {updates : List Update} {aliases tables : Aliases} {text : String}
    (compiled : compileUpdates updates aliases = (.ok text, tables)) :
    ∃ clauses, Update.compileAll aliases.names.length updates aliases = (.ok clauses, tables) ∧
      UpdateClause.expression clauses = text := by
  unfold compileUpdates at compiled
  split at compiled
  · simp at compiled
  · split at compiled
    · simp at compiled
    · rename_i clauses after done
      simp only [Prod.mk.injEq, Except.ok.injEq] at compiled
      exact ⟨clauses, compiled.2 ▸ done, compiled.1⟩

end KeyedStore
