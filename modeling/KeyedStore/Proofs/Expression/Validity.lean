import KeyedStore.Proofs.Expression.Update

/-! Valid updates, and what is wrong with the others. Whether a path has an expression, and
the reason why it has none, depend on its segments alone, so an update is refused with one
error wherever it stands, and the first update that is not valid decides the error of all. -/

namespace KeyedStore

def PathAccepted (path : String) : Prop :=
  ∀ number aliases, ∃ expression tables,
    compilePath path number aliases = (.ok expression, tables)

def PathRefused (path : String) (fault : PathFault) : Prop :=
  ∀ number aliases, ∃ tables, compilePath path number aliases = (.error fault, tables)

theorem pathAccepted_iff {path : String} : PathAccepted path ↔ Admits (pathSegments path) := by
  constructor
  · intro accepted
    obtain ⟨expression, tables, compiled⟩ := accepted 0 .empty
    exact admits_of_compilePath compiled
  · intro admitted number aliases
    exact ⟨_, _, compilePath_of_admits admitted number aliases⟩

theorem compileSegments_refused {number place : Nat} {segments : List String}
    {aliases tables : Aliases} {fault : PathFault}
    (refused : compileSegments number place segments aliases = (.error fault, tables))
    (other : Nat) (others : Aliases) :
    ∃ after, compileSegments other place segments others = (.error fault, after) := by
  fun_induction compileSegments number place segments aliases generalizing others with
  | case1 => simp at refused
  | case2 place segment rest aliases empty =>
      simp only [Prod.mk.injEq, Except.error.injEq] at refused
      exact ⟨others, by simp [compileSegments, empty, ← refused.1]⟩
  | case3 place rest aliases misplaced filled =>
      simp only [Prod.mk.injEq, Except.error.injEq] at refused
      exact ⟨others, by simp [compileSegments, filled, misplaced, ← refused.1]⟩
  | case4 => simp at refused
  | case5 segment rest aliases filled plain position =>
      simp only [Prod.mk.injEq, Except.error.injEq] at refused
      exact ⟨others, by simp [compileSegments, filled, plain, position, ← refused.1]⟩
  | case6 place segment rest aliases filled plain position later inner after compiled ih =>
      simp only [Prod.mk.injEq, Except.error.injEq] at refused
      obtain ⟨left, behind⟩ := ih (refused.1 ▸ refused.2 ▸ compiled) others
      exact ⟨left, by simp [compileSegments, filled, plain, position, later, behind]⟩
  | case7 => simp at refused
  | case8 place segment rest aliases filled plain notPosition label inner after compiled ih =>
      simp only [Prod.mk.injEq, Except.error.injEq] at refused
      obtain ⟨left, behind⟩ := ih (refused.1 ▸ refused.2 ▸ compiled)
        (others.bindName (Aliases.segmentAlias other place) segment)
      exact ⟨left, by simp [compileSegments, filled, plain, notPosition, behind]⟩
  | case9 => simp at refused

theorem pathRefused_of_compilePath {path : String} {number : Nat} {aliases tables : Aliases}
    {fault : PathFault} (refused : compilePath path number aliases = (.error fault, tables)) :
    PathRefused path fault := by
  intro other others
  simp only [compilePath] at refused ⊢
  split at refused
  · rename_i empty
    simp only [Prod.mk.injEq, Except.error.injEq] at refused
    exact ⟨others, by rw [if_pos empty, refused.1]⟩
  · rename_i filled
    rw [if_neg filled]
    exact compileSegments_refused refused other others

namespace Update

structure Valid (update : Update) : Prop where
  path : PathAccepted update.path
  removal : update.action = .delete → update.appends = false
  value : update.action ≠ .delete →
    update.value.isEmptyString = false ∧ update.value.isFinite = true

/-- What is wrong with an update, as an error. -/
inductive Offends (update : Update) : UpdateError → Prop
  | path {fault : PathFault} (refused : PathRefused update.path fault) :
      Offends update (.badPath fault update.path)
  | marker (accepted : PathAccepted update.path) (removal : update.action = .delete)
      (appends : update.appends = true) : Offends update (.removesAppendMarker update.path)
  | emptyString (accepted : PathAccepted update.path) (assigning : update.action ≠ .delete)
      (empty : update.value.isEmptyString = true) : Offends update (.emptyString update.path)
  | unencodable {cause : MarshalError} (accepted : PathAccepted update.path)
      (assigning : update.action ≠ .delete) (filled : update.value.isEmptyString = false)
      (marshaled : update.value.marshal = .error cause) : Offends update (.unencodable cause)

theorem valid_iff_accepted (update : Update) : update.Valid ↔ update.Accepted := by
  constructor
  · rintro ⟨path, removal, value⟩
    refine ⟨pathAccepted_iff.mp path, ?_⟩
    split
    · rename_i deleting
      exact removal deleting
    · rename_i assigning
      exact value assigning
  · rintro ⟨admitted, action⟩
    refine ⟨pathAccepted_iff.mpr admitted, fun deleting => ?_, fun assigning => ?_⟩
    · rwa [if_pos deleting] at action
    · rwa [if_neg assigning] at action

theorem Offends.not_valid {update : Update} {error : UpdateError}
    (offends : update.Offends error) : ¬update.Valid := by
  intro valid
  cases offends with
  | path refused =>
      obtain ⟨expression, tables, compiled⟩ := valid.path 0 .empty
      obtain ⟨after, failed⟩ := refused 0 .empty
      rw [compiled] at failed
      simp at failed
  | marker accepted removal appends =>
      rw [valid.removal removal] at appends
      exact absurd appends (by decide)
  | emptyString accepted assigning empty =>
      rw [(valid.value assigning).1] at empty
      exact absurd empty (by decide)
  | unencodable accepted assigning filled marshaled =>
      obtain ⟨encoded, marshals⟩ := (Value.exists_marshal_iff _).mpr (valid.value assigning).2
      rw [marshals] at marshaled
      exact absurd marshaled (by simp)

theorem offends_of_assigned {update : Update} {error : UpdateError}
    (accepted : PathAccepted update.path) (assigning : update.action ≠ .delete)
    (refused : update.assigned = .error error) : update.Offends error := by
  unfold Update.assigned at refused
  split at refused
  · rename_i empty
    rw [← Except.error.inj refused]
    exact .emptyString accepted assigning empty
  · rename_i filled
    split at refused
    · simp at refused
    · rename_i cause marshaled
      rw [← Except.error.inj refused]
      exact .unencodable accepted assigning (by simpa using filled) marshaled

theorem offends_of_compile {update : Update} {number : Nat} {aliases tables : Aliases}
    {error : UpdateError} (failed : update.compile number aliases = (.error error, tables)) :
    update.Offends error := by
  cases path : compilePath update.path number aliases with
  | mk outcome after =>
      cases outcome with
      | error fault =>
          simp only [compile, path, Prod.mk.injEq, Except.error.injEq] at failed
          rw [← failed.1]
          exact .path (pathRefused_of_compilePath path)
      | ok expression =>
          have admitted := admits_of_compilePath path
          have accepted := pathAccepted_iff.mpr admitted
          simp only [compile, compilePath_of_admits admitted] at failed
          by_cases removal : update.action = .delete
          · rw [removal] at failed
            dsimp only at failed
            split at failed
            · rename_i marked
              simp only [Prod.mk.injEq, Except.error.injEq] at failed
              rw [← failed.1]
              exact .marker accepted removal marked
            · simp at failed
          · cases assigned : update.assigned with
            | ok encoded => simp [assigned, Aliases.mintValue] at failed
            | error cause =>
                simp only [assigned, Prod.mk.injEq, Except.error.injEq] at failed
                rw [← failed.1]
                exact offends_of_assigned accepted removal assigned

theorem exists_offending_of_compileAll {updates : List Update} {number : Nat}
    {aliases tables : Aliases} {error : UpdateError}
    (failed : compileAll number updates aliases = (.error error, tables)) :
    ∃ front update back, updates = front ++ update :: back ∧
      (∀ earlier ∈ front, earlier.Valid) ∧ ¬update.Valid ∧ update.Offends error := by
  induction updates generalizing number aliases with
  | nil => simp [compileAll] at failed
  | cons update rest ih =>
      simp only [compileAll] at failed
      split at failed
      · rename_i cause after compiled
        simp only [Prod.mk.injEq, Except.error.injEq] at failed
        rw [failed.1] at compiled
        have offends := offends_of_compile compiled
        exact ⟨[], update, rest, rfl, by simp, offends.not_valid, offends⟩
      · rename_i clause after compiled
        split at failed
        · rename_i cause final later
          simp only [Prod.mk.injEq, Except.error.injEq] at failed
          rw [failed.1, failed.2] at later
          obtain ⟨front, offending, back, rfl, valid, invalid, offends⟩ := ih later
          have accepted := (exists_compile_iff update number aliases).mp ⟨clause, after, compiled⟩
          refine ⟨update :: front, offending, back, rfl, ?_, invalid, offends⟩
          exact List.forall_mem_cons.mpr ⟨update.valid_iff_accepted.mpr accepted, valid⟩
        · simp at failed

end Update

end KeyedStore
