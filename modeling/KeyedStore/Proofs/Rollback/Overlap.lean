import KeyedStore.Proofs.Expression.ReadBack
import KeyedStore.Proofs.Path.Document
import KeyedStore.Proofs.Rollback.Restore
import Mathlib.Data.List.Nodup
import Mathlib.Data.List.Perm.Basic

/-! Overlapping document paths. An expression of updates is refused where one of its paths
leads through another. The paths that a compensation restores are those of the updates, each
appended list taken as a whole, so they are clear of each other exactly when no update leads
to an appended list, or into it, in any spelling but that of the append. -/

namespace KeyedStore

def Overlap (left right : List DocumentStep) : Prop :=
  left <+: right ∨ right <+: left

theorem Overlap.symm {left right : List DocumentStep} (overlap : Overlap left right) :
    Overlap right left :=
  Or.symm overlap

def NoOverlap (paths : List (List DocumentStep)) : Prop :=
  paths.Pairwise fun left right => ¬Overlap left right

theorem NoOverlap.perm_iff {paths others : List (List DocumentStep)} (same : paths.Perm others) :
    NoOverlap paths ↔ NoOverlap others :=
  same.pairwise_iff fun clear overlap => clear overlap.symm

namespace Update

def documentPath (update : Update) : List DocumentStep :=
  update.target.map .ofSegment

def documentPaths : Nat → List Update → List (List DocumentStep)
  | _, [] => []
  | count, update :: rest =>
      if update.appends then
        (update.documentPath ++ [.index (firstAppendPosition + count)]) ::
          documentPaths (count + 1) rest
      else update.documentPath :: documentPaths count rest

end Update

def documentPaths? (text : String) (names : Fields String) :
    Option (List (List DocumentStep)) := do
  let (assignments, removals) ← UpdateReader.read? text
  let assigned ← assignments.mapM fun entry => entry.1.mapM (Step.document? names)
  let removed ← removals.mapM fun steps => steps.mapM (Step.document? names)
  return assigned ++ removed

namespace Update

variable {updates : List Update} {number count : Nat} {aliases after tables : Aliases}
  {clauses : List UpdateClause}

theorem clause_leads_along {update : Update} {clause : UpdateClause}
    (compiled : update.compile number aliases = (.ok clause, after))
    (held : ∀ mint ∈ update.mints number aliases, tables.Holds mint) :
    ∃ steps, steps.mapM (Step.document? tables.names) = some update.documentPath ∧
      (update.appends = false ∧ clause = .remove steps ∨
        ∃ label, clause = .assign ⟨steps, update.appends⟩ label) := by
  obtain ⟨admitted, action⟩ := compile_cases compiled
  have onPath : ∀ mint ∈ pathMints number update.path, tables.Holds mint :=
    fun mint member => held mint (List.mem_append_left _ member)
  refine ⟨_, document?_segmentSteps admitted onPath, ?_⟩
  rcases action with ⟨-, unmarked, rfl, -⟩ | ⟨-, encoded, -, rfl, -⟩
  · exact .inl ⟨unmarked, rfl⟩
  · exact .inr ⟨_, rfl⟩

theorem documentPaths_of_compileAll
    (compiled : compileAll number updates aliases = (.ok clauses, after))
    (held : ∀ mint ∈ mintsAll number updates aliases, tables.Holds mint) (count : Nat) :
    ∃ assigned removed,
      (UpdateClause.assignments count clauses).mapM
          (fun entry => entry.1.mapM (Step.document? tables.names)) = some assigned ∧
        (UpdateClause.removals clauses).mapM
          (fun steps => steps.mapM (Step.document? tables.names)) = some removed ∧
        (assigned ++ removed).Perm (documentPaths count updates) := by
  -- the text lists removals behind all assignments, so the paths come in another order
  induction updates generalizing number aliases clauses count with
  | nil =>
      simp only [compileAll, Prod.mk.injEq, Except.ok.injEq] at compiled
      rw [← compiled.1]
      exact ⟨[], [], rfl, rfl, .nil⟩
  | cons update rest ih =>
      obtain ⟨clause, next, others, first, later, rfl⟩ := compileAll_cons_ok compiled
      simp only [mintsAll, first] at held
      obtain ⟨ownHeld, restHeld⟩ := List.forall_mem_append.mp held
      obtain ⟨steps, leads, ⟨unmarked, rfl⟩ | ⟨label, rfl⟩⟩ := clause_leads_along first ownHeld
      · obtain ⟨assigned, removed, assigns, removes, same⟩ := ih later restHeld count
        refine ⟨assigned, update.documentPath :: removed, assigns, ?_, ?_⟩
        · simp [UpdateClause.removals, leads, removes]
        · simp only [documentPaths, unmarked, Bool.false_eq_true, if_false]
          exact List.perm_middle.trans (same.cons update.documentPath)
      · by_cases append : update.appends = true
        · obtain ⟨assigned, removed, assigns, removes, same⟩ := ih later restHeld (count + 1)
          let position : DocumentStep := .index (firstAppendPosition + count)
          have numbered :
              Step.document? tables.names
                (.position (numberedText (firstAppendPosition + count))) = some position := by
            simp [Step.document?, numberedText, readNatural?_naturalText, position]
          refine ⟨(update.documentPath ++ [position]) :: assigned, removed, ?_, removes, ?_⟩
          · simp [UpdateClause.assignments, append, leads, numbered, assigns]
          · rw [documentPaths, if_pos append]
            exact same.cons _
        · obtain ⟨assigned, removed, assigns, removes, same⟩ := ih later restHeld count
          refine ⟨update.documentPath :: assigned, removed, ?_, removes, ?_⟩
          · simp [UpdateClause.assignments, append, leads, assigns]
          · rw [documentPaths, if_neg append]
            exact same.cons update.documentPath

theorem documentPaths?_of_compileUpdates {text : String}
    (compiled : compileUpdates updates .empty = (.ok text, tables)) :
    ∃ paths, documentPaths? text tables.names = some paths ∧
      paths.Perm (documentPaths 0 updates) := by
  have filled := ((exists_compileUpdates_iff updates .empty).mp ⟨text, tables, compiled⟩).1
  obtain ⟨clauses, all, rfl⟩ := compileUpdates_ok compiled
  have sized : Aliases.empty.names.length = 0 := rfl
  rw [sized] at all
  have written := compileAll_tables 0 updates .empty
  rw [all] at written
  subst written
  have held := (fresh_mintsAll 0 updates Aliases.numbered_empty).1.holds_all
  obtain ⟨assigned, removed, assigns, removes, same⟩ := documentPaths_of_compileAll all held 0
  have readable := (clauses_read_back all held 0).1
  have clausesFilled : clauses ≠ [] := by
    obtain ⟨first, rest, shape⟩ := List.exists_cons_of_ne_nil filled
    rw [shape] at all
    obtain ⟨clause, after, others, -, -, split⟩ := compileAll_cons_ok all
    simp [split]
  refine ⟨assigned ++ removed, ?_, same⟩
  simp [documentPaths?, UpdateReader.read?_expression clausesFilled readable, assigns, removes]

theorem documentPaths_cons (update : Update) (rest : List Update) (count : Nat) :
    ∃ tail later,
      documentPaths count (update :: rest) =
          (update.documentPath ++ tail) :: documentPaths later rest ∧
        (update.appends = false → tail = []) := by
  by_cases append : update.appends = true
  · exact ⟨[.index (firstAppendPosition + count)], count + 1, by simp [documentPaths, append],
      by simp [append]⟩
  · exact ⟨[], count, by simp [documentPaths, append], fun _ => rfl⟩

theorem exists_mem_documentPaths {update : Update} (member : update ∈ updates) (count : Nat) :
    ∃ tail, update.documentPath ++ tail ∈ documentPaths count updates ∧
      (update.appends = false → tail = []) := by
  induction updates generalizing count with
  | nil => simp at member
  | cons first rest ih =>
      obtain ⟨tail, later, paths, own⟩ := documentPaths_cons first rest count
      rw [paths]
      rcases List.mem_cons.mp member with same | inRest
      · exact ⟨tail, by simp [same], same ▸ own⟩
      · obtain ⟨tail, inside, own⟩ := ih inRest later
        exact ⟨tail, List.mem_cons_of_mem _ inside, own⟩

theorem exists_clear_of_pairwise
    (clear : NoOverlap (documentPaths count updates))
    {left right : Update} (leftMember : left ∈ updates) (rightMember : right ∈ updates)
    (different : left ≠ right) :
    ∃ leftTail rightTail,
      ¬Overlap (left.documentPath ++ leftTail) (right.documentPath ++ rightTail) ∧
        (left.appends = false → leftTail = []) ∧ (right.appends = false → rightTail = []) := by
  induction updates generalizing count with
  | nil => simp at leftMember
  | cons first rest ih =>
      obtain ⟨tail, later, paths, own⟩ := documentPaths_cons first rest count
      rw [paths, NoOverlap, List.pairwise_cons] at clear
      rcases List.mem_cons.mp leftMember with leftFirst | leftRest
      · rcases List.mem_cons.mp rightMember with rightFirst | rightRest
        · exact absurd (leftFirst.trans rightFirst.symm) different
        · obtain ⟨rightTail, inside, rightOwn⟩ := exists_mem_documentPaths rightRest later
          exact ⟨tail, rightTail, leftFirst ▸ clear.1 _ inside, leftFirst ▸ own, rightOwn⟩
      · rcases List.mem_cons.mp rightMember with rightFirst | rightRest
        · obtain ⟨leftTail, inside, leftOwn⟩ := exists_mem_documentPaths leftRest later
          refine ⟨leftTail, tail, ?_, leftOwn, rightFirst ▸ own⟩
          exact fun overlap => clear.1 _ inside (rightFirst ▸ overlap.symm)
        · exact ih clear.2 leftRest rightRest

theorem appends_of_prefix
    (clear : NoOverlap (documentPaths count updates))
    {left right : Update} (leftMember : left ∈ updates) (rightMember : right ∈ updates)
    (different : left ≠ right) (through : left.documentPath <+: right.documentPath) :
    left.appends = true := by
  obtain ⟨leftTail, rightTail, apart, own, -⟩ :=
    exists_clear_of_pairwise clear leftMember rightMember different
  by_contra unmarked
  apply apart
  rw [own (by simpa using unmarked), List.append_nil]
  exact .inl (through.trans (List.prefix_append _ rightTail))

theorem documentPaths_of_unmarked (unmarked : ∀ update ∈ updates, update.appends = false) :
    documentPaths count updates = updates.map documentPath := by
  induction updates with
  | nil => rfl
  | cons update rest ih =>
      obtain ⟨own, others⟩ := List.forall_mem_cons.mp unmarked
      simp [documentPaths, own, ih others]

/-- Nothing leads to an appended list, or into it, but what is restored as the list itself. -/
def RestoresListsOnce (updates : List Update) : Prop :=
  ∀ append ∈ updates, append.appends = true →
    ∀ other ∈ updates, append.documentPath <+: other.documentPath →
      restoreTarget other.path = restoreTarget append.path

end Update

theorem nodup_eraseDups (names : List String) : names.eraseDups.Nodup := by
  cases names with
  | nil => exact List.nodup_nil
  | cons name rest =>
      rw [List.eraseDups_cons, List.nodup_cons]
      exact ⟨by simp, nodup_eraseDups (rest.filter fun other => !other == name)⟩
termination_by names.length
decreasing_by
  have shorter := rest.length_filter_le fun other => !other == name
  simp only [List.length_cons]
  omega

namespace Update

variable {updates : List Update} {count : Nat}

theorem documentPath_restoring {update : Update} (admitted : Admits (pathSegments update.path))
    (old : Item) :
    (restoring old (restoreTarget update.path)).documentPath = update.documentPath := by
  rw [documentPath, target_restoring admitted, documentPath]

theorem noOverlap_restoringAll_iff
    (admitted : ∀ update ∈ updates, Admits (pathSegments update.path))
    (clear : NoOverlap (documentPaths count updates)) (old : Item) :
    NoOverlap ((restoringAll old updates).map documentPath) ↔ RestoresListsOnce updates := by
  rw [NoOverlap, restoringAll, List.map_map, List.pairwise_map]
  constructor
  · intro pairwise append appendMember appends other otherMember through
    by_contra different
    have restored {update : Update} (member : update ∈ updates) : restoreTarget update.path ∈
        (updates.map fun update => restoreTarget update.path).eraseDups :=
      List.mem_eraseDups.mpr (List.mem_map_of_mem member)
    have symmetric : Std.Symm fun path other =>
        ¬Overlap ((documentPath ∘ restoring old) path) ((documentPath ∘ restoring old) other) :=
      ⟨fun _ _ apart overlap => apart overlap.symm⟩
    have apart := pairwise.forall (restored appendMember) (restored otherMember) (Ne.symm different)
    simp only [Function.comp_apply, documentPath_restoring (admitted append appendMember) old,
      documentPath_restoring (admitted other otherMember) old] at apart
    exact apart (.inl through)
  · intro once
    -- different texts come from different updates, of which only an append leads through another
    have apart {left right : Update} (leftMember : left ∈ updates) (rightMember : right ∈ updates)
        (different : restoreTarget left.path ≠ restoreTarget right.path) :
        ¬left.documentPath <+: right.documentPath := by
      intro through
      have appends := appends_of_prefix clear leftMember rightMember
        (fun same => different (by rw [same])) through
      exact different (once left leftMember appends right rightMember through).symm
    apply (nodup_eraseDups _).pairwise_of_forall_ne
    intro path pathMember other otherMember different
    obtain ⟨left, leftMember, rfl⟩ := List.mem_map.mp (List.mem_eraseDups.mp pathMember)
    obtain ⟨right, rightMember, rfl⟩ := List.mem_map.mp (List.mem_eraseDups.mp otherMember)
    simp only [Function.comp_apply, documentPath_restoring (admitted left leftMember) old,
      documentPath_restoring (admitted right rightMember) old]
    rintro (through | through)
    · exact apart leftMember rightMember different through
    · exact apart rightMember leftMember different.symm through

theorem document?_of_unmarked {update : Update} (admitted : Admits (pathSegments update.path))
    (unmarked : update.appends = false) (number : Nat) (aliases : Aliases) :
    ∃ expression tables, compilePath update.path number aliases = (.ok expression, tables) ∧
      expression.append = false ∧ expression.document? tables.names = some update.documentPath :=
  ⟨_, _, compilePath_of_admits admitted number aliases, unmarked,
    document?_segmentSteps admitted (holds_pathMints number update.path aliases)⟩

end Update

/-- The document paths that the compensation of an update restores overlap exactly where another
update leads to an appended list, or into it, and is not spelled as the list itself. -/
theorem compensation_overlaps_iff {operation : LoggedOperation} {row : AttributeMap} {old : Item}
    {text : String} {tables : Aliases} {paths : List (List DocumentStep)}
    (action : operation.request.action = .update)
    (attributes : operation.response.attributes = some row) (read : row.unmarshal = .ok old)
    (compiled : compileUpdates operation.request.updates .empty = (.ok text, tables))
    (targets : documentPaths? text tables.names = some paths) (clear : NoOverlap paths) :
    ∃ undo, operation.compensate = .ok (some undo) ∧ undo.action = .update ∧
      (∀ update ∈ undo.updates, ∀ number aliases, ∃ expression named,
        compilePath update.path number aliases = (.ok expression, named) ∧
          expression.append = false ∧
          expression.document? named.names = some update.documentPath) ∧
      (NoOverlap (undo.updates.map Update.documentPath) ↔
        Update.RestoresListsOnce operation.request.updates) ∧
      ∀ undoText undoTables, compileUpdates undo.updates .empty = (.ok undoText, undoTables) →
        ∃ undoPaths, documentPaths? undoText undoTables.names = some undoPaths ∧
          (NoOverlap undoPaths ↔ Update.RestoresListsOnce operation.request.updates) := by
  have admitted : ∀ update ∈ operation.request.updates, Admits (pathSegments update.path) := by
    have accepted := (exists_compileUpdates_iff _ _).mp ⟨text, tables, compiled⟩
    exact fun update member => (accepted.2 update member).1
  obtain ⟨asked, sameTargets, perm⟩ := Update.documentPaths?_of_compileUpdates compiled
  have isAsked : asked = paths := by simpa [sameTargets] using targets
  rw [← isAsked, NoOverlap.perm_iff perm] at clear
  have apart := Update.noOverlap_restoringAll_iff admitted clear old
  have unmarked : ∀ restored ∈ Update.restoringAll old operation.request.updates,
      Admits (pathSegments restored.path) ∧ restored.appends = false := by
    intro restored member
    obtain ⟨update, updateMember, rfl⟩ := Update.mem_restoringAll_iff.mp member
    rw [Update.appends, Update.path_restoring,
      pathSegments_restoreTarget (admitted update updateMember)]
    exact (admitted update updateMember).dropMarker
  refine ⟨_, LoggedOperation.compensate_update action attributes read, rfl, ?_, apart, ?_⟩
  · intro update member
    exact Update.document?_of_unmarked (unmarked update member).1 (unmarked update member).2
  · intro undoText undoTables undoCompiled
    obtain ⟨undoPaths, reads, same⟩ := Update.documentPaths?_of_compileUpdates undoCompiled
    rw [Update.documentPaths_of_unmarked fun update member => (unmarked update member).2] at same
    exact ⟨undoPaths, reads, (NoOverlap.perm_iff same).trans apart⟩

/-- Two appends to one list are restored as one list if they are spelled alike. In two spellings,
the list is restored twice. -/
theorem compensation_overlaps_in_two_spellings :
    let operation (second : String) : LoggedOperation := {
      request := {
        action := .update, key := [("id", .string "x")]
        updates := [⟨.put, "/tags/-", .string "b"⟩, ⟨.put, second, .string "c"⟩] }
      response := { attributes := some [("tags", .list [.string "a"])] } }
    (∃ undo, (operation "/tags/-").compensate = .ok (some undo) ∧
      NoOverlap (undo.updates.map Update.documentPath)) ∧
    ∃ undo, (operation "tags/-").compensate = .ok (some undo) ∧
      ¬NoOverlap (undo.updates.map Update.documentPath) := by
  intro operation
  have clear : NoOverlap [[.name "tags", .index 999000], [.name "tags", .index 999001]] := by
    unfold NoOverlap Overlap
    decide
  let tables : Aliases := {
    names := [("#0ename0", "tags"), ("#1ename0", "tags")]
    values := [(":val0", .string "b"), (":val1", .string "c")] }
  have slashed : restoreTarget "/tags/-" = "/tags" := by decide +kernel
  have bare : restoreTarget "tags/-" = "tags" := by decide +kernel
  obtain ⟨undo, compensated, -, -, alike, -⟩ :=
    @compensation_overlaps_iff (operation "/tags/-") _ _
      "SET #0ename0[999000] = :val0, #1ename0[999001] = :val1" tables _
      rfl rfl rfl rfl (by decide +kernel) clear
  obtain ⟨undo', compensated', -, -, apart, -⟩ :=
    @compensation_overlaps_iff (operation "tags/-") _ _
      "SET #0ename0[999000] = :val0, #1ename0[999001] = :val1" tables _
      rfl rfl rfl rfl (by decide +kernel) clear
  refine ⟨⟨undo, compensated, alike.mpr ?_⟩, undo', compensated', fun noOverlap => ?_⟩
  · simp [Update.RestoresListsOnce, operation]
  · have once := apart.mp noOverlap ⟨.put, "/tags/-", .string "b"⟩ (by simp [operation])
      (by decide +kernel) ⟨.put, "tags/-", .string "c"⟩ (by simp [operation]) (by decide +kernel)
    rw [slashed, bare] at once
    exact absurd once (by decide)

end KeyedStore
