import KeyedStore.Proofs.Expression.Bindings

/-! Aliases are fresh: on tables that began empty, each alias is unbound until its binding
is written. Names follow two schemes in one table, of which the first counts the table and
the second counts paths from the size that the table had when the updates began. What
carries both is that no number in the table has reached the number a path is given, and
that a path with an expression binds at least its first segment, so the table grows by one
or more with each path. -/

namespace KeyedStore

theorem fresh_segmentMints {number place : Nat} (segments : List String) {aliases : Aliases}
    (clear : ∀ later, place ≤ later →
      Aliases.segmentAlias number later ∉ aliases.names.map Prod.fst) :
    Fresh (segmentMints number place segments) aliases := by
  fun_induction segmentMints number place segments generalizing aliases with
  | case1 => trivial
  | case2 => trivial
  | case3 => trivial
  | case4 place segment rest plain position later ih =>
      exact ih fun further above => clear further (by omega)
  | case5 place segment rest plain notPosition ih =>
      refine ⟨clear place (Nat.le_refl place), ih ?_⟩
      intro later above member
      rcases (Fields.mem_names_set _ _ _ _).mp member with same | earlier
      · have equal := (Aliases.segmentAlias_inj same).2
        omega
      · exact clear later (by omega) earlier

namespace Aliases.NumberedBelow

variable {aliases : Aliases} {number : Nat}

theorem fresh_pathMints (below : aliases.NumberedBelow number) (path : String) :
    Fresh (pathMints number path) aliases :=
  fresh_segmentMints (pathSegments path) fun later _ =>
    below.lacks_name (.inr ⟨later, rfl⟩) (Nat.le_refl number) ""

theorem bindAll_segments (begun : aliases.NumberedBelow (number + 1)) {mints : List Mint}
    (fresh : Fresh mints aliases)
    (own : ∀ mint ∈ mints, ∃ place field, mint = .name (segmentAlias number place) field) :
    (aliases.bindAll mints).NumberedBelow (number + 1) := by
  induction mints generalizing aliases with
  | nil => exact begun
  | cons mint rest ih =>
      obtain ⟨ownMint, ownRest⟩ := List.forall_mem_cons.mp own
      obtain ⟨place, field, rfl⟩ := ownMint
      have next := begun.bind_name (.inr ⟨place, rfl⟩) fresh.1 (Nat.lt_succ_self number)
        (Nat.le_refl _) (Nat.le_succ _)
      exact ih next fresh.2 ownRest

theorem bindAll_pathMints (below : aliases.NumberedBelow number) {path : String}
    (bound : pathMints number path ≠ []) :
    (aliases.bindAll (pathMints number path)).NumberedBelow (number + 1) := by
  have fresh := below.fresh_pathMints path
  have own : ∀ mint ∈ pathMints number path,
      ∃ place field, mint = .name (segmentAlias number place) field := by
    intro mint member
    obtain ⟨place, -, own⟩ := mem_segmentMints member
    exact ⟨place, own⟩
  cases mints : pathMints number path with
  | nil => exact absurd mints bound
  | cons first rest =>
      rw [mints] at fresh own
      obtain ⟨ownFirst, ownRest⟩ := List.forall_mem_cons.mp own
      obtain ⟨place, field, rfl⟩ := ownFirst
      have begun := below.bind_name (.inr ⟨place, rfl⟩) fresh.1 (Nat.lt_succ_self number)
        (Nat.le_succ number) (Nat.le_refl _)
      exact begun.bindAll_segments fresh.2 ownRest

end Aliases.NumberedBelow

namespace Condition

theorem fresh_mints (condition : Condition) {aliases : Aliases} (numbered : aliases.Numbered) :
    Fresh (condition.mints aliases) aliases ∧
      (aliases.bindAll (condition.mints aliases)).Numbered := by
  obtain ⟨lacks, named⟩ := numbered.mint_name condition.field
  unfold mints
  split
  · rename_i encoded operand
    exact ⟨⟨lacks, named.lacks_value encoded, trivial⟩, (named.bind_value encoded).numbered⟩
  · exact ⟨⟨lacks, trivial⟩, named.numbered⟩

theorem fresh_mintsAll (conditions : List Condition) {aliases : Aliases}
    (numbered : aliases.Numbered) :
    Fresh (mintsAll conditions aliases) aliases ∧
      (aliases.bindAll (mintsAll conditions aliases)).Numbered := by
  induction conditions generalizing aliases with
  | nil => exact ⟨trivial, numbered⟩
  | cons condition rest ih =>
      obtain ⟨fresh, next⟩ := condition.fresh_mints numbered
      have tables := condition.compile_tables aliases
      simp only [mintsAll, Aliases.bindAll_append]
      split
      · exact ⟨fresh.append trivial, next⟩
      · rename_i clause after compiled
        rw [compiled] at tables
        subst tables
        exact ⟨fresh.append (ih next).1, (ih next).2⟩

end Condition

namespace Update

theorem fresh_valueMints (update : Update) {aliases : Aliases} {bound : Nat}
    (below : aliases.NumberedBelow bound) :
    Fresh (update.valueMints aliases) aliases ∧
      (aliases.bindAll (update.valueMints aliases)).NumberedBelow bound := by
  unfold valueMints
  split
  · exact ⟨trivial, below⟩
  · split
    · exact ⟨trivial, below⟩
    · rename_i encoded assigned
      exact ⟨⟨below.lacks_value encoded, trivial⟩, below.bind_value encoded⟩

theorem fresh_mints (number : Nat) (update : Update) {aliases : Aliases}
    (below : aliases.NumberedBelow number) :
    Fresh (update.mints number aliases) aliases ∧
      ((aliases.bindAll (update.mints number aliases)).NumberedBelow (number + 1) ∨
        (aliases.bindAll (update.mints number aliases)).Numbered ∧
          ∃ error tables, update.compile number aliases = (.error error, tables)) := by
  have fresh := below.fresh_pathMints update.path
  have path := compilePath_tables update.path number aliases
  simp only [mints, Aliases.bindAll_append]
  split
  · rename_i fault tables compiled
    refine ⟨fresh.append trivial, ?_⟩
    -- a path refused before its first name has not taken its number into use
    by_cases bound : pathMints number update.path = []
    · refine .inr ⟨by simpa [bound] using below.numbered, ?_⟩
      exact ⟨.badPath fault update.path, tables, by simp [compile, compiled]⟩
    · exact .inl (below.bindAll_pathMints bound)
  · rename_i expression tables compiled
    rw [compiled] at path
    subst path
    have bound := pathMints_ne_nil (admits_of_compilePath compiled) number
    obtain ⟨valueFresh, next⟩ := update.fresh_valueMints (below.bindAll_pathMints bound)
    exact ⟨fresh.append valueFresh, .inl next⟩

theorem fresh_mintsAll (number : Nat) (updates : List Update) {aliases : Aliases}
    (below : aliases.NumberedBelow number) :
    Fresh (mintsAll number updates aliases) aliases ∧
      (aliases.bindAll (mintsAll number updates aliases)).Numbered := by
  induction updates generalizing number aliases with
  | nil => exact ⟨trivial, below.numbered⟩
  | cons update rest ih =>
      obtain ⟨fresh, next | ⟨numbered, error, tables, refused⟩⟩ :=
        update.fresh_mints number below
      · have tables := update.compile_tables number aliases
        simp only [mintsAll, Aliases.bindAll_append]
        split
        · exact ⟨fresh.append trivial, next.numbered⟩
        · rename_i clause after compiled
          rw [compiled] at tables
          subst tables
          exact ⟨fresh.append (ih (number + 1) next).1, (ih (number + 1) next).2⟩
      · simp only [mintsAll, refused, Aliases.bindAll_append]
        exact ⟨fresh.append trivial, numbered⟩

end Update

inductive AliasCall where
  | mintName (field : String)
  | mintValue (content : Attribute)
  | compileConditions (conditions : List Condition)
  | compileUpdates (updates : List Update)

namespace AliasCall

def perform (call : AliasCall) (aliases : Aliases) : Aliases :=
  match call with
  | mintName field => (aliases.mintName field).2
  | mintValue content => (aliases.mintValue content).2
  | compileConditions conditions => (KeyedStore.compileConditions conditions aliases).2
  | compileUpdates updates => (KeyedStore.compileUpdates updates aliases).2

def performAll (calls : List AliasCall) (aliases : Aliases) : Aliases :=
  calls.foldl (fun tables call => call.perform tables) aliases

def mints (call : AliasCall) (aliases : Aliases) : List Mint :=
  match call with
  | mintName field => [.name (Aliases.nameAlias aliases.names.length) field]
  | mintValue content => [.value (Aliases.valueAlias aliases.values.length) content]
  | compileConditions conditions => Condition.mintsAll conditions aliases
  | compileUpdates updates => Update.mintsAll aliases.names.length updates aliases

def mintsAll : List AliasCall → Aliases → List Mint
  | [], _ => []
  | call :: rest, aliases => call.mints aliases ++ mintsAll rest (call.perform aliases)

def placeholders (call : AliasCall) (aliases : Aliases) : List String :=
  match call with
  | mintName field => [(aliases.mintName field).1]
  | mintValue content => [(aliases.mintValue content).1]
  | compileConditions conditions =>
      match Condition.compileAll conditions aliases with
      | (.error _, _) => []
      | (.ok clauses, _) => clauses.flatMap Clause.labels
  | compileUpdates updates =>
      match Update.compileAll aliases.names.length updates aliases with
      | (.error _, _) => []
      | (.ok clauses, _) => clauses.flatMap UpdateClause.labels

theorem perform_eq_bindAll (call : AliasCall) (aliases : Aliases) :
    call.perform aliases = aliases.bindAll (call.mints aliases) := by
  cases call with
  | mintName field => rfl
  | mintValue content => rfl
  | compileConditions conditions =>
      rw [perform, mints, ← Condition.compileAll_tables, KeyedStore.compileConditions]
      split <;> simp_all
  | compileUpdates updates =>
      rw [perform, mints, ← Update.compileAll_tables, KeyedStore.compileUpdates]
      cases updates with
      | nil => rfl
      | cons update rest =>
          simp only [List.isEmpty_cons, Bool.false_eq_true, if_false]
          split <;> simp_all

theorem performAll_eq_bindAll (calls : List AliasCall) (aliases : Aliases) :
    performAll calls aliases = aliases.bindAll (mintsAll calls aliases) := by
  induction calls generalizing aliases with
  | nil => rfl
  | cons call rest ih =>
      rw [mintsAll, Aliases.bindAll_append, ← perform_eq_bindAll]
      exact ih (call.perform aliases)

theorem fresh_mints (call : AliasCall) {aliases : Aliases} (numbered : aliases.Numbered) :
    Fresh (call.mints aliases) aliases ∧
      (aliases.bindAll (call.mints aliases)).Numbered := by
  cases call with
  | mintName field =>
      obtain ⟨lacks, named⟩ := numbered.mint_name field
      exact ⟨⟨lacks, trivial⟩, named.numbered⟩
  | mintValue content =>
      exact ⟨⟨numbered.lacks_value content, trivial⟩, (numbered.bind_value content).numbered⟩
  | compileConditions conditions => exact Condition.fresh_mintsAll conditions numbered
  | compileUpdates updates => exact Update.fresh_mintsAll _ updates numbered

theorem fresh_mintsAll (calls : List AliasCall) {aliases : Aliases}
    (numbered : aliases.Numbered) :
    Fresh (mintsAll calls aliases) aliases ∧
      (aliases.bindAll (mintsAll calls aliases)).Numbered := by
  induction calls generalizing aliases with
  | nil => exact ⟨trivial, numbered⟩
  | cons call rest ih =>
      obtain ⟨fresh, next⟩ := call.fresh_mints numbered
      rw [mintsAll, Aliases.bindAll_append, perform_eq_bindAll]
      exact ⟨fresh.append (ih next).1, (ih next).2⟩

theorem numbered_performAll (calls : List AliasCall) : (performAll calls .empty).Numbered := by
  rw [performAll_eq_bindAll]
  exact (fresh_mintsAll calls Aliases.numbered_empty).2

theorem placeholders_sublist (call : AliasCall) (aliases : Aliases) :
    (call.placeholders aliases).Sublist ((call.mints aliases).map Mint.label) := by
  cases call with
  | mintName field => exact List.Sublist.refl _
  | mintValue content => exact List.Sublist.refl _
  | compileConditions conditions =>
      simp only [placeholders, mints]
      split
      · exact List.nil_sublist _
      · rename_i clauses tables compiled
        rw [Condition.labels_compileAll compiled]
  | compileUpdates updates =>
      simp only [placeholders, mints]
      split
      · exact List.nil_sublist _
      · rename_i clauses tables compiled
        rw [Update.labels_compileAll compiled]

/-- After any calls on tables that began empty, a further call writes bindings whose aliases
are unbound until then, keeps every binding it finds, and answers with aliases of its own;
and no two of the aliases bound so far, by names, values, conditions, updates or segments,
are the same text. -/
theorem fresh_after_any_calls (earlier : List AliasCall) (call : AliasCall) :
    let tables := performAll earlier .empty
    call.perform tables = tables.bindAll (call.mints tables) ∧
      Fresh (call.mints tables) tables ∧
      (∀ held, tables.Holds held → (call.perform tables).Holds held) ∧
      (call.placeholders tables).Sublist ((call.mints tables).map Mint.label) ∧
      ((mintsAll (earlier ++ [call]) .empty).map Mint.label).Nodup := by
  intro tables
  have run := performAll_eq_bindAll earlier .empty
  have numbered : tables.Numbered := by
    rw [show tables = _ from run]
    exact (fresh_mintsAll earlier Aliases.numbered_empty).2
  obtain ⟨fresh, -⟩ := call.fresh_mints numbered
  obtain ⟨allFresh, allNumbered⟩ := fresh_mintsAll (earlier ++ [call]) Aliases.numbered_empty
  refine ⟨call.perform_eq_bindAll tables, fresh, ?_, call.placeholders_sublist tables,
    allFresh.nodup_labels allNumbered⟩
  intro held holds
  rw [perform_eq_bindAll]
  exact fresh.keeps holds

end AliasCall

end KeyedStore
