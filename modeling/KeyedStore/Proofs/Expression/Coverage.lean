import KeyedStore.Proofs.Expression.Mentions
import KeyedStore.Proofs.Expression.Freshness

/-! Coverage: the expressions of a request and its alias tables fit each other. Compiled on
tables that began empty, expressions mention every alias of the tables exactly once and
nothing else. What carries this along the expressions of one request is that each of them
writes fresh bindings to the tables and mentions the aliases of these bindings. -/

namespace KeyedStore

theorem CarriesNumber.placeholder {label : String} {number : Nat}
    (carries : CarriesNumber label number) : Placeholder '#' label := by
  rcases carries with rfl | ⟨place, rfl⟩
  · exact .nameAlias number
  · exact .segmentAlias number place

namespace Aliases

def labels (aliases : Aliases) : List String :=
  aliases.names.map Prod.fst ++ aliases.values.map Prod.fst

def marked (aliases : Aliases) (mark : Char) : List String :=
  aliases.labels.filter (hasMark mark)

theorem perm_labels_bind {aliases : Aliases} {mint : Mint} (lacks : aliases.Lacks mint) :
    (aliases.bind mint).labels.Perm (mint.label :: aliases.labels) := by
  cases mint with
  | name label field =>
      exact (Fields.perm_names_set field lacks).append_right (aliases.values.map Prod.fst)
  | value label content =>
      have grown := Fields.perm_names_set content lacks
      exact (grown.append_left (aliases.names.map Prod.fst)).trans List.perm_middle

theorem Numbered.marked_eq {aliases : Aliases} (numbered : aliases.Numbered) :
    aliases.marked '#' = aliases.names.map Prod.fst ∧
      aliases.marked ':' = aliases.values.map Prod.fst := by
  have names : ∀ label ∈ aliases.names.map Prod.fst, ∀ mark,
      hasMark mark label = true ↔ '#' = mark := by
    intro label member mark
    obtain ⟨number, -, carries⟩ := numbered.names label member
    exact carries.placeholder.hasMark_iff mark
  have values : ∀ label ∈ aliases.values.map Prod.fst, ∀ mark,
      hasMark mark label = true ↔ ':' = mark := by
    intro label member mark
    obtain ⟨number, -, rfl⟩ := numbered.values label member
    exact (Placeholder.valueAlias number).hasMark_iff mark
  constructor
  · rw [marked, labels, List.filter_append, List.filter_eq_self.mpr, List.filter_eq_nil_iff.mpr,
      List.append_nil]
    · intro label member
      rw [values label member]
      decide
    · intro label member
      rw [names label member]
  · rw [marked, labels, List.filter_append, List.filter_eq_nil_iff.mpr, List.filter_eq_self.mpr,
      List.nil_append]
    · intro label member
      rw [values label member]
    · intro label member
      rw [names label member]
      decide

end Aliases

theorem Fresh.perm_labels {mints : List Mint} {aliases : Aliases} (fresh : Fresh mints aliases) :
    (aliases.bindAll mints).labels.Perm (mints.map Mint.label ++ aliases.labels) := by
  induction mints generalizing aliases with
  | nil => exact List.Perm.refl _
  | cons mint rest ih =>
      have bound := Aliases.perm_labels_bind fresh.1
      exact ((ih fresh.2).trans (bound.append_left _)).trans List.perm_middle

/-- Whatever is mentioned stands in the table, and each label of the table is mentioned once. -/
structure Covers (table mentioned : List String) : Prop where
  bound : ∀ label ∈ mentioned, label ∈ table
  once : ∀ label ∈ table, mentioned.count label = 1

theorem Covers.of_perm {table mentioned : List String} (same : mentioned.Perm table)
    (distinct : table.Nodup) : Covers table mentioned := by
  constructor
  · intro label member
    exact same.mem_iff.mp member
  · intro label member
    rw [same.count_eq]
    exact List.count_eq_one_of_mem distinct member

def placeholdersIn (mark : Char) (texts : List String) : List String :=
  texts.flatMap fun text => placeholders mark text.toList

/-- The tables have what the texts mention, and nothing that the texts do not use. -/
structure Aliases.ClosedOver (aliases : Aliases) (texts : List String) : Prop where
  names : Covers (aliases.names.map Prod.fst) (placeholdersIn '#' texts)
  values : Covers (aliases.values.map Prod.fst) (placeholdersIn ':' texts)

/-- Texts that were compiled from one pair of tables to another: what was bound for them is
fresh, and each of its aliases is mentioned once. -/
structure Writes (start : Aliases) (mints : List Mint) (texts : List String) (tables : Aliases) :
    Prop where
  bound : tables = start.bindAll mints
  fresh : Fresh mints start
  numbered : tables.Numbered
  mentioned : ∀ mark, IsMark mark →
    (placeholdersIn mark texts).Perm ((mints.map Mint.label).filter (hasMark mark))

namespace Writes

variable {start middle tables : Aliases} {mints laterMints : List Mint}
  {texts laterTexts : List String}

theorem of_mentions {text : String} {labels : List String}
    (mentions : Mentions text.toList labels) (own : labels.Perm (mints.map Mint.label))
    (fresh : Fresh mints start) (numbered : (start.bindAll mints).Numbered) :
    Writes start mints [text] (start.bindAll mints) := by
  refine ⟨rfl, fresh, numbered, ?_⟩
  intro mark isMark
  rw [placeholdersIn, List.flatMap_singleton, mentions.placeholders_eq isMark]
  exact own.filter _

theorem append (first : Writes start mints texts middle)
    (second : Writes middle laterMints laterTexts tables) :
    Writes start (mints ++ laterMints) (texts ++ laterTexts) tables := by
  constructor
  · rw [Aliases.bindAll_append, ← first.bound, ← second.bound]
  · exact first.fresh.append (first.bound ▸ second.fresh)
  · exact second.numbered
  · intro mark isMark
    rw [placeholdersIn, List.flatMap_append, List.map_append, List.filter_append]
    exact (first.mentioned mark isMark).append (second.mentioned mark isMark)

theorem closedOver (writes : Writes .empty mints texts tables) : tables.ClosedOver texts := by
  have numbered := writes.numbered
  have bound := writes.bound
  have distinct : (mints.map Mint.label).Nodup := by
    rw [bound] at numbered
    exact writes.fresh.nodup_labels numbered
  -- the tables began empty, so they hold the aliases of these bindings and no others
  have grown : tables.labels.Perm (mints.map Mint.label) := by
    have labels := writes.fresh.perm_labels
    rw [← bound] at labels
    simpa [Aliases.labels, Aliases.empty] using labels
  have covers : ∀ mark, IsMark mark → Covers (tables.marked mark) (placeholdersIn mark texts) := by
    intro mark isMark
    have same := (writes.mentioned mark isMark).trans (grown.symm.filter (hasMark mark))
    exact .of_perm same ((grown.nodup_iff.mpr distinct).filter _)
  obtain ⟨names, values⟩ := numbered.marked_eq
  constructor
  · exact names ▸ covers '#' (.inl rfl)
  · exact values ▸ covers ':' (.inr rfl)

end Writes

theorem Step.marked_of_mem {number place : Nat} {segments : List String} {step : Step}
    (member : step ∈ segmentSteps number place segments) : step.Marked := by
  rcases mem_segmentSteps member with ⟨later, rfl⟩ | ⟨digits, position, rfl⟩
  · exact .segmentAlias number later
  · exact List.all_eq_true.mp position

namespace Update

theorem marked_of_compile {number : Nat} {update : Update} {aliases tables : Aliases}
    {clause : UpdateClause} (compiled : update.compile number aliases = (.ok clause, tables)) :
    clause.Marked := by
  obtain ⟨-, ⟨-, -, rfl, -⟩ | ⟨-, encoded, -, rfl, -⟩⟩ := compile_cases compiled
  · exact fun _ => Step.marked_of_mem
  · exact ⟨fun _ => Step.marked_of_mem, .valueAlias _⟩

theorem marked_of_compileAll {number : Nat} {updates : List Update} {aliases tables : Aliases}
    {clauses : List UpdateClause}
    (compiled : compileAll number updates aliases = (.ok clauses, tables)) :
    ∀ clause ∈ clauses, clause.Marked := by
  induction updates generalizing number aliases clauses with
  | nil =>
      simp only [compileAll, Prod.mk.injEq, Except.ok.injEq] at compiled
      simp [← compiled.1]
  | cons update rest ih =>
      obtain ⟨clause, after, others, first, later, rfl⟩ := compileAll_cons_ok compiled
      exact List.forall_mem_cons.mpr ⟨marked_of_compile first, ih later⟩

end Update

theorem writes_of_compileUpdates {updates : List Update} {start tables : Aliases} {text : String}
    (numbered : start.Numbered)
    (compiled : compileUpdates updates start = (.ok text, tables)) :
    Writes start (Update.mintsAll start.names.length updates start) [text] tables := by
  obtain ⟨clauses, compiledAll, rfl⟩ := compileUpdates_ok compiled
  obtain ⟨mentioned, mentions, own⟩ :=
    UpdateClause.mentions_expression (Update.marked_of_compileAll compiledAll)
  obtain ⟨fresh, next⟩ := Update.fresh_mintsAll _ updates numbered
  have written := Update.compileAll_tables start.names.length updates start
  rw [compiledAll] at written
  rw [show tables = _ from written]
  exact .of_mentions mentions (Update.labels_compileAll compiledAll ▸ own) fresh next

theorem writes_of_compileConditions {conditions : List Condition} {start tables : Aliases}
    {text : String} (numbered : start.Numbered)
    (compiled : compileConditions conditions start = (.ok text, tables)) :
    Writes start (Condition.mintsAll conditions start) [text] tables := by
  obtain ⟨clauses, compiledAll, rfl⟩ := compileConditions_eq_ok_iff.mp compiled
  have mentions := Clause.mentions_expression (Condition.readable_of_compileAll compiledAll)
  obtain ⟨fresh, next⟩ := Condition.fresh_mintsAll conditions numbered
  have written := Condition.compileAll_tables conditions start
  rw [compiledAll] at written
  rw [show tables = _ from written]
  exact .of_mentions mentions (.of_eq (Condition.labels_compileAll compiledAll)) fresh next

end KeyedStore
