import KeyedStore.Proofs.Expression.ConditionReadBack

/-! What expressions mention: the aliases of their clauses, each where its clause uses it, and
no other placeholder. The text of a clause ends each alias with a character of the syntax, so
no alias is read on into what stands behind it. -/

namespace KeyedStore

namespace Clause

theorem Readable.mentions {clause : Clause} (readable : clause.Readable) :
    Mentions clause.text.toList clause.labels := by
  have name := Mentions.label readable.name
  have closing : Mentions [')'] [] := .silent (by decide)
  cases readable.written with
  | existence function named alone text =>
      have opening : Silent (function.toList ++ ['(']) := by
        rcases ConditionReader.existence?_cases named with same | same <;> rw [same] <;> decide
      have closed := name.append closing (.cons rfl)
      simpa [text, labels, alone] using closed.behind opening
  | comparison operator value named given text =>
      have placeholder := readable.value value (by rw [given]; rfl)
      have between : Silent [' ', operator, ' '] := by
        have listed := ConditionReader.comparison?_cases named
        simp only [List.mem_cons, List.not_mem_nil, or_false] at listed
        rcases listed with rfl | rfl | rfl <;> decide
      have compared := (Mentions.label placeholder).behind between
      simpa [text, labels, given] using name.append compared (.cons rfl)
  | beginning value kind given text =>
      have placeholder := readable.value value (by rw [given]; rfl)
      have closed := (Mentions.label placeholder).append closing (.cons rfl)
      have compared := closed.behind (by decide : Silent [',', ' '])
      have both := name.append compared (.cons rfl)
      simpa [text, labels, given] using both.behind (by decide : Silent "begins_with(".toList)

theorem ends_joinedText (clauses : List Clause) : Ends (joinedText clauses).toList := by
  cases clauses with
  | nil => simp [joinedText, Ends]
  | cons clause rest =>
      simp only [joinedText, String.toList_append, List.append_assoc]
      exact .cons rfl

theorem mentions_joinedText {clauses : List Clause}
    (readable : ∀ clause ∈ clauses, clause.Readable) :
    Mentions (joinedText clauses).toList (clauses.flatMap labels) := by
  induction clauses with
  | nil => exact .nil
  | cons clause rest ih =>
      obtain ⟨first, others⟩ := List.forall_mem_cons.mp readable
      have keyword : Silent (" " ++ clause.relationship.keyword ++ " ").toList := by
        cases clause.relationship <;> decide
      have joined := (first.mentions.append (ih others) (ends_joinedText rest)).behind keyword
      simpa [joinedText] using joined

theorem mentions_expression {clauses : List Clause}
    (readable : ∀ clause ∈ clauses, clause.Readable) :
    Mentions (expression clauses).toList (clauses.flatMap labels) := by
  cases clauses with
  | nil => exact .nil
  | cons clause rest =>
      obtain ⟨first, others⟩ := List.forall_mem_cons.mp readable
      have joined := first.mentions.append (mentions_joinedText others) (ends_joinedText rest)
      simpa [expression] using joined

example : placeholders '#' "#ename1 = :val0 OR attribute_exists(#ename10)".toList =
    ["#ename1", "#ename10"] := rfl

end Clause

namespace Step

def Marked : Step → Prop
  | .name label => Placeholder '#' label
  | .position digits => ∀ char ∈ digits.toList, char.isDigit = true

def labels (steps : List Step) : List String :=
  steps.filterMap label?

theorem labels_append_position (steps : List Step) (digits : String) :
    labels (steps ++ [.position digits]) = labels steps := by
  simp [labels, List.filterMap_cons, label?]

theorem ends_tailText (steps : List Step) : Ends (tailText steps).toList := by
  cases steps with
  | nil => simp [tailText, Ends]
  | cons step rest =>
      cases step with
      | name label =>
          simp only [tailText, String.toList_append, List.append_assoc]
          exact .cons rfl
      | position digits =>
          simp only [tailText, String.toList_append, List.append_assoc]
          exact .cons rfl

theorem mentions_tailText {steps : List Step} (marked : ∀ step ∈ steps, step.Marked) :
    Mentions (tailText steps).toList (labels steps) := by
  induction steps with
  | nil => exact .nil
  | cons step rest ih =>
      obtain ⟨first, others⟩ := List.forall_mem_cons.mp marked
      cases step with
      | name label =>
          have named := (Mentions.label first).append (ih others) (ends_tailText rest)
          simpa [tailText, labels, label?] using named.behind (by decide : Silent ['.'])
      | position digits =>
          have closed := (ih others).behind (by decide : Silent [']'])
          have written := (closed.behind (silent_of_isDigit first)).behind
            (by decide : Silent ['['])
          simpa [tailText, labels, List.filterMap_cons, label?] using written

theorem mentions_text {steps : List Step} (marked : ∀ step ∈ steps, step.Marked) :
    Mentions (text steps).toList (labels steps) := by
  unfold text
  split
  · rename_i label rest
    obtain ⟨first, others⟩ := List.forall_mem_cons.mp marked
    have named := (Mentions.label first).append (mentions_tailText others) (ends_tailText rest)
    simpa [labels, label?] using named
  · exact mentions_tailText marked

end Step

theorem mentions_intercalate {separator : String} (silent : Silent separator.toList)
    (stops : ∀ rest, Ends (separator.toList ++ rest)) {texts : List String}
    {labels : List (List String)}
    (mentioned : List.Forall₂ (fun text own => Mentions text.toList own) texts labels) :
    Mentions (String.intercalate separator texts).toList labels.flatten := by
  induction mentioned with
  | nil => simpa using Mentions.nil
  | cons first rest ih =>
      cases rest with
      | nil => simpa using first
      | cons second others =>
          have joined := first.append (ih.behind silent) (stops _)
          rw [String.intercalate_cons_cons, String.toList_append, String.toList_append,
            List.append_assoc]
          exact joined

namespace UpdateClause

def Marked : UpdateClause → Prop
  | .assign path value => (∀ step ∈ path.steps, step.Marked) ∧ Placeholder ':' value
  | .remove steps => ∀ step ∈ steps, step.Marked

def assignmentLabels (assignment : List Step × String) : List String :=
  Step.labels assignment.1 ++ [assignment.2]

theorem marked_assignments {clauses : List UpdateClause}
    (marked : ∀ clause ∈ clauses, clause.Marked) (appends : Nat) :
    ∀ assignment ∈ assignments appends clauses,
      (∀ step ∈ assignment.1, step.Marked) ∧ Placeholder ':' assignment.2 := by
  induction clauses generalizing appends with
  | nil => simp [assignments]
  | cons clause rest ih =>
      obtain ⟨first, others⟩ := List.forall_mem_cons.mp marked
      cases clause with
      | remove steps => exact ih others appends
      | assign path value =>
          simp only [assignments]
          split
          · refine List.forall_mem_cons.mpr ⟨⟨?_, first.2⟩, ih others (appends + 1)⟩
            refine List.forall_mem_append.mpr ⟨first.1, List.forall_mem_singleton.mpr ?_⟩
            simp only [Step.Marked, numberedText, String.toList_ofList]
            exact fun _ => isDigit_of_mem_naturalText
          · exact List.forall_mem_cons.mpr ⟨first, ih others appends⟩

theorem marked_removals {clauses : List UpdateClause}
    (marked : ∀ clause ∈ clauses, clause.Marked) :
    ∀ steps ∈ removals clauses, ∀ step ∈ steps, step.Marked := by
  induction clauses with
  | nil => simp [removals]
  | cons clause rest ih =>
      obtain ⟨first, others⟩ := List.forall_mem_cons.mp marked
      cases clause with
      | remove steps => exact List.forall_mem_cons.mpr ⟨first, ih others⟩
      | assign path value => exact ih others

theorem perm_labels (clauses : List UpdateClause) (appends : Nat) :
    ((assignments appends clauses).flatMap assignmentLabels ++
      (removals clauses).flatMap Step.labels).Perm (clauses.flatMap labels) := by
  induction clauses generalizing appends with
  | nil => exact List.Perm.refl _
  | cons clause rest ih =>
      cases clause with
      | remove steps =>
          -- the removal stands behind all assignments, and is moved before them
          have moved := (ih appends).append_left (Step.labels steps)
          simp only [assignments, removals, List.flatMap_cons]
          exact (List.perm_append_comm_assoc _ _ _).trans moved
      | assign path value =>
          have own : labels (.assign path value) = Step.labels path.steps ++ [value] := rfl
          simp only [assignments, removals, List.flatMap_cons, own]
          split
          · have kept := (ih (appends + 1)).append_left (Step.labels path.steps ++ [value])
            simpa only [List.flatMap_cons, assignmentLabels, Step.labels_append_position,
              List.append_assoc] using kept
          · have kept := (ih appends).append_left (Step.labels path.steps ++ [value])
            simpa only [List.flatMap_cons, assignmentLabels, List.append_assoc] using kept

theorem mentions_assignment {assignment : List Step × String}
    (marked : (∀ step ∈ assignment.1, step.Marked) ∧ Placeholder ':' assignment.2) :
    Mentions (Step.text assignment.1 ++ " = " ++ assignment.2).toList
      (assignmentLabels assignment) := by
  have assigned := (Mentions.label marked.2).behind (by decide : Silent " = ".toList)
  have both := (Step.mentions_text marked.1).append assigned (.cons rfl)
  simpa [assignmentLabels] using both

theorem mentions_section? (keyword : String) (silent : Silent (keyword ++ " ").toList)
    {entries : List String} {labels : List (List String)}
    (mentioned : List.Forall₂ (fun text own => Mentions text.toList own) entries labels) :
    ∃ own, own.flatten = labels.flatten ∧
      List.Forall₂ (fun text own => Mentions text.toList own) (section? keyword entries) own := by
  have comma : Silent ", ".toList := by decide
  cases mentioned with
  | nil => exact ⟨[], rfl, .nil⟩
  | cons first rest =>
      have joined := mentions_intercalate comma (fun _ => .cons rfl) (.cons first rest)
      refine ⟨[_], List.flatten_singleton, .cons ?_ .nil⟩
      simpa using joined.behind silent

theorem mentions_expression {clauses : List UpdateClause}
    (marked : ∀ clause ∈ clauses, clause.Marked) :
    ∃ mentioned, Mentions (expression clauses).toList mentioned ∧
      mentioned.Perm (clauses.flatMap labels) := by
  have assigned : List.Forall₂ (fun text own => Mentions text.toList own)
      ((assignments 0 clauses).map fun assignment =>
        Step.text assignment.1 ++ " = " ++ assignment.2)
      ((assignments 0 clauses).map assignmentLabels) := by
    simp only [List.forall₂_map_left_iff, List.forall₂_map_right_iff, List.forall₂_same]
    exact fun assignment member => mentions_assignment (marked_assignments marked 0 _ member)
  have removed : List.Forall₂ (fun text own => Mentions text.toList own)
      ((removals clauses).map Step.text) ((removals clauses).map Step.labels) := by
    simp only [List.forall₂_map_left_iff, List.forall₂_map_right_iff, List.forall₂_same]
    exact fun steps member => Step.mentions_text (marked_removals marked _ member)
  obtain ⟨set, setLabels, setMentions⟩ := mentions_section? "SET" (by decide) assigned
  obtain ⟨remove, removeLabels, removeMentions⟩ := mentions_section? "REMOVE" (by decide) removed
  have blank : Silent " ".toList := by decide
  refine ⟨_, mentions_intercalate blank (fun _ => .cons rfl)
    (List.rel_append setMentions removeMentions), ?_⟩
  rw [List.flatten_append, setLabels, removeLabels, ← List.flatMap_def, ← List.flatMap_def]
  exact perm_labels clauses 0

end UpdateClause

end KeyedStore
