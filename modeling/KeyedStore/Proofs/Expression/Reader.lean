import KeyedStore.Expression.Update

/-! A reader of update expressions, from the text alone: words between blanks, of which
`SET` begins assignments and `REMOVE` begins targets, entries that go on behind a comma, and
targets of names behind points and positions in brackets. An expression reads back as the
assignments and removals it was written from, as long as no alias or position holds a
character that the syntax is made of. -/

namespace KeyedStore

namespace UpdateReader

/-- The steps behind the characters up to the first point or bracket, with these
characters, and whether a closing bracket stands right behind them. -/
def tail? : List Char → Option (Bool × List Char × List Step)
  | [] => some (false, [], [])
  | char :: rest => do
      let (closed, word, steps) ← tail? rest
      if char = '.' then
        if closed then none else some (false, [], .name (String.ofList word) :: steps)
      else if char = '[' then
        if closed then some (false, [], .position (String.ofList word) :: steps) else none
      else if char = ']' then
        -- what stands behind a position begins with a point or another bracket
        if closed ∨ word ≠ [] then none else some (true, [], steps)
      else some (closed, char :: word, steps)

def target? (word : List Char) : Option (List Step) :=
  match tail? word with
  | some (false, label, steps) => some (.name (String.ofList label) :: steps)
  | _ => none

def beforeComma? (word : List Char) : Option (List Char) :=
  if word.getLast? = some ',' then some word.dropLast else none

def targets? : List (List Char) → Option (List (List Step))
  | [] => none
  | word :: rest =>
      match beforeComma? word with
      | some word => do
          let steps ← target? word
          let others ← targets? rest
          return steps :: others
      | none => do
          let steps ← target? word
          if rest = [] then return [steps] else none

def removals? : List (List Char) → Option (List (List Step))
  | [] => some []
  | keyword :: words => if keyword = "REMOVE".toList then targets? words else none

def assignments? : List (List Char) → Option (List (List Step × String) × List (List Step))
  | target :: equals :: value :: rest =>
      if equals = ['='] then
        match beforeComma? value with
        | some value => do
            let steps ← target? target
            let (others, removed) ← assignments? rest
            return ((steps, String.ofList value) :: others, removed)
        | none => do
            let steps ← target? target
            let removed ← removals? rest
            return ([(steps, String.ofList value)], removed)
      else none
  | _ => none

def read? (text : String) : Option (List (List Step × String) × List (List Step)) :=
  match text.toList.splitOn ' ' with
  | [] => none
  | keyword :: words =>
      if keyword = "SET".toList then assignments? words
      else do
        let removed ← removals? (keyword :: words)
        return ([], removed)

end UpdateReader

def syntaxMarks : List Char := [' ', ',', '.', '[', ']']

def Plain (text : List Char) : Prop :=
  ∀ char ∈ text, char ∉ syntaxMarks

def Step.Plain : Step → Prop
  | .name label => KeyedStore.Plain label.toList
  | .position digits => KeyedStore.Plain digits.toList

/-- Steps with a text that reads back: a name first, and no character of the syntax inside
of a step. -/
def Readable (steps : List Step) : Prop :=
  (∃ label rest, steps = .name label :: rest) ∧ ∀ step ∈ steps, step.Plain

def UpdateClause.Readable : UpdateClause → Prop
  | .assign path value => KeyedStore.Readable path.steps ∧ Plain value.toList
  | .remove steps => KeyedStore.Readable steps

theorem isDigit_syntaxMarks : ∀ mark ∈ syntaxMarks, mark.isDigit = false := by
  intro mark member
  simp only [syntaxMarks, List.mem_cons, List.not_mem_nil, or_false] at member
  rcases member with rfl | rfl | rfl | rfl | rfl <;> rfl

theorem Plain.of_isDigit {text : List Char} (digits : ∀ char ∈ text, char.isDigit = true) :
    Plain text := by
  intro char member mark
  have digit := digits char member
  rw [isDigit_syntaxMarks char mark] at digit
  exact absurd digit (by decide)

theorem Plain.append {front back : List Char} (first : Plain front) (second : Plain back) :
    Plain (front ++ back) :=
  List.forall_mem_append.mpr ⟨first, second⟩

theorem plain_naturalText (number : Nat) : Plain (naturalText number) :=
  .of_isDigit fun _ member => isDigit_of_mem_naturalText member

theorem Readable.append_position {steps : List Step} (readable : Readable steps)
    (number : Nat) : Readable (steps ++ [.position (numberedText number)]) := by
  obtain ⟨⟨label, rest, rfl⟩, plain⟩ := readable
  refine ⟨⟨label, _, rfl⟩, List.forall_mem_append.mpr ⟨plain, ?_⟩⟩
  refine List.forall_mem_singleton.mpr ?_
  rw [Step.Plain, numberedText, String.toList_ofList]
  exact plain_naturalText number

namespace UpdateClause

theorem readable_assignments {clauses : List UpdateClause}
    (readable : ∀ clause ∈ clauses, clause.Readable) (appends : Nat) :
    ∀ assignment ∈ assignments appends clauses,
      KeyedStore.Readable assignment.1 ∧ Plain assignment.2.toList := by
  induction clauses generalizing appends with
  | nil => simp [assignments]
  | cons clause rest ih =>
      obtain ⟨first, others⟩ := List.forall_mem_cons.mp readable
      cases clause with
      | remove steps => exact ih others appends
      | assign path value =>
          simp only [assignments]
          split
          · exact List.forall_mem_cons.mpr
              ⟨⟨first.1.append_position _, first.2⟩, ih others (appends + 1)⟩
          · exact List.forall_mem_cons.mpr ⟨first, ih others appends⟩

theorem readable_removals {clauses : List UpdateClause}
    (readable : ∀ clause ∈ clauses, clause.Readable) :
    ∀ steps ∈ removals clauses, KeyedStore.Readable steps := by
  induction clauses with
  | nil => simp [removals]
  | cons clause rest ih =>
      obtain ⟨first, others⟩ := List.forall_mem_cons.mp readable
      cases clause with
      | remove steps => exact List.forall_mem_cons.mpr ⟨first, ih others⟩
      | assign path value => exact ih others

end UpdateClause

namespace UpdateReader

theorem tail?_append {word behind rest : List Char} {closed : Bool} {steps : List Step}
    (plain : Plain word) (read : tail? rest = some (closed, behind, steps)) :
    tail? (word ++ rest) = some (closed, word ++ behind, steps) := by
  induction word with
  | nil => exact read
  | cons char word ih =>
      obtain ⟨mark, others⟩ := List.forall_mem_cons.mp plain
      simp only [syntaxMarks, List.mem_cons, List.not_mem_nil, or_false, not_or] at mark
      simp [tail?, ih others, mark]

theorem tail?_tailText {steps : List Step} (plain : ∀ step ∈ steps, step.Plain) :
    tail? (Step.tailText steps).toList = some (false, [], steps) := by
  induction steps with
  | nil => rfl
  | cons step rest ih =>
      obtain ⟨first, others⟩ := List.forall_mem_cons.mp plain
      have behind := ih others
      cases step with
      | name label =>
          have read := tail?_append first behind
          simp [Step.tailText, tail?, read]
      | position digits =>
          have closing : tail? (']' :: (Step.tailText rest).toList) = some (true, [], rest) := by
            simp [tail?, behind]
          have read := tail?_append first closing
          simp [Step.tailText, tail?, read]

theorem target?_text {steps : List Step} (readable : Readable steps) :
    target? (Step.text steps).toList = some steps := by
  obtain ⟨⟨label, rest, rfl⟩, plain⟩ := readable
  obtain ⟨first, others⟩ := List.forall_mem_cons.mp plain
  have read := tail?_append first (tail?_tailText others)
  simp [target?, Step.text, read]

theorem beforeComma?_of_notMem {word : List Char} (absent : ',' ∉ word) :
    beforeComma? word = none := by
  have last : word.getLast? ≠ some ',' := fun ends => absent (List.mem_of_getLast? ends)
  simp [beforeComma?, last]

theorem beforeComma?_append (word : List Char) : beforeComma? (word ++ [',']) = some word := by
  simp [beforeComma?]

theorem notMem_tailText {mark : Char} (outer : mark = ' ' ∨ mark = ',') {steps : List Step}
    (plain : ∀ step ∈ steps, step.Plain) : mark ∉ (Step.tailText steps).toList := by
  have syntactic : mark ∈ syntaxMarks := by rcases outer with rfl | rfl <;> decide
  have other : mark ≠ '.' ∧ mark ≠ '[' ∧ mark ≠ ']' := by rcases outer with rfl | rfl <;> decide
  induction steps with
  | nil => simp [Step.tailText]
  | cons step rest ih =>
      obtain ⟨first, others⟩ := List.forall_mem_cons.mp plain
      have behind := ih others
      cases step with
      | name label =>
          have inside : mark ∉ label.toList := fun member => first mark member syntactic
          simp [Step.tailText, other, inside, behind]
      | position digits =>
          have inside : mark ∉ digits.toList := fun member => first mark member syntactic
          simp [Step.tailText, other, inside, behind]

theorem notMem_text {mark : Char} (outer : mark = ' ' ∨ mark = ',') {steps : List Step}
    (readable : Readable steps) : mark ∉ (Step.text steps).toList := by
  have syntactic : mark ∈ syntaxMarks := by rcases outer with rfl | rfl <;> decide
  obtain ⟨⟨label, rest, rfl⟩, plain⟩ := readable
  obtain ⟨first, others⟩ := List.forall_mem_cons.mp plain
  have inside : mark ∉ label.toList := fun member => first mark member syntactic
  simp [Step.text, inside, notMem_tailText outer others]

theorem targets?_text {removed : List (List Step)} (filled : removed ≠ [])
    (readable : ∀ steps ∈ removed, Readable steps) :
    targets? ((String.intercalate ", " (removed.map Step.text)).toList.splitOn ' ') =
      some removed := by
  induction removed with
  | nil => exact absurd rfl filled
  | cons steps rest ih =>
      obtain ⟨first, others⟩ := List.forall_mem_cons.mp readable
      have noBlank := notMem_text (.inl rfl) first
      have noComma := notMem_text (.inr rfl) first
      cases rest with
      | nil =>
          simp [List.splitOn_eq_singleton noBlank, targets?, beforeComma?_of_notMem noComma,
            target?_text first]
      | cons next more =>
          have behind := ih (by simp) others
          have blank : ' ' ∉ (Step.text steps).toList ++ [','] := by simp [noBlank]
          have text : (String.intercalate ", " ((steps :: next :: more).map Step.text)).toList =
              ((Step.text steps).toList ++ [',']) ++
                ' ' :: (String.intercalate ", " ((next :: more).map Step.text)).toList := by
            simp [String.intercalate_cons_cons]
          rw [text, List.splitOn_append_cons_self_of_not_mem blank]
          rw [targets?, beforeComma?_append]
          simp only [target?_text first, behind]
          rfl

def assignmentText (assignment : List Step × String) : String :=
  Step.text assignment.1 ++ " = " ++ assignment.2

theorem assignments?_text {assigned : List (List Step × String)} (filled : assigned ≠ [])
    (readable : ∀ assignment ∈ assigned, Readable assignment.1 ∧ Plain assignment.2.toList)
    {behind : List Char} {words : List (List Char)} {removed : List (List Step)}
    (split : ∀ word : List Char, ' ' ∉ word → (word ++ behind).splitOn ' ' = word :: words)
    (removals : removals? words = some removed) :
    assignments? (((String.intercalate ", " (assigned.map assignmentText)).toList ++
      behind).splitOn ' ') = some (assigned, removed) := by
  induction assigned with
  | nil => exact absurd rfl filled
  | cons assignment rest ih =>
      obtain ⟨steps, value⟩ := assignment
      obtain ⟨⟨first, plain⟩, others⟩ := List.forall_mem_cons.mp readable
      have target := target?_text first
      have noBlank := notMem_text (.inl rfl) first
      have valueBlank : ' ' ∉ value.toList := fun member => plain _ member (by decide)
      have valueComma : ',' ∉ value.toList := fun member => plain _ member (by decide)
      have words3 : ∀ tail : List Char,
          ((Step.text steps).toList ++ ' ' :: (['='] ++ ' ' :: tail)).splitOn ' ' =
            (Step.text steps).toList :: ['='] :: tail.splitOn ' ' := by
        intro tail
        rw [List.splitOn_append_cons_self_of_not_mem noBlank,
          List.splitOn_append_cons_self_of_not_mem (by decide)]
      cases rest with
      | nil =>
          have text : (String.intercalate ", " ([(steps, value)].map assignmentText)).toList ++
              behind = (Step.text steps).toList ++ ' ' :: (['='] ++ ' ' ::
                (value.toList ++ behind)) := by
            simp [assignmentText]
          rw [text, words3, split value.toList valueBlank]
          simp [assignments?, beforeComma?_of_notMem valueComma, target, removals]
      | cons next more =>
          have text : (String.intercalate ", "
                (((steps, value) :: next :: more).map assignmentText)).toList ++ behind =
              (Step.text steps).toList ++ ' ' :: (['='] ++ ' ' ::
                ((value.toList ++ [',']) ++ ' ' ::
                  ((String.intercalate ", " ((next :: more).map assignmentText)).toList ++
                    behind))) := by
            simp [String.intercalate_cons_cons, assignmentText]
          have blank : ' ' ∉ value.toList ++ [','] := by simp [valueBlank]
          rw [text, words3, List.splitOn_append_cons_self_of_not_mem blank]
          rw [assignments?, if_pos rfl, beforeComma?_append]
          simp only [target, ih (by simp) others]
          simp

theorem removals?_text {removed : List (List Step)} (filled : removed ≠ [])
    (readable : ∀ steps ∈ removed, Readable steps) :
    removals? ("REMOVE".toList ::
      (String.intercalate ", " (removed.map Step.text)).toList.splitOn ' ') = some removed := by
  rw [removals?, if_pos rfl]
  exact targets?_text filled readable

theorem read?_text {assigned : List (List Step × String)} {removed : List (List Step)}
    (filled : assigned ≠ [] ∨ removed ≠ [])
    (readable : ∀ assignment ∈ assigned, Readable assignment.1 ∧ Plain assignment.2.toList)
    (readableRemovals : ∀ steps ∈ removed, Readable steps) :
    read? (String.intercalate " "
        (UpdateClause.section? "SET" (assigned.map assignmentText) ++
          UpdateClause.section? "REMOVE" (removed.map Step.text))) =
      some (assigned, removed) := by
  have keyword : ∀ tail : List Char, ("REMOVE".toList ++ ' ' :: tail).splitOn ' ' =
      "REMOVE".toList :: tail.splitOn ' ' := fun tail =>
    List.splitOn_append_cons_self_of_not_mem (by decide) tail
  by_cases noAssignments : assigned = []
  · subst noAssignments
    have someRemovals : removed ≠ [] := by simpa using filled
    have text : (String.intercalate " " (UpdateClause.section? "SET" ([].map assignmentText) ++
          UpdateClause.section? "REMOVE" (removed.map Step.text))).toList =
        "REMOVE".toList ++ ' ' :: (String.intercalate ", " (removed.map Step.text)).toList := by
      simp [UpdateClause.section?, someRemovals]
    rw [read?, text, keyword]
    simp only [removals?_text someRemovals readableRemovals]
    rfl
  · by_cases noRemovals : removed = []
    · subst noRemovals
      have text : (String.intercalate " "
            (UpdateClause.section? "SET" (assigned.map assignmentText) ++
              UpdateClause.section? "REMOVE" ([].map Step.text))).toList =
          "SET".toList ++ ' ' ::
            ((String.intercalate ", " (assigned.map assignmentText)).toList ++ []) := by
        simp [UpdateClause.section?, noAssignments]
      rw [read?, text, List.splitOn_append_cons_self_of_not_mem (by decide)]
      have last : ∀ word : List Char, ' ' ∉ word → (word ++ []).splitOn ' ' = word :: [] := by
        intro word noBlank
        rw [List.append_nil, List.splitOn_eq_singleton noBlank]
      exact assignments?_text noAssignments readable last rfl
    · have text : (String.intercalate " "
            (UpdateClause.section? "SET" (assigned.map assignmentText) ++
              UpdateClause.section? "REMOVE" (removed.map Step.text))).toList =
          "SET".toList ++ ' ' ::
            ((String.intercalate ", " (assigned.map assignmentText)).toList ++
              ' ' :: ("REMOVE".toList ++
                ' ' :: (String.intercalate ", " (removed.map Step.text)).toList)) := by
        simp [UpdateClause.section?, noAssignments, noRemovals]
      rw [read?, text, List.splitOn_append_cons_self_of_not_mem (by decide)]
      refine assignments?_text noAssignments readable ?_
        (removals?_text noRemovals readableRemovals)
      intro word noBlank
      rw [List.splitOn_append_cons_self_of_not_mem noBlank, keyword]

theorem assignments_or_removals {clauses : List UpdateClause} (filled : clauses ≠ [])
    (appends : Nat) :
    UpdateClause.assignments appends clauses ≠ [] ∨ UpdateClause.removals clauses ≠ [] := by
  cases clauses with
  | nil => exact absurd rfl filled
  | cons clause rest =>
      cases clause with
      | assign path value =>
          left
          simp only [UpdateClause.assignments]
          split <;> simp
      | remove steps => exact .inr (by simp [UpdateClause.removals])

/-- An expression reads back as the assignments and removals it was written from. -/
theorem read?_expression {clauses : List UpdateClause} (filled : clauses ≠ [])
    (readable : ∀ clause ∈ clauses, clause.Readable) :
    read? (UpdateClause.expression clauses) =
      some (UpdateClause.assignments 0 clauses, UpdateClause.removals clauses) :=
  read?_text (assignments_or_removals filled 0) (UpdateClause.readable_assignments readable 0)
    (UpdateClause.readable_removals readable)

example : read? "SET #1ename0[2].#1ename2 = :val0, #2ename0 = :val1 REMOVE #0ename0[3]" =
    some ([([.name "#1ename0", .position "2", .name "#1ename2"], ":val0"),
      ([.name "#2ename0"], ":val1")], [[.name "#0ename0", .position "3"]]) := rfl

end UpdateReader

end KeyedStore
