import KeyedStore.Proofs.Expression.AliasText

/-! Placeholders: what a backend takes for an alias in the text of an expression, which is a
mark, `#` for a name and `:` for a value, with the word that stands behind it. Every alias
is a placeholder, and a text put together from aliases and other characters mentions these
aliases and nothing else, as long as no word goes on right behind an alias. -/

namespace KeyedStore

def isWordChar (char : Char) : Bool :=
  char.isAlphanum || char == '_'

/-- The placeholders with a mark in a text, each with all of the word behind its mark. -/
def placeholders (mark : Char) : List Char → List String
  | [] => []
  | char :: rest =>
      if char = mark then
        String.ofList (char :: rest.takeWhile isWordChar) :: placeholders mark rest
      else placeholders mark rest

def IsMark (mark : Char) : Prop :=
  mark = '#' ∨ mark = ':'

def Placeholder (mark : Char) (label : String) : Prop :=
  ∃ word, label.toList = mark :: word ∧ ∀ char ∈ word, isWordChar char = true

def hasMark (mark : Char) (label : String) : Bool :=
  label.toList.head? == some mark

theorem isWordChar_mark {mark : Char} (isMark : IsMark mark) : isWordChar mark = false := by
  rcases isMark with rfl | rfl <;> rfl

theorem isWordChar_of_isDigit {char : Char} (digit : char.isDigit = true) :
    isWordChar char = true := by
  simp [isWordChar, Char.isAlphanum, digit]

theorem isWordChar_naturalText (number : Nat) :
    ∀ char ∈ naturalText number, isWordChar char = true :=
  fun _ member => isWordChar_of_isDigit (isDigit_of_mem_naturalText member)

namespace Placeholder

theorem nameAlias (number : Nat) : Placeholder '#' (Aliases.nameAlias number) := by
  refine ⟨_, Aliases.toList_nameAlias number, ?_⟩
  refine List.forall_mem_cons.mpr ⟨rfl, List.forall_mem_append.mpr ⟨?_, ?_⟩⟩
  · exact List.all_eq_true.mp rfl
  · exact isWordChar_naturalText number

theorem segmentAlias (path place : Nat) : Placeholder '#' (Aliases.segmentAlias path place) := by
  refine ⟨_, Aliases.toList_segmentAlias path place, ?_⟩
  refine List.forall_mem_append.mpr ⟨isWordChar_naturalText path, ?_⟩
  refine List.forall_mem_cons.mpr ⟨rfl, List.forall_mem_append.mpr ⟨?_, ?_⟩⟩
  · exact List.all_eq_true.mp rfl
  · exact isWordChar_naturalText place

theorem valueAlias (number : Nat) : Placeholder ':' (Aliases.valueAlias number) := by
  refine ⟨_, Aliases.toList_valueAlias number, List.forall_mem_append.mpr ⟨?_, ?_⟩⟩
  · exact List.all_eq_true.mp rfl
  · exact isWordChar_naturalText number

variable {mark : Char} {label : String}

theorem notMem (placeholder : Placeholder mark label) {char : Char} (other : char ≠ mark)
    (outside : isWordChar char = false) : char ∉ label.toList := by
  obtain ⟨word, text, inside⟩ := placeholder
  rw [text]
  intro member
  rcases List.mem_cons.mp member with same | later
  · exact other same
  · rw [inside char later] at outside
    exact absurd outside (by decide)

theorem hasMark_iff (placeholder : Placeholder mark label) (other : Char) :
    hasMark other label = true ↔ mark = other := by
  obtain ⟨word, text, -⟩ := placeholder
  simp [hasMark, text]

end Placeholder

def Silent (text : List Char) : Prop :=
  '#' ∉ text ∧ ':' ∉ text

instance (text : List Char) : Decidable (Silent text) :=
  inferInstanceAs (Decidable ('#' ∉ text ∧ ':' ∉ text))

theorem Silent.notMem {text : List Char} (silent : Silent text) {mark : Char}
    (isMark : IsMark mark) : mark ∉ text := by
  rcases isMark with rfl | rfl
  · exact silent.1
  · exact silent.2

theorem silent_of_isDigit {text : List Char} (digits : ∀ char ∈ text, char.isDigit = true) :
    Silent text := by
  constructor
  · intro member
    exact absurd (digits '#' member) (by decide)
  · intro member
    exact absurd (digits ':' member) (by decide)

def Ends (text : List Char) : Prop :=
  ∀ char ∈ text.head?, isWordChar char = false

theorem Ends.cons {char : Char} {rest : List Char} (outside : isWordChar char = false) :
    Ends (char :: rest) := by
  intro first same
  simp only [List.head?_cons, Option.mem_def, Option.some.injEq] at same
  exact same ▸ outside

theorem Ends.append {front back : List Char} (first : Ends front) (second : Ends back) :
    Ends (front ++ back) := by
  cases front with
  | nil => exact second
  | cons char rest => exact first

/-- The text mentions these labels in their order, and no others, whatever stands behind. -/
def Mentions (text : List Char) (labels : List String) : Prop :=
  ∀ mark, IsMark mark → ∀ rest, Ends rest →
    placeholders mark (text ++ rest) = labels.filter (hasMark mark) ++ placeholders mark rest

theorem placeholders_append_of_notMem {mark : Char} {text : List Char} (absent : mark ∉ text)
    (rest : List Char) : placeholders mark (text ++ rest) = placeholders mark rest := by
  induction text with
  | nil => rfl
  | cons char others ih =>
      simp only [List.mem_cons, not_or] at absent
      rw [List.cons_append, placeholders, if_neg (Ne.symm absent.1), ih absent.2]

namespace Mentions

theorem nil : Mentions [] [] :=
  fun _ _ _ _ => rfl

theorem placeholders_eq {text : List Char} {labels : List String} (mentions : Mentions text labels)
    {mark : Char} (isMark : IsMark mark) :
    placeholders mark text = labels.filter (hasMark mark) := by
  simpa [placeholders] using mentions mark isMark [] (by simp [Ends])

theorem append {front back : List Char} {labels others : List String}
    (first : Mentions front labels) (second : Mentions back others) (ends : Ends back) :
    Mentions (front ++ back) (labels ++ others) := by
  intro mark isMark rest restEnds
  rw [List.append_assoc, first mark isMark _ (ends.append restEnds),
    second mark isMark rest restEnds, List.filter_append, List.append_assoc]

theorem behind {front back : List Char} {labels : List String} (silent : Silent front)
    (mentions : Mentions back labels) : Mentions (front ++ back) labels := by
  intro mark isMark rest ends
  rw [List.append_assoc, placeholders_append_of_notMem (silent.notMem isMark)]
  exact mentions mark isMark rest ends

theorem silent {text : List Char} (silent : Silent text) : Mentions text [] := by
  simpa using nil.behind silent

theorem label {mark : Char} {label : String} (placeholder : Placeholder mark label) :
    Mentions label.toList [label] := by
  intro other isOther rest ends
  have marked := placeholder.hasMark_iff other
  obtain ⟨word, text, inside⟩ := placeholder
  have silent : other ∉ word := by
    intro member
    have outside := isWordChar_mark isOther
    rw [inside other member] at outside
    exact absurd outside (by decide)
  have stops : rest.takeWhile isWordChar = [] := by
    cases rest with
    | nil => rfl
    | cons char others => simp [ends char rfl]
  rw [text, List.cons_append, placeholders, placeholders_append_of_notMem silent]
  by_cases same : mark = other
  · have whole : (word ++ rest).takeWhile isWordChar = word := by
      rw [List.takeWhile_append_of_pos inside, stops, List.append_nil]
    rw [if_pos same, whole, ← text, String.ofList_toList]
    simp [marked.mpr same]
  · have unmarked : hasMark other label = false := by
      rw [← Bool.not_eq_true]
      exact fun holds => same (marked.mp holds)
    simp [same, unmarked]

end Mentions

end KeyedStore
