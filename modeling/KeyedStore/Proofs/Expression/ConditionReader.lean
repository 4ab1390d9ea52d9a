import KeyedStore.Expression.Condition
import KeyedStore.Proofs.Expression.Placeholder

/-! A reader of condition expressions, from the text alone: words between blanks, of which
`AND` and `OR` stand between clauses, and clauses that are comparisons of three words or
functions with their arguments between parentheses. An expression reads back as the clauses
it was written from, as long as names and values are placeholders. -/

namespace KeyedStore

/-- A condition as a text tells it: how it is joined to the one before, its kind, the name it
asks about, and what it compares with. -/
structure Question (Operand : Type) where
  joined : Option Relationship
  kind : ConditionKind
  name : String
  operand : Option Operand

namespace ConditionReader

def keyword? (word : List Char) : Option Relationship :=
  if word = "AND".toList then some .and
  else if word = "OR".toList then some .or
  else none

/-- The words up to the first keyword, and those behind each keyword up to the next. -/
def groups : List (List Char) → List (List Char) × List (Relationship × List (List Char))
  | [] => ([], [])
  | word :: rest =>
      let (group, others) := groups rest
      match keyword? word with
      | some relationship => ([], (relationship, group) :: others)
      | none => (word :: group, others)

def existence? (function : List Char) : Option ConditionKind :=
  if function = "attribute_exists".toList then some .present
  else if function = "attribute_not_exists".toList then some .absent
  else none

def comparison? (word : List Char) : Option ConditionKind :=
  if word = ['>'] then some .greaterThan
  else if word = ['<'] then some .lessThan
  else if word = ['='] then some .equal
  else none

def before? (mark : Char) (word : List Char) : Option (List Char) :=
  if word.getLast? = some mark then some word.dropLast else none

def clause? (joined : Option Relationship) : List (List Char) → Option (Question String)
  | [word] =>
      match word.splitOn '(' with
      | [function, argument] => do
          let kind ← existence? function
          let name ← before? ')' argument
          return ⟨joined, kind, String.ofList name, none⟩
      | _ => none
  | [word, argument] =>
      match word.splitOn '(' with
      | [function, field] =>
          if function = "begins_with".toList then do
            let name ← before? ',' field
            let value ← before? ')' argument
            return ⟨joined, .beginsWith, String.ofList name, some (String.ofList value)⟩
          else none
      | _ => none
  | [name, comparison, value] => do
      let kind ← comparison? comparison
      return ⟨joined, kind, String.ofList name, some (String.ofList value)⟩
  | _ => none

def read? (text : String) : Option (List (Question String)) :=
  if text = "" then some []
  else do
    let (first, others) := groups (text.toList.splitOn ' ')
    let first ← clause? none first
    let others ← others.mapM fun group => clause? (some group.1) group.2
    return first :: others

example : read? "#ename0 > :val0 OR attribute_exists(#ename1) AND begins_with(#ename2, :val1)" =
    some [⟨none, .greaterThan, "#ename0", some ":val0"⟩,
      ⟨some .or, .present, "#ename1", none⟩,
      ⟨some .and, .beginsWith, "#ename2", some ":val1"⟩] := rfl

end ConditionReader

namespace Clause

/-- A clause with a text that reads back: its name and its value are placeholders, and it has
a value exactly if its kind compares. -/
structure Readable (clause : Clause) : Prop where
  name : Placeholder '#' clause.name
  compares : clause.value.isSome = clause.kind.operandName?.isSome
  value : ∀ label ∈ clause.value, Placeholder ':' label

def question (joined : Option Relationship) (clause : Clause) : Question String :=
  ⟨joined, clause.kind, clause.name, clause.value⟩

def questions : List Clause → List (Question String)
  | [] => []
  | first :: rest =>
      first.question none :: rest.map fun clause => clause.question (some clause.relationship)

inductive Written (clause : Clause) : Prop
  | existence (function : String)
      (named : ConditionReader.existence? function.toList = some clause.kind)
      (alone : clause.value = none)
      (text : clause.text.toList = function.toList ++ '(' :: (clause.name.toList ++ [')']))
  | comparison (operator : Char) (value : String)
      (named : ConditionReader.comparison? [operator] = some clause.kind)
      (given : clause.value = some value)
      (text : clause.text.toList = clause.name.toList ++ ' ' :: operator :: ' ' :: value.toList)
  | beginning (value : String) (kind : clause.kind = .beginsWith)
      (given : clause.value = some value)
      (text : clause.text.toList = "begins_with".toList ++ '(' ::
        (clause.name.toList ++ ',' :: ' ' :: (value.toList ++ [')'])))

theorem Readable.written {clause : Clause} (readable : clause.Readable) : clause.Written := by
  have compares := readable.compares
  obtain ⟨relationship, kind, name, value⟩ := clause
  cases value with
  | none =>
      cases kind with
      | present =>
          refine .existence "attribute_exists" rfl rfl ?_
          change ("attribute_exists(" ++ name ++ ")").toList = _
          simp
      | absent =>
          refine .existence "attribute_not_exists" rfl rfl ?_
          change ("attribute_not_exists(" ++ name ++ ")").toList = _
          simp
      | _ => simp [ConditionKind.operandName?] at compares
  | some value =>
      cases kind with
      | greaterThan =>
          refine .comparison '>' value rfl rfl ?_
          change (name ++ " > " ++ value).toList = _
          simp
      | lessThan =>
          refine .comparison '<' value rfl rfl ?_
          change (name ++ " < " ++ value).toList = _
          simp
      | equal =>
          refine .comparison '=' value rfl rfl ?_
          change (name ++ " = " ++ value).toList = _
          simp
      | beginsWith =>
          refine .beginning value rfl rfl ?_
          change ("begins_with(" ++ name ++ ", " ++ value ++ ")").toList = _
          simp
      | _ => simp [ConditionKind.operandName?] at compares

theorem Written.text_ne_nil {clause : Clause} (written : clause.Written) :
    clause.text.toList ≠ [] := by
  cases written with
  | existence function named alone text => simp [text]
  | comparison operator value named given text => simp [text]
  | beginning value kind given text => simp [text]

theorem expression_eq_empty_iff {clauses : List Clause}
    (readable : ∀ clause ∈ clauses, clause.Readable) :
    expression clauses = "" ↔ clauses = [] := by
  cases clauses with
  | nil => exact ⟨fun _ => rfl, fun _ => rfl⟩
  | cons clause rest =>
      have first := readable clause (List.mem_cons_self ..)
      have filled : (expression (clause :: rest)).toList ≠ [] := by
        rw [expression, String.toList_append]
        exact List.append_ne_nil_of_left_ne_nil first.written.text_ne_nil _
      constructor
      · intro empty
        exact absurd (congrArg String.toList empty) filled
      · intro empty
        exact absurd empty (List.cons_ne_nil clause rest)

end Clause

namespace ConditionReader

theorem before?_append (mark : Char) (word : List Char) :
    before? mark (word ++ [mark]) = some word := by
  simp [before?]

theorem groups_append {words : List (List Char)} (plain : ∀ word ∈ words, keyword? word = none)
    (rest : List (List Char)) :
    groups (words ++ rest) = (words ++ (groups rest).1, (groups rest).2) := by
  induction words with
  | nil => rfl
  | cons word others ih =>
      obtain ⟨first, later⟩ := List.forall_mem_cons.mp plain
      rw [List.cons_append, groups, ih later]
      simp [first]

theorem keyword?_keyword (relationship : Relationship) :
    keyword? relationship.keyword.toList = some relationship := by
  cases relationship <;> rfl

theorem keyword?_of_mem {word : List Char} (char : Char) (member : char ∈ word)
    (foreign : char ∉ "AND".toList ++ "OR".toList) : keyword? word = none := by
  have notAnd : word ≠ "AND".toList := by
    rintro rfl
    exact foreign (List.mem_append_left _ member)
  have notOr : word ≠ "OR".toList := by
    rintro rfl
    exact foreign (List.mem_append_right _ member)
  simp only [keyword?, notAnd, notOr, if_false]

theorem keyword?_placeholder {mark : Char} {label : String} (placeholder : Placeholder mark label)
    (foreign : mark ∉ "AND".toList ++ "OR".toList) : keyword? label.toList = none := by
  obtain ⟨word, text, -⟩ := placeholder
  exact keyword?_of_mem mark (by simp [text]) foreign

theorem existence?_cases {function : List Char} {kind : ConditionKind}
    (named : existence? function = some kind) :
    function = "attribute_exists".toList ∨ function = "attribute_not_exists".toList := by
  unfold existence? at named
  split at named
  · rename_i same
    exact .inl same
  · split at named
    · rename_i same
      exact .inr same
    · simp at named

theorem comparison?_cases {operator : Char} {kind : ConditionKind}
    (named : comparison? [operator] = some kind) : operator ∈ ['>', '<', '='] := by
  unfold comparison? at named
  split at named
  · simp_all
  · split at named
    · simp_all
    · split at named
      · simp_all
      · simp at named

structure Tells (words : List (List Char)) (clause : Clause) : Prop where
  plain : ∀ word ∈ words, keyword? word = none
  read : ∀ joined, clause? joined words = some (clause.question joined)

section Tells

variable {clause : Clause} (name : Placeholder '#' clause.name)

include name

theorem tells_existence {function : String}
    (named : existence? function.toList = some clause.kind) (alone : clause.value = none)
    (text : clause.text.toList = function.toList ++ '(' :: (clause.name.toList ++ [')'])) :
    Tells (clause.text.toList.splitOn ' ') clause := by
  have nameBlank : ' ' ∉ clause.name.toList := name.notMem (by decide) rfl
  have nameOpen : '(' ∉ clause.name.toList := name.notMem (by decide) rfl
  have noBlank : ' ' ∉ function.toList := by
    rcases existence?_cases named with same | same <;> rw [same] <;> decide
  have noOpen : '(' ∉ function.toList := by
    rcases existence?_cases named with same | same <;> rw [same] <;> decide
  have blank : ' ' ∉ clause.text.toList := by simp [text, noBlank, nameBlank]
  have argument : '(' ∉ clause.name.toList ++ [')'] := by simp [nameOpen]
  rw [List.splitOn_eq_singleton blank]
  constructor
  · refine List.forall_mem_singleton.mpr (keyword?_of_mem '(' ?_ (by decide))
    simp [text]
  · intro joined
    rw [text, clause?, List.splitOn_append_cons_self_of_not_mem noOpen,
      List.splitOn_eq_singleton argument]
    simp [named, before?_append, Clause.question, alone]

theorem tells_comparison {operator : Char} {value : String} (placeholder : Placeholder ':' value)
    (named : comparison? [operator] = some clause.kind) (given : clause.value = some value)
    (text : clause.text.toList =
      clause.name.toList ++ ' ' :: operator :: ' ' :: value.toList) :
    Tells (clause.text.toList.splitOn ' ') clause := by
  have nameBlank : ' ' ∉ clause.name.toList := name.notMem (by decide) rfl
  have valueBlank : ' ' ∉ value.toList := placeholder.notMem (by decide) rfl
  have listed := comparison?_cases named
  simp only [List.mem_cons, List.not_mem_nil, or_false] at listed
  have operatorBlank : ' ' ∉ [operator] := by
    rcases listed with rfl | rfl | rfl <;> decide
  have words : clause.text.toList.splitOn ' ' =
      [clause.name.toList, [operator], value.toList] := by
    have grouped : clause.text.toList =
        clause.name.toList ++ ' ' :: ([operator] ++ ' ' :: value.toList) := text
    rw [grouped, List.splitOn_append_cons_self_of_not_mem nameBlank,
      List.splitOn_append_cons_self_of_not_mem operatorBlank,
      List.splitOn_eq_singleton valueBlank]
  rw [words]
  constructor
  · have operatorPlain : keyword? [operator] = none := by
      rcases listed with rfl | rfl | rfl <;> rfl
    have namePlain := keyword?_placeholder name (by decide)
    have valuePlain := keyword?_placeholder placeholder (by decide)
    simp [namePlain, operatorPlain, valuePlain]
  · intro joined
    simp [clause?, named, Clause.question, given]

theorem tells_beginning {value : String} (placeholder : Placeholder ':' value)
    (kind : clause.kind = .beginsWith) (given : clause.value = some value)
    (text : clause.text.toList = "begins_with".toList ++ '(' ::
      (clause.name.toList ++ ',' :: ' ' :: (value.toList ++ [')']))) :
    Tells (clause.text.toList.splitOn ' ') clause := by
  have nameBlank : ' ' ∉ clause.name.toList := name.notMem (by decide) rfl
  have nameOpen : '(' ∉ clause.name.toList := name.notMem (by decide) rfl
  have valueBlank : ' ' ∉ value.toList := placeholder.notMem (by decide) rfl
  have noBlank : ' ' ∉ "begins_with".toList := by decide
  have noOpen : '(' ∉ "begins_with".toList := by decide
  have words : clause.text.toList.splitOn ' ' =
      ["begins_with".toList ++ '(' :: (clause.name.toList ++ [',']), value.toList ++ [')']] := by
    have grouped : clause.text.toList =
        ("begins_with".toList ++ '(' :: (clause.name.toList ++ [','])) ++
          ' ' :: (value.toList ++ [')']) := by
      rw [text]
      simp only [List.append_assoc, List.cons_append, List.nil_append]
    have first : ' ' ∉ "begins_with".toList ++ '(' :: (clause.name.toList ++ [',']) := by
      rw [List.mem_append, not_or]
      exact ⟨noBlank, by simp [nameBlank]⟩
    rw [grouped, List.splitOn_append_cons_self_of_not_mem first,
      List.splitOn_eq_singleton (by simp [valueBlank])]
  rw [words]
  constructor
  · refine List.forall_mem_cons.mpr ⟨keyword?_of_mem '(' ?_ (by decide),
      List.forall_mem_singleton.mpr (keyword?_of_mem ')' (by simp) (by decide))⟩
    exact List.mem_append_right _ (List.mem_cons_self ..)
  · intro joined
    have field : '(' ∉ clause.name.toList ++ [','] := by simp [nameOpen]
    rw [clause?, List.splitOn_append_cons_self_of_not_mem noOpen,
      List.splitOn_eq_singleton field]
    simp [before?_append, Clause.question, kind, given]

end Tells

theorem tells_words {clause : Clause} (readable : clause.Readable) :
    Tells (clause.text.toList.splitOn ' ') clause := by
  cases readable.written with
  | existence function named alone text => exact tells_existence readable.name named alone text
  | comparison operator value named given text =>
      have placeholder := readable.value value (by rw [given]; rfl)
      exact tells_comparison readable.name placeholder named given text
  | beginning value kind given text =>
      have placeholder := readable.value value (by rw [given]; rfl)
      exact tells_beginning readable.name placeholder kind given text

theorem splitOn_joinedText (front : List Char) (clauses : List Clause) :
    (front ++ (Clause.joinedText clauses).toList).splitOn ' ' =
      front.splitOn ' ' ++ clauses.flatMap fun clause =>
        clause.relationship.keyword.toList :: clause.text.toList.splitOn ' ' := by
  induction clauses generalizing front with
  | nil => simp [Clause.joinedText]
  | cons clause rest ih =>
      have keyword : ' ' ∉ clause.relationship.keyword.toList := by
        cases clause.relationship <;> decide
      have text : front ++ (Clause.joinedText (clause :: rest)).toList =
          front ++ ' ' :: (clause.relationship.keyword.toList ++
            ' ' :: (clause.text.toList ++ (Clause.joinedText rest).toList)) := by
        simp [Clause.joinedText]
      rw [text, List.splitOn_append_cons_self, List.splitOn_append_cons_self_of_not_mem keyword,
        ih, List.flatMap_cons, List.cons_append]

theorem groups_joined {clauses : List Clause}
    (readable : ∀ clause ∈ clauses, clause.Readable) :
    groups (clauses.flatMap fun clause =>
        clause.relationship.keyword.toList :: clause.text.toList.splitOn ' ') =
      ([], clauses.map fun clause =>
        (clause.relationship, clause.text.toList.splitOn ' ')) := by
  induction clauses with
  | nil => rfl
  | cons clause rest ih =>
      obtain ⟨first, later⟩ := List.forall_mem_cons.mp readable
      rw [List.flatMap_cons, List.cons_append, groups, groups_append (tells_words first).plain,
        ih later]
      simp [keyword?_keyword]

theorem mapM_clause? {clauses : List Clause} (readable : ∀ clause ∈ clauses, clause.Readable) :
    (clauses.map fun clause => (clause.relationship, clause.text.toList.splitOn ' ')).mapM
        (fun group => clause? (some group.1) group.2) =
      some (clauses.map fun clause => clause.question (some clause.relationship)) := by
  induction clauses with
  | nil => rfl
  | cons clause rest ih =>
      obtain ⟨first, later⟩ := List.forall_mem_cons.mp readable
      rw [List.map_cons, List.mapM_cons, ih later]
      simp [(tells_words first).read]

/-- An expression reads back as its clauses, joined as they are but for the first. -/
theorem read?_expression {clauses : List Clause}
    (readable : ∀ clause ∈ clauses, clause.Readable) :
    read? (Clause.expression clauses) = some (Clause.questions clauses) := by
  cases clauses with
  | nil => rfl
  | cons clause rest =>
      obtain ⟨first, later⟩ := List.forall_mem_cons.mp readable
      have filled : Clause.expression (clause :: rest) ≠ "" := by
        rw [Ne, Clause.expression_eq_empty_iff readable]
        exact List.cons_ne_nil clause rest
      have words : groups ((Clause.expression (clause :: rest)).toList.splitOn ' ') =
          (clause.text.toList.splitOn ' ', rest.map fun clause =>
            (clause.relationship, clause.text.toList.splitOn ' ')) := by
        rw [Clause.expression, String.toList_append, splitOn_joinedText,
          groups_append (tells_words first).plain, groups_joined later, List.append_nil]
      rw [read?, if_neg filled, words]
      simp only [(tells_words first).read, mapM_clause? later]
      rfl

end ConditionReader

end KeyedStore
