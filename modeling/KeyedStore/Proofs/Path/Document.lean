import KeyedStore.Proofs.Path.Segments
import KeyedStore.Value.Path

/-! Document paths: the fields and list positions that a path expression leads through.
The look-up of a path and its expression lead to the same value in every item exactly
when no segment behind the first is read in two ways. -/

namespace KeyedStore

inductive DocumentStep where
  | name (text : String)
  | index (position : Nat)
  deriving DecidableEq

namespace DocumentStep

def ofSegment (segment : String) : DocumentStep :=
  if isPosition segment then .index (Nat.ofDigitChars 10 segment.toList 0) else .name segment

def follow? : Value → DocumentStep → Option Value
  | .map fields, .name text => Fields.get? fields text
  | .list elements, .index position => elements[position]?
  | _, _ => none

end DocumentStep

def Step.document? (names : Fields String) : Step → Option DocumentStep
  | .name label => (names.get? label).map .name
  | .position digits => (readNatural? digits.toList).map .index

def PathExpression.document? (names : Fields String) (path : PathExpression) :
    Option (List DocumentStep) :=
  path.steps.mapM (Step.document? names)

def Value.resolve? (value : Value) (steps : List DocumentStep) : Option Value :=
  steps.foldlM DocumentStep.follow? value

/-- Segments that the look-up and the expression read in two ways. Digits behind a plus
sign are a position to the look-up and a name in the expression; digits that 64 bits do
not hold are a name to the look-up and a position in the expression. -/
def Misread (segment : String) : Prop :=
  (∃ digits, segment = "+" ++ digits ∧ digits ≠ "" ∧ isPosition digits = true ∧
      Nat.ofDigitChars 10 digits.toList 0 < wordBound) ∨
    isPosition segment = true ∧ wordBound ≤ Nat.ofDigitChars 10 segment.toList 0

theorem readNatural?_of_isPosition {segment : String} (filled : segment ≠ "")
    (position : isPosition segment = true) :
    readNatural? segment.toList = some (Nat.ofDigitChars 10 segment.toList 0) := by
  have chars : segment.toList ≠ [] := by simpa using filled
  simp only [isPosition] at position
  simp [readNatural?, chars, position]

theorem document?_segmentSteps {segments : List String} (admitted : Admits segments)
    {number : Nat} {tables : Aliases}
    (held : ∀ mint ∈ segmentMints number 0 segments, tables.Holds mint) :
    (segmentSteps number 0 segments).mapM (Step.document? tables.names) =
      some ((dropMarker segments).map DocumentStep.ofSegment) := by
  apply mapM_segmentSteps admitted.admitsRest (.inr admitted)
  · intro segment member position
    have read := readNatural?_of_isPosition (admitted.admitsRest.filled segment member) position
    simp [Step.document?, read, DocumentStep.ofSegment, position]
  · intro label segment bound name
    have found := held _ bound
    rw [Aliases.Holds] at found
    simp [Step.document?, found, DocumentStep.ofSegment, name]

theorem isPosition_plus (digits : String) : isPosition ("+" ++ digits) = false := by
  simp [isPosition, Char.isDigit]

theorem readPosition?_of_not_misread {segment : String} (filled : segment ≠ "")
    (clear : ¬Misread segment) :
    readPosition? segment.toList =
      if isPosition segment then some (Nat.ofDigitChars 10 segment.toList 0) else none := by
  simp only [Misread, not_or, not_exists, not_and, Nat.not_lt, Nat.not_le] at clear
  obtain ⟨unsigned, small⟩ := clear
  by_cases position : isPosition segment = true
  · have bound := small position
    have natural := readNatural?_of_isPosition filled position
    rw [if_pos position]
    unfold readPosition?
    split
    · rename_i rest text
      rw [isPosition, text] at position
      simp [Char.isDigit] at position
    · simp [natural, bound]
  · rw [if_neg position]
    unfold readPosition?
    split
    · rename_i rest text
      have split : segment = "+" ++ String.ofList rest := by
        apply String.toList_inj.mp
        simp [text]
      by_cases digits : rest ≠ [] ∧ rest.all Char.isDigit = true
      · have large := unsigned (String.ofList rest) split (by simpa using digits.1)
          (by simpa [isPosition] using digits.2)
        simp only [String.toList_ofList] at large
        simpa [readNatural?, digits] using large
      · simp only [readNatural?, digits, if_false]
        rfl
    · have mixed : segment.toList.all Char.isDigit = false := by
        simpa [isPosition] using position
      simp [readNatural?, mixed]

theorem step?_eq_follow? {segment : String} (filled : segment ≠ "") (clear : ¬Misread segment)
    (value : Value) : value.step? segment = DocumentStep.follow? value (.ofSegment segment) := by
  have read := readPosition?_of_not_misread filled clear
  by_cases position : isPosition segment = true
  · cases value <;> simp [Value.step?, read, DocumentStep.ofSegment, position,
      DocumentStep.follow?]
  · cases value <;> simp [Value.step?, read, DocumentStep.ofSegment, position,
      DocumentStep.follow?]

theorem readPosition?_plus {digits : String} (filled : digits ≠ "")
    (position : isPosition digits = true)
    (bound : Nat.ofDigitChars 10 digits.toList 0 < wordBound) :
    readPosition? ("+" ++ digits).toList = some (Nat.ofDigitChars 10 digits.toList 0) := by
  have natural := readNatural?_of_isPosition filled position
  simp [readPosition?, natural, bound]

theorem readPosition?_large {segment : String} (filled : segment ≠ "")
    (position : isPosition segment = true)
    (bound : wordBound ≤ Nat.ofDigitChars 10 segment.toList 0) :
    readPosition? segment.toList = none := by
  have natural := readNatural?_of_isPosition filled position
  unfold readPosition?
  split
  · rename_i rest text
    rw [isPosition, text] at position
    simp [Char.isDigit] at position
  · simpa [natural] using bound

theorem exists_step? (segment : String) (inner : Value) :
    ∃ outer : Value, outer.step? segment = some inner := by
  cases read : readPosition? segment.toList with
  | some position =>
      refine ⟨.list (List.replicate position .null ++ [inner]), ?_⟩
      simp [Value.step?, read]
  | none =>
      refine ⟨.map [(segment, inner)], ?_⟩
      simp [Value.step?, read, Fields.get?]

theorem exists_walk? (segments : List String) :
    ∃ value reached : Value, value.walk? segments = some reached := by
  induction segments with
  | nil => exact ⟨.null, .null, rfl⟩
  | cons segment rest ih =>
      obtain ⟨inner, reached, walked⟩ := ih
      obtain ⟨outer, stepped⟩ := exists_step? segment inner
      refine ⟨outer, reached, ?_⟩
      simp only [Value.walk?, List.foldlM_cons, stepped, Option.bind_eq_bind,
        Option.bind_some]
      exact walked

theorem exists_resolve? (steps : List DocumentStep) :
    ∃ value reached : Value, value.resolve? steps = some reached := by
  induction steps with
  | nil => exact ⟨.null, .null, rfl⟩
  | cons step rest ih =>
      obtain ⟨inner, reached, resolved⟩ := ih
      cases step with
      | name text =>
          refine ⟨.map [(text, inner)], reached, ?_⟩
          simp only [Value.resolve?, List.foldlM_cons, DocumentStep.follow?, Fields.get?,
            if_true, Option.bind_eq_bind, Option.bind_some]
          exact resolved
      | index position =>
          refine ⟨.list (List.replicate position .null ++ [inner]), reached, ?_⟩
          simp only [Value.resolve?, List.foldlM_cons, DocumentStep.follow?,
            Option.bind_eq_bind]
          simpa [Value.resolve?] using resolved

theorem exists_walk?_ne {segments : List String} (filled : ∀ segment ∈ segments, segment ≠ "")
    (misread : ∃ segment ∈ segments, Misread segment) :
    ∃ value : Value,
      value.walk? segments ≠ value.resolve? (segments.map DocumentStep.ofSegment) := by
  induction segments with
  | nil => simp at misread
  | cons segment rest ih =>
      have segmentFilled := filled segment (by simp)
      by_cases bad : Misread segment
      · rcases bad with ⟨digits, text, digitsFilled, position, bound⟩ | ⟨position, bound⟩
        · -- Below a name that the look-up takes for a position, only the document path ends.
          obtain ⟨inner, reached, resolved⟩ :=
            exists_resolve? (rest.map DocumentStep.ofSegment)
          refine ⟨.map [(segment, inner)], ?_⟩
          have read := readPosition?_plus digitsFilled position bound
          rw [← text] at read
          have stepped : Value.step? (.map [(segment, inner)]) segment = none := by
            simp [Value.step?, read]
          have named : DocumentStep.ofSegment segment = .name segment := by
            simp [DocumentStep.ofSegment, text, isPosition_plus]
          simp only [Value.resolve?] at resolved
          simp [Value.walk?, Value.resolve?, stepped, named, DocumentStep.follow?, Fields.get?,
            resolved]
        · -- Below a name that is a position to the document path, only the look-up ends.
          obtain ⟨inner, reached, walked⟩ := exists_walk? rest
          refine ⟨.map [(segment, inner)], ?_⟩
          have read := readPosition?_large segmentFilled position bound
          have stepped : Value.step? (.map [(segment, inner)]) segment = some inner := by
            simp [Value.step?, read, Fields.get?]
          simp only [Value.walk?] at walked
          simp [Value.walk?, Value.resolve?, stepped, DocumentStep.ofSegment, position,
            DocumentStep.follow?, walked]
      · have later : ∃ other ∈ rest, Misread other := by
          obtain ⟨other, member, otherMisread⟩ := misread
          rcases List.mem_cons.mp member with same | restMember
          · exact absurd (same ▸ otherMisread) bad
          · exact ⟨other, restMember, otherMisread⟩
        obtain ⟨inner, differs⟩ :=
          ih (fun other member => filled other (List.mem_cons_of_mem _ member)) later
        obtain ⟨outer, stepped⟩ := exists_step? segment inner
        have followed := step?_eq_follow? segmentFilled bad outer
        rw [stepped] at followed
        refine ⟨outer, ?_⟩
        simpa [Value.walk?, Value.resolve?, stepped, ← followed] using differs

theorem walk?_eq_resolve? {segments : List String}
    (filled : ∀ segment ∈ segments, segment ≠ "")
    (clear : ∀ segment ∈ segments, ¬Misread segment) (value : Value) :
    value.walk? segments = value.resolve? (segments.map DocumentStep.ofSegment) := by
  induction segments generalizing value with
  | nil => rfl
  | cons segment rest ih =>
      have restEqual := ih (fun other member => filled other (List.mem_cons_of_mem _ member))
        (fun other member => clear other (List.mem_cons_of_mem _ member))
      have stepped := step?_eq_follow? (filled segment (by simp)) (clear segment (by simp)) value
      simp only [Value.walk?, Value.resolve?, List.map_cons, List.foldlM_cons] at restEqual ⊢
      rw [stepped]
      cases followed : DocumentStep.follow? value (.ofSegment segment) with
      | none => rfl
      | some inner => exact restEqual inner

theorem resolve?_map_cons (item : Item) (text : String) (steps : List DocumentStep) :
    (Value.map item).resolve? (.name text :: steps) =
      (Fields.get? item text).bind (·.resolve? steps) := by
  simp only [Value.resolve?, List.foldlM_cons, DocumentStep.follow?, Option.bind_eq_bind]

/-- The look-up of a path agrees with its compiled expression on every item exactly when
no segment behind the first is misread. -/
theorem lookup?_eq_resolve?_iff {path : String} {number : Nat} {aliases tables : Aliases}
    {expression : PathExpression}
    (compiled : compilePath path number aliases = (.ok expression, tables))
    (plain : expression.append = false) :
    expression.document? tables.names =
        some ((pathSegments path).map DocumentStep.ofSegment) ∧
      ((∀ item : Item, item.lookup? path =
          (Value.map item).resolve? ((pathSegments path).map DocumentStep.ofSegment)) ↔
        ∀ segment ∈ (pathSegments path).tail, ¬Misread segment) := by
  have admitted := admits_of_compilePath compiled
  rw [compilePath_of_admits admitted] at compiled
  simp only [Prod.mk.injEq, Except.ok.injEq] at compiled
  obtain ⟨sameExpression, sameTables⟩ := compiled
  subst sameExpression sameTables
  have whole : dropMarker (pathSegments path) = pathSegments path :=
    if_neg (Bool.eq_false_iff.mp plain)
  have document := document?_segmentSteps admitted (holds_pathMints number path aliases)
  rw [whole] at document
  refine ⟨document, ?_⟩
  cases segments : pathSegments path with
  | nil => exact absurd segments (pathSegments_ne_nil path)
  | cons first rest =>
      rw [segments] at admitted
      obtain ⟨-, -, firstNotPosition, restAdmitted⟩ := admitted
      have restFilled := restAdmitted.filled
      have named : DocumentStep.ofSegment first = .name first := by
        simp [DocumentStep.ofSegment, firstNotPosition]
      simp only [List.map_cons, named, List.tail_cons, resolve?_map_cons, Item.lookup?, segments]
      constructor
      · intro agrees segment member misread
        obtain ⟨value, differs⟩ := exists_walk?_ne restFilled ⟨segment, member, misread⟩
        have below := agrees [(first, value)]
        simp only [Fields.get?, if_true, Option.bind_some] at below
        exact differs below
      · intro clear item
        cases Fields.get? item first with
        | none => rfl
        | some value => exact walk?_eq_resolve? restFilled clear value

/-- Digits in the middle of a path are read alike, digits behind a plus sign are not. -/
theorem lookup?_eq_resolve?_digits_not_signed :
    (∀ item : Item, item.lookup? "/shelf/07/title" =
        (Value.map item).resolve? [.name "shelf", .index 7, .name "title"]) ∧
      ¬∀ item : Item, item.lookup? "/shelf/+7" =
        (Value.map item).resolve? [.name "shelf", .name "+7"] := by
  have digits : pathSegments "/shelf/07/title" = ["shelf", "07", "title"] := by decide +kernel
  have signed : pathSegments "/shelf/+7" = ["shelf", "+7"] := by decide +kernel
  have digitsRead : ["shelf", "07", "title"].map DocumentStep.ofSegment =
      [.name "shelf", .index 7, .name "title"] := by decide +kernel
  have signedRead : ["shelf", "+7"].map DocumentStep.ofSegment =
      [.name "shelf", .name "+7"] := by decide +kernel
  have digitsAdmitted : Admits (pathSegments "/shelf/07/title") := by
    rw [digits]
    exact ⟨by decide, by decide, by decide, by decide, by decide, by decide, by decide, trivial⟩
  have signedAdmitted : Admits (pathSegments "/shelf/+7") := by
    rw [signed]
    exact ⟨by decide, by decide, by decide, by decide, by decide, trivial⟩
  have onDigits := lookup?_eq_resolve?_iff (compilePath_of_admits digitsAdmitted 0 .empty)
    (by decide +kernel)
  have onSigned := lookup?_eq_resolve?_iff (compilePath_of_admits signedAdmitted 0 .empty)
    (by decide +kernel)
  rw [digits, digitsRead] at onDigits
  rw [signed, signedRead] at onSigned
  constructor
  · apply onDigits.2.mpr
    intro segment member misread
    have either : segment = "07" ∨ segment = "title" := by simpa using member
    rcases misread with ⟨rest, text, -⟩ | ⟨position, bound⟩
    · have head := congrArg (fun text => text.toList.head?) text
      rcases either with same | same <;> simp [same] at head
    · rcases either with same | same
      · rw [same] at bound
        exact absurd bound (by decide +kernel)
      · rw [same] at position
        exact absurd position (by decide +kernel)
  · intro agrees
    apply onSigned.2.mp agrees "+7" (by simp)
    exact .inl ⟨"7", by decide +kernel⟩

end KeyedStore
