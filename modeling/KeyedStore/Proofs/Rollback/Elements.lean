import KeyedStore.Proofs.Path.Document
import KeyedStore.Proofs.Rollback.Restore

/-! Undoing an update of one list element. An update sets the element at its position, or
appends past the end, or removes it and moves the later ones down; its compensation puts back
at the same position what the old item held there. The list comes back exactly when no element
has moved to another position in between. -/

namespace KeyedStore

/-- A list with new content at a position. Content past the end is appended, and where the
new content is nothing, the later elements move down. -/
def assignElement (position : Nat) : Option Value → List Value → List Value
  | none, elements => elements.eraseIdx position
  | some value, elements =>
      if position < elements.length then elements.set position value else elements ++ [value]

namespace Update

def listNames (update : Update) : List String :=
  (pathSegments update.path).dropLast

def position? (update : Update) : Option Nat :=
  (pathSegments update.path).getLast?.bind fun last => readNatural? last.toList

def asked (update : Update) : Option Value :=
  if update.action = .delete then none else some update.value

def performElement? (place : Place) (update : Update) : Option Place := do
  let position ← update.position?
  match ← Place.read? update.listNames place with
  | some (.list elements) =>
      let assigned := Value.list (assignElement position update.asked elements)
      return Place.write (some assigned) update.listNames place
  | _ => none

def performElements? (updates : List Update) (item : Item) : Option Item :=
  (updates.foldlM performElement? (some (.map item))).bind Place.fields?

end Update

section

variable {elements : List Value} {position : Nat}

theorem assignElement_none_of_le (past : elements.length ≤ position) :
    assignElement position none elements = elements :=
  List.eraseIdx_of_length_le past

theorem assignElement_some_of_le (past : elements.length ≤ position) (value : Value) :
    assignElement position (some value) elements = elements ++ [value] := by
  rw [assignElement, if_neg (Nat.not_lt.mpr past)]

theorem assignElement_some_of_lt (inside : position < elements.length) (value : Value) :
    assignElement position (some value) elements = elements.set position value := by
  rw [assignElement, if_pos inside]

theorem assignElement_none_assignElement_iff (past : elements.length ≤ position)
    (asked : Option Value) :
    assignElement position none (assignElement position asked elements) = elements ↔
      asked = none ∨ elements.length = position := by
  cases asked with
  | none => simp [assignElement_none_of_le past]
  | some value =>
      rw [assignElement_some_of_le past]
      by_cases next : elements.length = position
      · simp [assignElement, ← next, List.eraseIdx_append_of_length_le]
      · have short : (elements ++ [value]).length ≤ position := by
          simp only [List.length_append, List.length_singleton]
          omega
        simp [assignElement_none_of_le short, next]

theorem assignElement_getElem_assignElement_iff (inside : position < elements.length)
    (asked : Option Value) :
    assignElement position (some elements[position]) (assignElement position asked elements) =
        elements ↔
      asked = none → elements.length = position + 1 := by
  cases asked with
  | some value =>
      rw [assignElement_some_of_lt inside, assignElement_some_of_lt (by simpa using inside)]
      simp
  | none =>
      have shorter : (elements.eraseIdx position).length = elements.length - 1 :=
        List.length_eraseIdx_of_lt inside
      rw [assignElement]
      by_cases last : elements.length = position + 1
      · -- nothing stood behind the removed element, so appending puts it back
        have filled : elements ≠ [] := List.ne_nil_of_length_pos (by omega)
        have isLast : elements[position] = elements.getLast filled := by
          simp [List.getLast_eq_getElem, last]
        rw [assignElement_some_of_le (by omega), ← List.dropLast_eq_eraseIdx last.symm, isLast]
        simp [List.dropLast_concat_getLast, last]
      · have moved : position < (elements.eraseIdx position).length := by omega
        rw [assignElement_some_of_lt moved]
        refine iff_of_false ?_ (fun ends => last (ends rfl))
        intro same
        have length := congrArg List.length same
        simp only [List.length_set] at length
        omega

theorem length_assignElement_none_lt (inside : position < elements.length)
    (asked : Option Value) :
    (assignElement position none (assignElement position asked elements)).length <
      elements.length := by
  cases asked with
  | none =>
      have first : (elements.eraseIdx position).length = elements.length - 1 :=
        List.length_eraseIdx_of_lt inside
      have second := (elements.eraseIdx position).length_eraseIdx_le position
      simp only [assignElement]
      omega
  | some value =>
      rw [assignElement_some_of_lt inside, assignElement,
        List.length_eraseIdx_of_lt (by simpa using inside), List.length_set]
      omega

end

theorem assignElement_assignElement_iff {elements : List Value} {position : Nat}
    {found : Option Value} (held : found = elements[position]? ∨ found = none)
    (asked : Option Value) :
    assignElement position found (assignElement position asked elements) = elements ↔
      (position < elements.length → found ≠ none) ∧
        if asked = none then elements.length ≤ position + 1 else position ≤ elements.length := by
  by_cases inside : position < elements.length
  · rw [List.getElem?_eq_getElem inside] at held
    rcases held with same | missing
    · rw [same, assignElement_getElem_assignElement_iff inside]
      cases asked with
      | none =>
          simp only [inside, forall_const, ne_eq, reduceCtorEq, not_false_eq_true, if_true,
            true_and]
          omega
      | some value => simp [Nat.le_of_lt inside]
    · -- an element that was not found is taken out, and the list stays short of it
      have shorter := length_assignElement_none_lt inside asked
      refine iff_of_false ?_ (fun kept => kept.1 inside missing)
      intro same
      rw [← missing, same] at shorter
      omega
  · have past : elements.length ≤ position := Nat.not_lt.mp inside
    have missing : found = none := by simpa [List.getElem?_eq_none past] using held
    rw [missing, assignElement_none_assignElement_iff past]
    cases asked with
    | none => simp [inside, Nat.le_succ_of_le past]
    | some value => simp [inside, past, Nat.le_antisymm_iff]

theorem readPosition?_of_misread_name {name : String} (named : isPosition name = false)
    (misread : Misread name) : (readPosition? name.toList).isSome := by
  rcases misread with ⟨digits, text, filled, position, bound⟩ | ⟨position, -⟩
  · rw [text, readPosition?_plus filled position bound]
    rfl
  · rw [named] at position
    exact absurd position (by decide)

theorem readPosition?_of_misread_digits (filled : digits ≠ "") (position : isPosition digits = true)
    (misread : Misread digits) : readPosition? digits.toList = none := by
  rcases misread with ⟨rest, text, -⟩ | ⟨-, bound⟩
  · rw [text, isPosition_plus] at position
    exact absurd position (by decide)
  · exact readPosition?_large filled position bound

namespace Value

variable {names : List String} {digits : String} {elements : List Value}

theorem walk?_element {value : Value} (named : ∀ name ∈ names, isPosition name = false)
    (filled : digits ≠ "") (position : isPosition digits = true)
    (held : Place.read? names (some value) = some (some (.list elements))) :
    ((∀ segment ∈ names ++ [digits], ¬Misread segment) →
        value.walk? (names ++ [digits]) = elements[Nat.ofDigitChars 10 digits.toList 0]?) ∧
      ((∃ segment ∈ names ++ [digits], Misread segment) →
        value.walk? (names ++ [digits]) = none) := by
  induction names generalizing value with
  | nil =>
      simp only [Place.read?, Option.some.injEq] at held
      subst held
      simp only [List.nil_append, List.mem_singleton, forall_eq, exists_eq_left, walk?,
        List.foldlM_cons, List.foldlM_nil]
      constructor
      · intro clear
        simp [step?_eq_follow? filled clear, DocumentStep.ofSegment, position,
          DocumentStep.follow?]
      · intro misread
        simp [step?, readPosition?_of_misread_digits filled position misread]
  | cons name rest ih =>
      rw [List.forall_mem_cons] at named
      obtain ⟨fields, isMap, below⟩ := Place.read?_cons_eq_some_iff.mp held
      rw [Option.some.inj isMap]
      obtain ⟨next, inner⟩ := Option.isSome_iff_exists.mp (Place.isSome_of_read? below)
      rw [inner] at below
      simp only [List.cons_append, List.mem_cons, exists_eq_or_imp, walk?, List.foldlM_cons]
      by_cases misread : Misread name
      · -- the look-up asks a map for a position, and ends there
        have read := readPosition?_of_misread_name named.1 misread
        obtain ⟨place, read⟩ := Option.isSome_iff_exists.mp read
        simp [misread, step?, read]
      · have nameFilled : name ≠ "" := by
          intro empty
          simp [empty, isPosition] at named
        have stepped : (Value.map fields).step? name = some next := by
          rw [step?_eq_follow? nameFilled misread]
          simp [DocumentStep.ofSegment, named.1, DocumentStep.follow?, inner]
        simpa [misread, stepped, walk?] using ih named.2 below

end Value

namespace Update

variable {update : Update} {position : Nat} {elements : List Value} {old : Item}

theorem exists_digits_of_position? (placed : update.position? = some position) :
    ∃ digits, pathSegments update.path = update.listNames ++ [digits] ∧ digits ≠ "" ∧
      isPosition digits = true ∧ Nat.ofDigitChars 10 digits.toList 0 = position := by
  obtain ⟨digits, last, read⟩ := Option.bind_eq_some_iff.mp placed
  simp only [readNatural?, Option.ite_none_right_eq_some, Option.some.injEq] at read
  refine ⟨digits, ?_, by simpa using read.1.1, read.1.2, read.2⟩
  rw [listNames, List.dropLast_append_getLast? digits last]

theorem restoreTarget_of_position? (placed : update.position? = some position) :
    restoreTarget update.path = update.path := by
  obtain ⟨digits, segments, -, isDigits, -⟩ := exists_digits_of_position? placed
  apply restoreTarget_of_unmarked
  intro last
  rw [segments, List.getLast?_concat, Option.some.injEq] at last
  rw [last] at isDigits
  exact absurd isDigits (by decide)

theorem asked_restoring (old : Item) (path : String) :
    (restoring old path).asked = old.lookup? path := by
  cases found : old.lookup? path <;> simp [restoring, found, asked]

theorem lookup?_element (placed : update.position? = some position)
    (named : ∀ name ∈ update.listNames, isPosition name = false)
    (held : Place.read? update.listNames (some (.map old)) = some (some (.list elements))) :
    ((∀ segment ∈ (pathSegments update.path).tail, ¬Misread segment) →
        old.lookup? update.path = elements[position]?) ∧
      ((∃ segment ∈ (pathSegments update.path).tail, Misread segment) →
        old.lookup? update.path = none) := by
  obtain ⟨digits, segments, filled, isDigits, denoted⟩ := exists_digits_of_position? placed
  cases names : update.listNames with
  | nil => simp [names, Place.read?] at held
  | cons first rest =>
      rw [names] at segments named held
      obtain ⟨fields, isMap, below⟩ := Place.read?_cons_eq_some_iff.mp held
      have isOld : fields = old := by simpa using isMap.symm
      obtain ⟨value, inner⟩ := Option.isSome_iff_exists.mp (Place.isSome_of_read? below)
      rw [inner] at below
      rw [isOld] at inner
      simpa [Item.lookup?, segments, inner, denoted] using
        Value.walk?_element (List.forall_mem_cons.mp named).2 filled isDigits below

theorem assignElement_restored_iff (placed : update.position? = some position)
    (named : ∀ name ∈ update.listNames, isPosition name = false)
    (held : Place.read? update.listNames (some (.map old)) = some (some (.list elements))) :
    assignElement position (old.lookup? update.path)
        (assignElement position update.asked elements) = elements ↔
      (position < elements.length →
          ∀ segment ∈ (pathSegments update.path).tail, ¬Misread segment) ∧
        if update.action = .delete then elements.length ≤ position + 1
        else position ≤ elements.length := by
  have deletes : update.asked = none ↔ update.action = .delete := by simp [asked]
  obtain ⟨found, missing⟩ := lookup?_element placed named held
  by_cases clear : ∀ segment ∈ (pathSegments update.path).tail, ¬Misread segment
  · rw [assignElement_assignElement_iff (.inl (found clear)), found clear]
    simpa [deletes] using fun _ _ => clear
  · have misread : ∃ segment ∈ (pathSegments update.path).tail, Misread segment := by
      simpa using clear
    rw [assignElement_assignElement_iff (.inr (missing misread)), missing misread]
    simp [clear, deletes]

theorem performElement?_eq {place : Place} (placed : update.position? = some position)
    (held : Place.read? update.listNames place = some (some (.list elements))) :
    performElement? place update = some (Place.write
      (some (.list (assignElement position update.asked elements))) update.listNames place) := by
  simp [performElement?, placed, held]

end Update

/-- Undoing an update of a list element brings back the item it was made on exactly when the
look-up misreads no segment on the way to an element that was there, nothing but the last element
was removed, and nothing was put further than one past the end. -/
theorem compensate_element_restores_iff {operation : LoggedOperation} {row : AttributeMap}
    {old : Item} {update : Update} {position : Nat} {elements : List Value}
    (action : operation.request.action = .update) (single : operation.request.updates = [update])
    (attributes : operation.response.attributes = some row) (read : row.unmarshal = .ok old)
    (ordered : old.Ordered) (placed : update.position? = some position)
    (named : ∀ name ∈ update.listNames, isPosition name = false)
    (held : Place.read? update.listNames (some (.map old)) = some (some (.list elements))) :
    ∃ undo new restored, Update.performElements? [update] old = some new ∧
      operation.compensate = .ok (some undo) ∧ undo.action = .update ∧
      undo.table = operation.request.table ∧ undo.key = operation.request.key ∧
      Update.performElements? undo.updates new = some restored ∧
      (restored = old ↔
        (position < elements.length →
          ∀ segment ∈ (pathSegments update.path).tail, ¬Misread segment) ∧
        if update.action = .delete then elements.length ≤ position + 1
        else position ≤ elements.length) := by
  have path := Update.restoreTarget_of_position? placed
  let undoing := Update.restoring old update.path
  have undoes : Update.restoringAll old [update] = [undoing] := by
    simp [Update.restoringAll, path, undoing, List.eraseDups_cons]
  have samePath : undoing.path = update.path := Update.path_restoring old update.path
  have sameNames : undoing.listNames = update.listNames := by
    rw [Update.listNames, samePath, Update.listNames]
  have samePlaced : undoing.position? = some position := by
    rw [Update.position?, samePath, ← placed, Update.position?]
  have filled : update.listNames ≠ [] := by
    intro none
    simp [none, Place.read?] at held
  -- both updates write nothing but the list, so all turns on what the two make of it
  let assigned := assignElement position update.asked elements
  obtain ⟨new, isNew⟩ := Place.exists_write_map filled (some (.list assigned)) old
  have heldNew :
      Place.read? undoing.listNames (some (.map new)) = some (some (.list assigned)) := by
    rw [sameNames, ← isNew]
    exact Place.read?_write_self (by simp [held]) _
  let reassigned := assignElement position (old.lookup? update.path) assigned
  obtain ⟨restored, isRestored⟩ := Place.exists_write_map filled (some (.list reassigned)) old
  have performed :
      Update.performElement? (some (.map new)) undoing = some (some (.map restored)) := by
    rw [Update.performElement?_eq samePlaced heldNew, Update.asked_restoring, sameNames, ← isNew,
      Place.write_write (ordered _), isRestored]
  refine ⟨_, new, restored, ?_, LoggedOperation.compensate_update action attributes read,
    rfl, rfl, rfl, ?_, ?_⟩
  · simp [Update.performElements?, Update.performElement?_eq placed held, assigned, isNew,
      Place.fields?]
  · simp [Update.performElements?, single, undoes, performed, Place.fields?]
  · have atOld := Place.write_eq_self_iff (ordered update.listNames) held (some (.list reassigned))
    rw [isRestored] at atOld
    simp only [Option.some.injEq, Value.map.injEq, Value.list.injEq] at atOld
    rw [atOld, Update.assignElement_restored_iff placed named held]

/-- Of two tags, the removal of the last is undone and that of the first is not. -/
theorem compensate_restores_last_tag_not_first :
    let old : Item := [("tags", .list [.string "a", .string "b"])]
    let operation (path : String) : LoggedOperation := {
      request := {
        action := .update, key := [("id", .string "x")], updates := [⟨.delete, path, .null⟩] }
      response := { attributes := some [("tags", .list [.string "a", .string "b"])] } }
    (∃ undo new, Update.performElements? [⟨.delete, "/tags/1", .null⟩] old = some new ∧
      (operation "/tags/1").compensate = .ok (some undo) ∧
      Update.performElements? undo.updates new = some old) ∧
    ∃ undo new restored, Update.performElements? [⟨.delete, "/tags/0", .null⟩] old = some new ∧
      (operation "/tags/0").compensate = .ok (some undo) ∧
      Update.performElements? undo.updates new = some restored ∧ restored ≠ old := by
  intro old operation
  have last : pathSegments "/tags/1" = ["tags", "1"] := by decide +kernel
  have first : pathSegments "/tags/0" = ["tags", "0"] := by decide +kernel
  have one : readNatural? ['1'] = some 1 := by decide +kernel
  have zero : readNatural? ['0'] = some 0 := by decide +kernel
  have named : isPosition "tags" = false := by decide +kernel
  have ordered : old.Ordered := by
    rw [Item.ordered_iff]
    refine ⟨by decide, ?_⟩
    intro name fields held
    simp only [old, Fields.get?] at held
    split at held <;> simp at held
  have clear : ¬Misread "1" := by
    rintro (⟨digits, text, -⟩ | ⟨-, bound⟩)
    · have head := congrArg (fun text => text.toList.head?) text
      simp at head
    · exact absurd bound (by decide +kernel)
  obtain ⟨undo, new, restored, applied, compensated, -, -, -, undone, same⟩ :=
    @compensate_element_restores_iff (operation "/tags/1") _ old ⟨.delete, "/tags/1", .null⟩ 1 _
      rfl rfl rfl rfl ordered (by simp [Update.position?, last, one])
      (by simp [Update.listNames, last, named]) (by simp [Update.listNames, last]; rfl)
  obtain ⟨undo', new', restored', applied', compensated', -, -, -, undone', same'⟩ :=
    @compensate_element_restores_iff (operation "/tags/0") _ old ⟨.delete, "/tags/0", .null⟩ 0 _
      rfl rfl rfl rfl ordered (by simp [Update.position?, first, zero])
      (by simp [Update.listNames, first, named]) (by simp [Update.listNames, first]; rfl)
  refine ⟨⟨undo, new, applied, compensated, ?_⟩, undo', new', restored', applied', compensated',
    undone', ?_⟩
  · rw [undone, same.mpr ⟨by simp [last, clear], by simp⟩]
  · intro kept
    have few := (same'.mp kept).2
    simp at few

end KeyedStore
