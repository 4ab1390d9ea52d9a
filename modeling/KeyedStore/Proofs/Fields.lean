import KeyedStore.Fields

/-! Laws of field maps. An ascending map is determined by its look-ups, so two ways of
writing one are equal as soon as every name reads the same. -/

namespace KeyedStore

namespace Fields

variable {α : Type}

def erase (name : String) (fields : Fields α) : Fields α :=
  fields.filter fun entry => entry.1 != name

def assign (name : String) : Option α → Fields α → Fields α
  | some value, fields => fields.set name value
  | none, fields => fields.erase name

theorem mem_of_get? {fields : Fields α} {name : String} {value : α}
    (found : fields.get? name = some value) : (name, value) ∈ fields := by
  induction fields with
  | nil => simp [get?_nil] at found
  | cons entry rest ih =>
      obtain ⟨held, old⟩ := entry
      by_cases same : held = name
      · simp only [get?_cons, same, if_true, Option.some.injEq] at found
        simp [same, found]
      · simp only [get?_cons, same, if_false] at found
        exact List.mem_cons_of_mem _ (ih found)

theorem get?_eq_none_iff {fields : Fields α} {name : String} :
    fields.get? name = none ↔ name ∉ fields.map Prod.fst := by
  induction fields with
  | nil => simp [get?_nil]
  | cons entry rest ih =>
      obtain ⟨held, old⟩ := entry
      by_cases same : held = name
      · simp [get?_cons, same]
      · simp only [get?_cons, same, if_false, ih, List.map_cons, List.mem_cons, not_or]
        exact ⟨fun absent => ⟨fun equal => same equal.symm, absent⟩, fun both => both.2⟩

theorem exists_get?_of_mem {fields : Fields α} {name : String}
    (member : name ∈ fields.map Prod.fst) : ∃ value, fields.get? name = some value := by
  cases found : fields.get? name with
  | none => exact absurd member (get?_eq_none_iff.mp found)
  | some value => exact ⟨value, rfl⟩

theorem Ascending.tail {entry : String × α} {rest : Fields α}
    (ascending : Ascending (entry :: rest)) : Ascending rest := by
  simp only [Ascending, List.map_cons, List.pairwise_cons] at ascending
  exact ascending.2

theorem Ascending.head_lt {entry : String × α} {rest : Fields α}
    (ascending : Ascending (entry :: rest)) :
    ∀ name ∈ rest.map Prod.fst, entry.1 < name := by
  simp only [Ascending, List.map_cons, List.pairwise_cons] at ascending
  exact ascending.1

theorem Ascending.head_notMem {entry : String × α} {rest : Fields α}
    (ascending : Ascending (entry :: rest)) : entry.1 ∉ rest.map Prod.fst := by
  intro member
  exact String.lt_irrefl _ (ascending.head_lt _ member)

theorem Ascending.nodup {fields : Fields α} (ascending : fields.Ascending) :
    (fields.map Prod.fst).Nodup := by
  apply List.Pairwise.imp _ ascending
  rintro name other below rfl
  exact String.lt_irrefl _ below

theorem get?_of_mem_of_nodup {fields : Fields α} (distinct : (fields.map Prod.fst).Nodup)
    {name : String} {value : α} (member : (name, value) ∈ fields) :
    fields.get? name = some value := by
  induction fields with
  | nil => simp at member
  | cons entry rest ih =>
      rw [List.map_cons, List.nodup_cons] at distinct
      rcases List.mem_cons.mp member with same | later
      · simp [← same, get?_cons]
      · have different : entry.1 ≠ name := by
          intro same
          apply distinct.1
          exact same ▸ List.mem_map_of_mem later
        simp only [get?_cons, different, if_false]
        exact ih distinct.2 later

theorem get?_of_mem {fields : Fields α} (ascending : fields.Ascending) {name : String}
    {value : α} (member : (name, value) ∈ fields) : fields.get? name = some value :=
  get?_of_mem_of_nodup ascending.nodup member

theorem ext_get? {left right : Fields α} (leftAscending : left.Ascending)
    (rightAscending : right.Ascending) (same : ∀ name, left.get? name = right.get? name) :
    left = right := by
  induction left generalizing right with
  | nil =>
      cases right with
      | nil => rfl
      | cons entry rest =>
          have found := same entry.1
          simp [get?_nil, get?_cons] at found
  | cons leftEntry leftRest ih =>
      cases right with
      | nil =>
          have found := same leftEntry.1
          simp [get?_nil, get?_cons] at found
      | cons rightEntry rightRest =>
          obtain ⟨leftName, leftValue⟩ := leftEntry
          obtain ⟨rightName, rightValue⟩ := rightEntry
          have inRight : leftName ∈ ((rightName, rightValue) :: rightRest).map Prod.fst := by
            apply Decidable.byContradiction
            intro absent
            have found := same leftName
            rw [get?_eq_none_iff.mpr absent] at found
            simp [get?_cons] at found
          have inLeft : rightName ∈ ((leftName, leftValue) :: leftRest).map Prod.fst := by
            apply Decidable.byContradiction
            intro absent
            have found := same rightName
            rw [get?_eq_none_iff.mpr absent] at found
            simp [get?_cons] at found
          -- neither of the first names can stand behind the other
          have names : leftName = rightName := by
            rcases List.mem_cons.mp inRight with equal | leftLater
            · exact equal
            · rcases List.mem_cons.mp inLeft with equal | rightLater
              · exact equal.symm
              · have above := rightAscending.head_lt _ leftLater
                have below := leftAscending.head_lt _ rightLater
                exact absurd (String.lt_trans above below) (String.lt_irrefl _)
          subst names
          have values : leftValue = rightValue := by
            simpa [get?_nil, get?_cons] using same leftName
          have rests : leftRest = rightRest := by
            apply ih leftAscending.tail rightAscending.tail
            intro name
            by_cases held : leftName = name
            · subst held
              rw [get?_eq_none_iff.mpr leftAscending.head_notMem,
                get?_eq_none_iff.mpr rightAscending.head_notMem]
            · simpa [get?_nil, get?_cons, held] using same name
          rw [values, rests]

theorem ascending_filter {fields : Fields α} (ascending : fields.Ascending)
    (keep : String × α → Bool) : Ascending (fields.filter keep) := by
  unfold Ascending at *
  exact ascending.sublist (List.filter_sublist.map Prod.fst)

theorem get?_erase_self (name : String) (fields : Fields α) :
    (fields.erase name).get? name = none := by
  apply get?_eq_none_iff.mpr
  simp [erase]

theorem get?_erase_of_ne {name other : String} (different : name ≠ other)
    (fields : Fields α) : (fields.erase name).get? other = fields.get? other := by
  induction fields with
  | nil => rfl
  | cons entry rest ih =>
      obtain ⟨held, value⟩ := entry
      by_cases same : held = name
      · subst same
        simp only [erase, get?_cons, different, if_false, List.filter_cons, bne_self_eq_false,
          Bool.false_eq_true] at ih ⊢
        exact ih
      · have kept : (held != name) = true := by simp [same]
        simp only [erase, get?_cons, List.filter_cons, kept, if_true] at ih ⊢
        rw [ih]

theorem ascending_assign {fields : Fields α} (ascending : fields.Ascending) (name : String)
    (content : Option α) : (fields.assign name content).Ascending := by
  cases content with
  | some value => exact ascending_set ascending name value
  | none => exact ascending_filter ascending _

theorem get?_assign_self (name : String) (content : Option α) (fields : Fields α) :
    (fields.assign name content).get? name = content := by
  cases content with
  | some value => exact get?_set_self name value fields
  | none => exact get?_erase_self name fields

theorem get?_assign_of_ne {name other : String} (different : name ≠ other)
    (content : Option α) (fields : Fields α) :
    (fields.assign name content).get? other = fields.get? other := by
  cases content with
  | some value => exact get?_set_of_ne different value fields
  | none => exact get?_erase_of_ne different fields

theorem assign_get? {fields : Fields α} (ascending : fields.Ascending) (name : String) :
    fields.assign name (fields.get? name) = fields := by
  apply ext_get? (ascending_assign ascending name _) ascending
  intro other
  by_cases same : name = other
  · subst same
    exact get?_assign_self name _ fields
  · exact get?_assign_of_ne same _ fields

theorem assign_assign_self {fields : Fields α} (ascending : fields.Ascending) (name : String)
    (first second : Option α) :
    (fields.assign name first).assign name second = fields.assign name second := by
  apply ext_get? (ascending_assign (ascending_assign ascending name first) name second)
    (ascending_assign ascending name second)
  intro other
  by_cases same : name = other
  · subst same
    rw [get?_assign_self, get?_assign_self]
  · rw [get?_assign_of_ne same, get?_assign_of_ne same, get?_assign_of_ne same]

theorem assign_comm {fields : Fields α} (ascending : fields.Ascending)
    {left right : String} (different : left ≠ right) (leftContent rightContent : Option α) :
    (fields.assign left leftContent).assign right rightContent =
      (fields.assign right rightContent).assign left leftContent := by
  apply ext_get? (ascending_assign (ascending_assign ascending _ _) _ _)
    (ascending_assign (ascending_assign ascending _ _) _ _)
  intro other
  by_cases onLeft : left = other
  · subst onLeft
    rw [get?_assign_of_ne different.symm, get?_assign_self, get?_assign_self]
  · by_cases onRight : right = other
    · subst onRight
      rw [get?_assign_self, get?_assign_of_ne different, get?_assign_self]
    · rw [get?_assign_of_ne onRight, get?_assign_of_ne onLeft, get?_assign_of_ne onLeft,
        get?_assign_of_ne onRight]

theorem get?_filter {fields : Fields α} (ascending : fields.Ascending)
    (keep : String × α → Bool) (name : String) :
    Fields.get? (fields.filter keep) name =
      (fields.get? name).filter fun value => keep (name, value) := by
  induction fields with
  | nil => rfl
  | cons entry rest ih =>
      obtain ⟨held, value⟩ := entry
      have tail := ih ascending.tail
      by_cases same : held = name
      · subst same
        have absent := get?_eq_none_iff.mpr ascending.head_notMem
        by_cases kept : keep (held, value) = true
        · simp [kept, get?_cons, Option.filter]
        · simp [kept, get?_cons, Option.filter, tail, absent]
      · by_cases kept : keep (held, value) = true <;> simp [kept, get?_cons, same, tail]

theorem get?_overlay_of_nodup (base : Fields α) {top : Fields α}
    (distinct : (top.map Prod.fst).Nodup) (name : String) :
    (base.overlay top).get? name = (top.get? name).or (base.get? name) := by
  induction top generalizing base with
  | nil => rfl
  | cons entry rest ih =>
      obtain ⟨held, value⟩ := entry
      rw [List.map_cons, List.nodup_cons] at distinct
      have tail := ih (base.set held value) distinct.2
      simp only [overlay, List.foldl_cons] at tail ⊢
      rw [tail]
      by_cases same : held = name
      · subst same
        rw [get?_eq_none_iff.mpr distinct.1, get?_set_self]
        simp [get?_cons]
      · rw [get?_set_of_ne same]
        simp [get?_cons, same]

theorem get?_overlay (base : Fields α) {top : Fields α} (ascending : top.Ascending)
    (name : String) : (base.overlay top).get? name = (top.get? name).or (base.get? name) :=
  get?_overlay_of_nodup base ascending.nodup name

theorem get?_ofList {entries : List (String × α)} (distinct : (entries.map Prod.fst).Nodup)
    (name : String) : (ofList entries).get? name = Fields.get? entries name := by
  rw [ofList, get?_overlay_of_nodup [] distinct]
  simp [get?_nil]

theorem ofList_of_ascending {fields : Fields α} (ascending : fields.Ascending) :
    ofList fields = fields :=
  ext_get? (ascending_ofList fields) ascending (get?_ofList ascending.nodup)

theorem mem_set {name : String} {value : α} {fields : Fields α} {entry : String × α}
    (member : entry ∈ fields.set name value) : entry = (name, value) ∨ entry ∈ fields := by
  induction fields with
  | nil => exact .inl (by simpa [set_nil] using member)
  | cons first rest ih =>
      obtain ⟨held, old⟩ := first
      simp only [set_cons] at member
      split at member
      · rcases List.mem_cons.mp member with same | later
        · exact .inl same
        · exact .inr (List.mem_cons_of_mem _ later)
      · split at member
        · exact List.mem_cons.mp member
        · rcases List.mem_cons.mp member with same | later
          · exact .inr (same ▸ List.mem_cons_self)
          · rcases ih later with same | inRest
            · exact .inl same
            · exact .inr (List.mem_cons_of_mem _ inRest)

theorem perm_names_set {name : String} (value : α) {fields : Fields α}
    (absent : name ∉ fields.map Prod.fst) :
    ((fields.set name value).map Prod.fst).Perm (name :: fields.map Prod.fst) := by
  induction fields with
  | nil => exact List.Perm.refl _
  | cons entry rest ih =>
      obtain ⟨held, old⟩ := entry
      simp only [List.map_cons, List.mem_cons, not_or] at absent
      have different : held ≠ name := fun same => absent.1 same.symm
      by_cases below : name < held
      · simp [set_cons, different, below]
      · simp only [set_cons, different, below, if_false, List.map_cons]
        exact ((ih absent.2).cons held).trans (.swap name held _)

theorem names_set_congr {β : Type} {left : Fields α} {right : Fields β}
    (same : left.map Prod.fst = right.map Prod.fst) (name : String) (value : α) (other : β) :
    (left.set name value).map Prod.fst = (right.set name other).map Prod.fst := by
  induction left generalizing right with
  | nil =>
      cases right with
      | nil => rfl
      | cons entry rest => simp at same
  | cons entry rest ih =>
      cases right with
      | nil => simp at same
      | cons otherEntry others =>
          obtain ⟨held, old⟩ := entry
          obtain ⟨otherHeld, otherOld⟩ := otherEntry
          simp only [List.map_cons, List.cons.injEq] at same
          obtain ⟨rfl, tail⟩ := same
          simp only [set_cons]
          split
          · simp [tail]
          · split
            · simp [tail]
            · simp [ih tail]

theorem length_set_of_absent {name : String} (value : α) {fields : Fields α}
    (absent : name ∉ fields.map Prod.fst) :
    (fields.set name value).length = fields.length + 1 := by
  simpa using (perm_names_set value absent).length_eq

theorem mem_overlay {base top : Fields α} {entry : String × α}
    (member : entry ∈ base.overlay top) : entry ∈ top ∨ entry ∈ base := by
  induction top generalizing base with
  | nil => exact .inr member
  | cons first rest ih =>
      simp only [overlay, List.foldl_cons] at member ih
      rcases ih member with inRest | inSet
      · exact .inl (List.mem_cons_of_mem _ inRest)
      · rcases mem_set inSet with same | inBase
        · exact .inl (same ▸ List.mem_cons_self)
        · exact .inr inBase

section Traverse

variable {β ε : Type} {transform : α → Except ε β}

theorem traverse_nil : traverse transform [] = .ok [] :=
  rfl

theorem traverse_cons (name : String) (value : α) (rest : Fields α) :
    traverse transform ((name, value) :: rest) =
      (transform value).bind fun result =>
        (traverse transform rest).bind fun others => .ok ((name, result) :: others) :=
  rfl

section Entry

variable {name : String} {value : α} {rest : Fields α}

theorem traverse_cons_of_error {fault : ε} (failed : transform value = .error fault) :
    traverse transform ((name, value) :: rest) = .error fault := by
  rw [traverse_cons, failed]
  rfl

theorem traverse_cons_of_rest_error {result : β} {fault : ε} (given : transform value = .ok result)
    (failed : traverse transform rest = .error fault) :
    traverse transform ((name, value) :: rest) = .error fault := by
  rw [traverse_cons, given, failed]
  rfl

theorem traverse_cons_of_ok {result : β} {others : Fields β} (given : transform value = .ok result)
    (later : traverse transform rest = .ok others) :
    traverse transform ((name, value) :: rest) = .ok ((name, result) :: others) := by
  rw [traverse_cons, given, later]
  rfl

theorem traverse_cons_ok {out : Fields β}
    (done : traverse transform ((name, value) :: rest) = .ok out) :
    ∃ result others, transform value = .ok result ∧ traverse transform rest = .ok others ∧
      out = (name, result) :: others := by
  cases first : transform value with
  | error fault =>
      rw [traverse_cons_of_error first] at done
      simp at done
  | ok result =>
      cases later : traverse transform rest with
      | error fault =>
          rw [traverse_cons_of_rest_error first later] at done
          simp at done
      | ok others =>
          rw [traverse_cons_of_ok first later, Except.ok.injEq] at done
          exact ⟨result, others, rfl, rfl, done.symm⟩

end Entry

theorem names_traverse {fields : Fields α} {out : Fields β}
    (done : traverse transform fields = .ok out) :
    out.map Prod.fst = fields.map Prod.fst := by
  induction fields generalizing out with
  | nil =>
      rw [traverse_nil, Except.ok.injEq] at done
      simp [← done]
  | cons entry rest ih =>
      obtain ⟨result, others, -, later, same⟩ := traverse_cons_ok done
      simp [same, ih later]

theorem ascending_traverse {fields : Fields α} {out : Fields β}
    (done : traverse transform fields = .ok out) : out.Ascending ↔ fields.Ascending := by
  simp only [Ascending, names_traverse done]

theorem get?_traverse {fields : Fields α} {out : Fields β}
    (done : traverse transform fields = .ok out) (name : String) :
    out.get? name = (fields.get? name).bind fun value => (transform value).toOption := by
  induction fields generalizing out with
  | nil =>
      rw [traverse_nil, Except.ok.injEq] at done
      simp [← done, get?_nil]
  | cons entry rest ih =>
      obtain ⟨held, value⟩ := entry
      obtain ⟨result, others, first, later, same⟩ := traverse_cons_ok done
      subst same
      by_cases found : held = name
      · simp [get?_cons, found, first, Except.toOption]
      · simp [get?_cons, found, ih later]

theorem exists_traverse_iff {fields : Fields α} :
    (∃ out, traverse transform fields = .ok out) ↔
      ∀ entry ∈ fields, ∃ result, transform entry.2 = .ok result := by
  induction fields with
  | nil => simp [traverse_nil]
  | cons entry rest ih =>
      obtain ⟨name, value⟩ := entry
      rw [List.forall_mem_cons, ← ih]
      cases first : transform value with
      | error fault => simp [traverse_cons_of_error first]
      | ok result =>
          cases later : traverse transform rest with
          | error fault => simp [traverse_cons_of_rest_error first later]
          | ok others => simp [traverse_cons_of_ok first later]

theorem exists_traverse_error_iff {fields : Fields α} :
    (∃ fault, traverse transform fields = .error fault) ↔
      ∃ entry ∈ fields, ∃ fault, transform entry.2 = .error fault := by
  induction fields with
  | nil => simp [traverse_nil]
  | cons entry rest ih =>
      obtain ⟨name, value⟩ := entry
      simp only [List.mem_cons, exists_eq_or_imp, ← ih]
      cases first : transform value with
      | error fault => simp [traverse_cons_of_error first]
      | ok result =>
          cases later : traverse transform rest with
          | error fault => simp [traverse_cons_of_rest_error first later]
          | ok others => simp [traverse_cons_of_ok first later]

theorem exists_mem_traverse {fields : Fields α} {out : Fields β}
    (done : traverse transform fields = .ok out) {name : String} {value : α}
    (member : (name, value) ∈ fields) :
    ∃ result, transform value = .ok result ∧ (name, result) ∈ out := by
  induction fields generalizing out with
  | nil => simp at member
  | cons entry rest ih =>
      obtain ⟨result, others, first, later, rfl⟩ := traverse_cons_ok done
      rcases List.mem_cons.mp member with same | inRest
      · cases same
        exact ⟨result, first, List.mem_cons_self⟩
      · obtain ⟨found, transformed, inOthers⟩ := ih later inRest
        exact ⟨found, transformed, List.mem_cons_of_mem _ inOthers⟩

end Traverse

end Fields

end KeyedStore
