import KeyedStore.Proofs.Fields
import KeyedStore.Value.Path

/-! Places in nested maps. A place holds a value or nothing; names lead from the place of
a map to the places of its fields. Reading and writing behind names are a lens, and writes
behind names of which neither leads through the other do not meet. -/

namespace KeyedStore

abbrev Place := Option Value

namespace Place

def fields? : Place → Option Item
  | some (.map fields) => some fields
  | _ => none

/-- The place that names lead to; there is none where a parent is missing or no map. -/
def read? : List String → Place → Option Place
  | [], place => some place
  | name :: rest, place =>
      match fields? place with
      | some fields => read? rest (Fields.get? fields name)
      | none => none

def write (content : Place) : List String → Place → Place
  | [], _ => content
  | name :: rest, place =>
      match fields? place with
      | some fields =>
          some (.map (Fields.assign name (write content rest (Fields.get? fields name)) fields))
      | none => place

def OrderedAlong : List String → Place → Prop
  | [], _ => True
  | name :: rest, place =>
      ∀ fields, fields? place = some fields →
        Fields.Ascending fields ∧ OrderedAlong rest (Fields.get? fields name)

def Separate (left right : List String) : Prop :=
  ¬left <+: right ∧ ¬right <+: left

theorem Separate.symm {left right : List String} (separate : Separate left right) :
    Separate right left :=
  And.symm separate

theorem separate_cons_iff {name : String} {left right : List String} :
    Separate (name :: left) (name :: right) ↔ Separate left right := by
  simp [Separate, List.cons_prefix_cons]

variable {names left right : List String} {place : Place}

theorem fields?_map (fields : Item) : fields? (some (.map fields)) = some fields := rfl

theorem eq_map_of_fields? {fields : Item} (held : fields? place = some fields) :
    place = some (.map fields) := by
  unfold fields? at held
  split at held
  · simpa using held
  · simp at held

section Behind

variable {name : String}

theorem read?_of_no_map (held : fields? place = none) : read? (name :: names) place = none := by
  simp only [read?, held]

theorem read?_of_map {fields : Item} (held : fields? place = some fields) :
    read? (name :: names) place = read? names (Fields.get? fields name) := by
  simp only [read?, held]

theorem write_of_no_map (held : fields? place = none) (content : Place) :
    write content (name :: names) place = place := by
  simp only [write, held]

theorem write_of_map {fields : Item} (held : fields? place = some fields) (content : Place) :
    write content (name :: names) place =
      some (.map
        (Fields.assign name (write content names (Fields.get? fields name)) fields)) := by
  simp only [write, held]

end Behind

theorem read?_cons_eq_some_iff {name : String} {held : Place} :
    read? (name :: names) place = some held ↔
      ∃ fields, place = some (.map fields) ∧ read? names (Fields.get? fields name) = some held := by
  constructor
  · intro found
    cases shape : fields? place with
    | none =>
        rw [read?_of_no_map shape] at found
        simp at found
    | some fields =>
        rw [read?_of_map shape] at found
        exact ⟨fields, eq_map_of_fields? shape, found⟩
  · rintro ⟨fields, rfl, found⟩
    rwa [read?_of_map (fields?_map fields)]

theorem isSome_of_read? {value : Value} (found : read? names place = some (some value)) :
    place.isSome := by
  cases names with
  | nil =>
      have same : place = some value := Option.some.inj found
      simp [same]
  | cons name rest =>
      obtain ⟨fields, isMap, -⟩ := read?_cons_eq_some_iff.mp found
      simp [isMap]

theorem isSome_read?_write (content : Place) :
    (read? names (write content names place)).isSome = (read? names place).isSome := by
  induction names generalizing place with
  | nil => rfl
  | cons name rest ih =>
      cases held : fields? place with
      | none => rw [write_of_no_map held]
      | some fields =>
          rw [write_of_map held, read?_of_map (fields?_map _), read?_of_map held,
            Fields.get?_assign_self, ih]

theorem read?_write_self (reached : (read? names place).isSome) (content : Place) :
    read? names (write content names place) = some content := by
  induction names generalizing place with
  | nil => rfl
  | cons name rest ih =>
      cases held : fields? place with
      | none =>
          rw [read?_of_no_map held] at reached
          simp at reached
      | some fields =>
          rw [read?_of_map held] at reached
          rw [write_of_map held, read?_of_map (fields?_map _), Fields.get?_assign_self]
          exact ih reached

theorem write_read? {content : Place} (ordered : OrderedAlong names place)
    (found : read? names place = some content) : write content names place = place := by
  induction names generalizing place with
  | nil => exact (Option.some.inj found).symm
  | cons name rest ih =>
      cases held : fields? place with
      | none => exact write_of_no_map held content
      | some fields =>
          obtain ⟨ascending, restOrdered⟩ := ordered fields held
          rw [read?_of_map held] at found
          rw [write_of_map held, ih restOrdered found, Fields.assign_get? ascending,
            eq_map_of_fields? held]

theorem write_eq_self_iff {held : Place} (ordered : OrderedAlong names place)
    (found : read? names place = some held) (content : Place) :
    write content names place = place ↔ content = held := by
  constructor
  · intro kept
    have written := read?_write_self (Option.isSome_of_eq_some found) content
    rw [kept, found, Option.some.injEq] at written
    exact written.symm
  · intro same
    exact same ▸ write_read? ordered found

theorem exists_write_map (filled : names ≠ []) (content : Place) (fields : Item) :
    ∃ written : Item, write content names (some (.map fields)) = some (.map written) := by
  cases names with
  | nil => exact absurd rfl filled
  | cons name rest => exact ⟨_, rfl⟩

theorem write_write (ordered : OrderedAlong names place) (first second : Place) :
    write second names (write first names place) = write second names place := by
  induction names generalizing place with
  | nil => rfl
  | cons name rest ih =>
      cases held : fields? place with
      | none => rw [write_of_no_map held]
      | some fields =>
          obtain ⟨ascending, restOrdered⟩ := ordered fields held
          rw [write_of_map held, write_of_map held, write_of_map (fields?_map _),
            Fields.get?_assign_self, ih restOrdered, Fields.assign_assign_self ascending]

theorem read?_write_of_separate (separate : Separate left right) (content : Place) :
    read? right (write content left place) = read? right place := by
  induction left generalizing right place with
  | nil => exact absurd List.nil_prefix separate.1
  | cons name rest ih =>
      cases right with
      | nil => exact absurd List.nil_prefix separate.2
      | cons other others =>
          cases held : fields? place with
          | none => rw [write_of_no_map held]
          | some fields =>
              rw [write_of_map held, read?_of_map (fields?_map _), read?_of_map held]
              by_cases same : name = other
              · subst same
                rw [Fields.get?_assign_self]
                exact ih (separate_cons_iff.mp separate)
              · rw [Fields.get?_assign_of_ne same]

theorem write_comm (separate : Separate left right) (leftOrdered : OrderedAlong left place)
    (leftContent rightContent : Place) :
    write rightContent right (write leftContent left place) =
      write leftContent left (write rightContent right place) := by
  induction left generalizing right place with
  | nil => exact absurd List.nil_prefix separate.1
  | cons name rest ih =>
      cases right with
      | nil => exact absurd List.nil_prefix separate.2
      | cons other others =>
          cases held : fields? place with
          | none => simp only [write_of_no_map held]
          | some fields =>
              obtain ⟨ascending, restOrdered⟩ := leftOrdered fields held
              rw [write_of_map held, write_of_map held, write_of_map (fields?_map _),
                write_of_map (fields?_map _)]
              by_cases same : name = other
              · subst same
                rw [Fields.get?_assign_self, Fields.get?_assign_self,
                  Fields.assign_assign_self ascending, Fields.assign_assign_self ascending,
                  ih (separate_cons_iff.mp separate) restOrdered]
              · rw [Fields.get?_assign_of_ne same, Fields.get?_assign_of_ne (Ne.symm same),
                  Fields.assign_comm ascending same]

theorem OrderedAlong.write (ordered : OrderedAlong right place)
    (leftOrdered : OrderedAlong left place) (apart : left = right ∨ Separate left right)
    (content : Place) : OrderedAlong right (Place.write content left place) := by
  induction left generalizing right place with
  | nil =>
      rcases apart with same | separate
      · exact same ▸ trivial
      · exact absurd List.nil_prefix separate.1
  | cons name rest ih =>
      cases right with
      | nil => trivial
      | cons other others =>
          cases held : fields? place with
          | none =>
              rw [write_of_no_map held]
              exact ordered
          | some fields =>
              obtain ⟨ascending, restOrdered⟩ := leftOrdered fields held
              obtain ⟨-, othersOrdered⟩ := ordered fields held
              intro written shape
              rw [write_of_map held, fields?_map, Option.some.injEq] at shape
              subst shape
              refine ⟨Fields.ascending_assign ascending name _, ?_⟩
              by_cases same : name = other
              · subst same
                rw [Fields.get?_assign_self]
                apply ih othersOrdered restOrdered
                rcases apart with equal | separate
                · exact .inl (List.cons.inj equal).2
                · exact .inr (separate_cons_iff.mp separate)
              · rw [Fields.get?_assign_of_ne same]
                exact othersOrdered

end Place

end KeyedStore
