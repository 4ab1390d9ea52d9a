/-! Field maps: named values listed by ascending name. Lookups stop at the first
entry of a name, and writing a name keeps the order, so an ascending map stays
ascending and has one entry for each name. -/

namespace KeyedStore

/-- Named values, listed by ascending name. Names compare by code point. -/
abbrev Fields (α : Type) := List (String × α)

namespace Fields

variable {α β ε : Type}

def Ascending (fields : Fields α) : Prop :=
  (fields.map Prod.fst).Pairwise (· < ·)

instance (fields : Fields α) : Decidable fields.Ascending :=
  inferInstanceAs (Decidable ((fields.map Prod.fst).Pairwise (· < ·)))

def get? : Fields α → String → Option α
  | [], _ => none
  | (held, value) :: rest, name => if held = name then some value else get? rest name

def set (name : String) (value : α) : Fields α → Fields α
  | [] => [(name, value)]
  | (held, old) :: rest =>
      if held = name then (name, value) :: rest
      else if name < held then (name, value) :: (held, old) :: rest
      else (held, old) :: set name value rest

/-- All fields of both maps; where both bind a name the second map wins. -/
def overlay (base top : Fields α) : Fields α :=
  top.foldl (fun merged entry => merged.set entry.1 entry.2) base

def ofList (entries : List (String × α)) : Fields α :=
  overlay [] entries

/-- The first failure in name order, or every value transformed. -/
def traverse (transform : α → Except ε β) : Fields α → Except ε (Fields β)
  | [] => .ok []
  | (name, value) :: rest => do
      let value ← transform value
      let rest ← traverse transform rest
      return (name, value) :: rest

theorem get?_nil (name : String) : get? ([] : Fields α) name = none :=
  rfl

theorem get?_cons (entry : String × α) (rest : Fields α) (name : String) :
    get? (entry :: rest) name = if entry.1 = name then some entry.2 else rest.get? name :=
  rfl

theorem set_nil (name : String) (value : α) : set name value [] = [(name, value)] :=
  rfl

theorem set_cons (name : String) (value : α) (held : String) (old : α) (rest : Fields α) :
    set name value ((held, old) :: rest) =
      if held = name then (name, value) :: rest
      else if name < held then (name, value) :: (held, old) :: rest
      else (held, old) :: set name value rest :=
  rfl

theorem get?_set_self (name : String) (value : α) (fields : Fields α) :
    (set name value fields).get? name = some value := by
  induction fields with
  | nil => simp [set_nil, get?_cons]
  | cons entry rest ih =>
      obtain ⟨held, old⟩ := entry
      by_cases same : held = name
      · simp [set_cons, get?_cons, same]
      · by_cases below : name < held <;> simp [set_cons, get?_cons, same, below, ih]

theorem get?_set_of_ne {name other : String} (different : name ≠ other) (value : α)
    (fields : Fields α) : (set name value fields).get? other = fields.get? other := by
  induction fields with
  | nil => simp [set_nil, get?_nil, get?_cons, different]
  | cons entry rest ih =>
      obtain ⟨held, old⟩ := entry
      by_cases same : held = name
      · subst same
        simp [set_cons, get?_cons, different]
      · by_cases below : name < held <;> simp [set_cons, get?_cons, same, below, different, ih]

theorem mem_names_set (name : String) (value : α) (fields : Fields α) (other : String) :
    other ∈ (set name value fields).map Prod.fst ↔
      other = name ∨ other ∈ fields.map Prod.fst := by
  induction fields with
  | nil => simp [set_nil]
  | cons entry rest ih =>
      obtain ⟨held, old⟩ := entry
      by_cases same : held = name
      · simp [set_cons, same]
      · by_cases below : name < held
        · simp [set_cons, same, below]
        · simp only [set_cons, same, below, if_false, List.map_cons, List.mem_cons, ih]
          exact or_left_comm

theorem ascending_set {fields : Fields α} (ascending : fields.Ascending) (name : String)
    (value : α) : (set name value fields).Ascending := by
  induction fields with
  | nil => simp [set_nil, Ascending]
  | cons entry rest ih =>
      obtain ⟨held, old⟩ := entry
      simp only [Ascending, List.map_cons, List.pairwise_cons] at ascending
      by_cases same : held = name
      · subst same
        simpa [set_cons, Ascending] using ascending
      · by_cases below : name < held
        · simp only [set_cons, same, below, if_false, if_true, Ascending, List.map_cons,
            List.pairwise_cons, List.mem_cons]
          refine ⟨?_, ascending⟩
          rintro other (first | later)
          · exact first ▸ below
          · exact String.lt_trans below (ascending.1 other later)
        · have above : held < name := by
            apply Decidable.byContradiction
            intro beyond
            exact same (String.le_antisymm (String.not_lt.mp below) (String.not_lt.mp beyond))
          simp only [set_cons, same, below, if_false, Ascending, List.map_cons, List.pairwise_cons]
          refine ⟨?_, ih ascending.2⟩
          intro other member
          rcases (mem_names_set name value rest other).mp member with first | later
          · exact first ▸ above
          · exact ascending.1 other later

theorem ascending_overlay {base : Fields α} (ascending : base.Ascending) (top : Fields α) :
    (base.overlay top).Ascending := by
  unfold overlay
  induction top generalizing base with
  | nil => exact ascending
  | cons entry rest ih => exact ih (ascending_set ascending entry.1 entry.2)

theorem ascending_ofList (entries : List (String × α)) : (ofList entries).Ascending :=
  ascending_overlay (by simp [Ascending]) entries

end Fields

end KeyedStore
