import KeyedStore.Proofs.Value.Numbers

/-! Equality of values as a relation. It is symmetric and transitive, and a value equals itself
unless not-a-number occurs in it. -/

namespace KeyedStore

namespace Number

theorem same_self_iff {number : Number} : number.same number = true ↔ number ≠ .notANumber := by
  cases number <;> simp [same, Double.same]

theorem forall_same_self_iff {numbers : List Number} :
    (∀ number ∈ numbers, (id number).same number = true) ↔ .notANumber ∉ numbers := by
  simp only [id, same_self_iff]
  exact ⟨fun clear member => clear _ member rfl, fun absent _ member same => absent (same ▸ member)⟩

theorem same_symm {left right : Number} (equal : left.same right = true) :
    right.same left = true := by
  cases left with
  | notANumber => simp [same] at equal
  | infinite negative =>
      cases right with
      | infinite other =>
          rw [same, beq_iff_eq] at equal ⊢
          exact equal.symm
      | _ => simp [same] at equal
  | finite left =>
      cases right with
      | finite right => grind [same, Double.same]
      | _ => simp [same] at equal

theorem same_trans {left middle right : Number} (first : left.same middle = true)
    (second : middle.same right = true) : left.same right = true := by
  cases middle with
  | notANumber => simp [same] at second
  | infinite negative => cases left <;> cases right <;> simp_all [same]
  | finite middle => cases left <;> cases right <;> grind [same, Double.same]

end Number

namespace Value

theorem same_self_iff {value : Value} :
    value.same value = true ↔ .notANumber ∉ value.numbers := by
  rw [← Number.forall_same_self_iff, ← same_mapNumbers_iff, mapNumbers_id]

mutual

theorem same_symm {left right : Value} (equal : left.same right = true) :
    right.same left = true := by
  cases left with
  | null => cases right <;> simp_all [same]
  | bool flag => cases right <;> simp_all [same]
  | string text => cases right <;> simp_all [same]
  | number left =>
      cases right with
      | number right => exact Number.same_symm equal
      | _ => simp [same] at equal
  | list lefts =>
      cases right with
      | list rights =>
          rw [same] at equal ⊢
          exact sameElements_symm equal
      | _ => simp [same] at equal
  | map lefts =>
      cases right with
      | map rights =>
          rw [same] at equal ⊢
          exact sameFields_symm equal
      | _ => simp [same] at equal

theorem sameElements_symm {left right : List Value} (equal : sameElements left right = true) :
    sameElements right left = true := by
  match left, right with
  | [], [] => rfl
  | _ :: _, _ :: _ =>
      simp only [sameElements, Bool.and_eq_true] at equal ⊢
      exact ⟨same_symm equal.1, sameElements_symm equal.2⟩

theorem sameFields_symm {left right : List (String × Value)}
    (equal : sameFields left right = true) : sameFields right left = true := by
  match left, right with
  | [], [] => rfl
  | (_, _) :: _, (_, _) :: _ =>
      simp only [sameFields, Bool.and_eq_true, beq_iff_eq] at equal ⊢
      exact ⟨⟨equal.1.1.symm, same_symm equal.1.2⟩, sameFields_symm equal.2⟩

end

mutual

theorem same_trans {left middle right : Value} (first : left.same middle = true)
    (second : middle.same right = true) : left.same right = true := by
  cases middle with
  | null => cases left <;> cases right <;> simp_all [same]
  | bool flag => cases left <;> cases right <;> simp_all [same]
  | string text => cases left <;> cases right <;> simp_all [same]
  | number middle =>
      cases left with
      | number left =>
          cases right with
          | number right => exact Number.same_trans first second
          | _ => simp [same] at second
      | _ => simp [same] at first
  | list middles =>
      cases left with
      | list lefts =>
          cases right with
          | list rights =>
              rw [same] at first second ⊢
              exact sameElements_trans first second
          | _ => simp [same] at second
      | _ => simp [same] at first
  | map middles =>
      cases left with
      | map lefts =>
          cases right with
          | map rights =>
              rw [same] at first second ⊢
              exact sameFields_trans first second
          | _ => simp [same] at second
      | _ => simp [same] at first

theorem sameElements_trans {left middle right : List Value}
    (first : sameElements left middle = true) (second : sameElements middle right = true) :
    sameElements left right = true := by
  match left, middle, right with
  | [], [], [] => rfl
  | _ :: _, _ :: _, _ :: _ =>
      simp only [sameElements, Bool.and_eq_true] at first second ⊢
      exact ⟨same_trans first.1 second.1, sameElements_trans first.2 second.2⟩

theorem sameFields_trans {left middle right : List (String × Value)}
    (first : sameFields left middle = true) (second : sameFields middle right = true) :
    sameFields left right = true := by
  match left, middle, right with
  | [], [], [] => rfl
  | (_, _) :: _, (_, _) :: _, (_, _) :: _ =>
      simp only [sameFields, Bool.and_eq_true, beq_iff_eq] at first second ⊢
      exact ⟨⟨first.1.1.trans second.1.1, same_trans first.1.2 second.1.2⟩,
        sameFields_trans first.2 second.2⟩

end

end Value

namespace Item

theorem same_symm {left right : Item} (equal : left.same right = true) :
    right.same left = true :=
  Value.sameFields_symm equal

theorem same_trans {left middle right : Item} (first : left.same middle = true)
    (second : middle.same right = true) : left.same right = true :=
  Value.sameFields_trans first second

theorem same_congr {left right : Item} (equal : left.same right = true) (other : Item) :
    left.same other = right.same other := by
  rw [Bool.eq_iff_iff]
  exact ⟨same_trans (same_symm equal), same_trans equal⟩

theorem same_self_iff {key : Item} :
    key.same key = true ↔ .notANumber ∉ Value.fieldNumbers key := by
  rw [← Number.forall_same_self_iff, ← Value.sameFields_mapNumbers_iff, Value.mapFieldNumbers_id,
    same]

theorem same_self_of_marshal {key : Item} {row : AttributeMap}
    (written : key.marshal = .ok row) : key.same key = true := by
  have finite :=
    firstNonFinite?_eq_none_iff.mp (key.reports_marshal.exists_ok_iff.mp ⟨row, written⟩)
  exact same_self_iff.mpr fun member => by simpa [Number.isFinite] using finite _ member

end Item

end KeyedStore
