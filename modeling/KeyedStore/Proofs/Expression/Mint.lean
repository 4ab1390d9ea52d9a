import KeyedStore.Proofs.Expression.AliasText
import KeyedStore.Proofs.Fields

/-! What is written to the alias tables, as bindings in the order they are written. Bindings
are fresh for some tables when each alias is unbound until its binding is written: then
nothing that was bound is lost, and every binding stands at the end. -/

namespace KeyedStore

/-- An alias with the field or the value it is bound to. -/
inductive Mint where
  | name (label field : String)
  | value (label : String) (content : Attribute)

def Mint.label : Mint → String
  | .name label _ => label
  | .value label _ => label

namespace Aliases

def bind (aliases : Aliases) : Mint → Aliases
  | .name label field => aliases.bindName label field
  | .value label content => { aliases with values := aliases.values.set label content }

def bindAll (aliases : Aliases) (mints : List Mint) : Aliases :=
  mints.foldl bind aliases

def Holds (aliases : Aliases) : Mint → Prop
  | .name label field => aliases.names.get? label = some field
  | .value label content => aliases.values.get? label = some content

def Lacks (aliases : Aliases) : Mint → Prop
  | .name label _ => label ∉ aliases.names.map Prod.fst
  | .value label _ => label ∉ aliases.values.map Prod.fst

@[simp]
theorem bindAll_nil (aliases : Aliases) : aliases.bindAll [] = aliases := rfl

@[simp]
theorem bindAll_cons (aliases : Aliases) (mint : Mint) (rest : List Mint) :
    aliases.bindAll (mint :: rest) = (aliases.bind mint).bindAll rest := rfl

theorem bindAll_append (aliases : Aliases) (front back : List Mint) :
    aliases.bindAll (front ++ back) = (aliases.bindAll front).bindAll back :=
  List.foldl_append

theorem holds_bind_self (aliases : Aliases) (mint : Mint) : (aliases.bind mint).Holds mint := by
  cases mint with
  | name label field => exact Fields.get?_set_self label field aliases.names
  | value label content => exact Fields.get?_set_self label content aliases.values

theorem get?_bind_of_ne {mint : Mint} {label : String} (different : mint.label ≠ label)
    (aliases : Aliases) :
    (aliases.bind mint).names.get? label = aliases.names.get? label ∧
      (aliases.bind mint).values.get? label = aliases.values.get? label := by
  cases mint with
  | name other field => exact ⟨Fields.get?_set_of_ne different field aliases.names, rfl⟩
  | value other content => exact ⟨rfl, Fields.get?_set_of_ne different content aliases.values⟩

theorem get?_bindAll_of_notMem {mints : List Mint} {label : String}
    (absent : label ∉ mints.map Mint.label) (aliases : Aliases) :
    (aliases.bindAll mints).names.get? label = aliases.names.get? label ∧
      (aliases.bindAll mints).values.get? label = aliases.values.get? label := by
  induction mints generalizing aliases with
  | nil => exact ⟨rfl, rfl⟩
  | cons mint rest ih =>
      simp only [List.map_cons, List.mem_cons, not_or] at absent
      obtain ⟨names, values⟩ := ih absent.2 (aliases.bind mint)
      obtain ⟨ownNames, ownValues⟩ := get?_bind_of_ne (Ne.symm absent.1) aliases
      exact ⟨names.trans ownNames, values.trans ownValues⟩

theorem holds_bindAll_of_nodup {mints : List Mint} (distinct : (mints.map Mint.label).Nodup)
    (aliases : Aliases) : ∀ mint ∈ mints, (aliases.bindAll mints).Holds mint := by
  induction mints generalizing aliases with
  | nil => simp
  | cons mint rest ih =>
      rw [List.map_cons, List.nodup_cons] at distinct
      refine List.forall_mem_cons.mpr ⟨?_, ih distinct.2 _⟩
      obtain ⟨names, values⟩ := get?_bindAll_of_notMem distinct.1 (aliases.bind mint)
      have own := aliases.holds_bind_self mint
      cases mint with
      | name label field => exact names.trans own
      | value label content => exact values.trans own

theorem not_lacks_of_holds {aliases : Aliases} {mint : Mint} (holds : aliases.Holds mint) :
    ¬aliases.Lacks mint := by
  intro lacks
  cases mint with
  | name label field => simp [Holds, Fields.get?_eq_none_iff.mpr lacks] at holds
  | value label content => simp [Holds, Fields.get?_eq_none_iff.mpr lacks] at holds

theorem holds_bind_of_lacks {aliases : Aliases} {mint held : Mint} (lacks : aliases.Lacks mint)
    (holds : aliases.Holds held) : (aliases.bind mint).Holds held := by
  cases held with
  | name other field =>
      cases mint with
      | value label content => exact holds
      | name label content =>
          have different : label ≠ other := by
            rintro rfl
            exact not_lacks_of_holds holds lacks
          exact (Fields.get?_set_of_ne different content aliases.names).trans holds
  | value other field =>
      cases mint with
      | name label content => exact holds
      | value label content =>
          have different : label ≠ other := by
            rintro rfl
            exact not_lacks_of_holds holds lacks
          exact (Fields.get?_set_of_ne different content aliases.values).trans holds

theorem lacks_of_lacks_bind {aliases : Aliases} {mint other : Mint}
    (lacks : (aliases.bind mint).Lacks other) : aliases.Lacks other := by
  cases other with
  | name label field =>
      cases mint with
      | value => exact lacks
      | name => exact fun bound => lacks ((Fields.mem_names_set _ _ _ _).mpr (.inr bound))
  | value label content =>
      cases mint with
      | name => exact lacks
      | value => exact fun bound => lacks ((Fields.mem_names_set _ _ _ _).mpr (.inr bound))

end Aliases

/-- Each alias is unbound just before its binding is written. -/
def Fresh : List Mint → Aliases → Prop
  | [], _ => True
  | mint :: rest, aliases => aliases.Lacks mint ∧ Fresh rest (aliases.bind mint)

namespace Fresh

variable {aliases : Aliases} {mints : List Mint}

theorem append {front back : List Mint} (first : Fresh front aliases)
    (second : Fresh back (aliases.bindAll front)) : Fresh (front ++ back) aliases := by
  induction front generalizing aliases with
  | nil => exact second
  | cons mint rest ih => exact ⟨first.1, ih first.2 second⟩

theorem keeps (fresh : Fresh mints aliases) {held : Mint} (holds : aliases.Holds held) :
    (aliases.bindAll mints).Holds held := by
  induction mints generalizing aliases with
  | nil => exact holds
  | cons mint rest ih => exact ih fresh.2 (Aliases.holds_bind_of_lacks fresh.1 holds)

theorem holds_all (fresh : Fresh mints aliases) :
    ∀ mint ∈ mints, (aliases.bindAll mints).Holds mint := by
  induction mints generalizing aliases with
  | nil => simp
  | cons first rest ih =>
      refine List.forall_mem_cons.mpr ⟨?_, ih fresh.2⟩
      exact fresh.2.keeps (aliases.holds_bind_self first)

theorem lacks_all (fresh : Fresh mints aliases) : ∀ mint ∈ mints, aliases.Lacks mint := by
  induction mints generalizing aliases with
  | nil => simp
  | cons first rest ih =>
      refine List.forall_mem_cons.mpr ⟨fresh.1, ?_⟩
      exact fun mint member => Aliases.lacks_of_lacks_bind (ih fresh.2 mint member)

end Fresh

/-- The label is an alias of a name, in either scheme, that carries the number. -/
def CarriesNumber (label : String) (number : Nat) : Prop :=
  label = Aliases.nameAlias number ∨ ∃ place, label = Aliases.segmentAlias number place

theorem not_carriesNumber_valueAlias (other number : Nat) :
    ¬CarriesNumber (Aliases.valueAlias other) number := by
  rintro (asName | ⟨place, asSegment⟩)
  · exact Aliases.nameAlias_ne_valueAlias number other asName.symm
  · exact Aliases.segmentAlias_ne_valueAlias number place other asSegment.symm

theorem CarriesNumber.unique {label : String} {left right : Nat}
    (first : CarriesNumber label left) (second : CarriesNumber label right) : left = right := by
  rcases first with rfl | ⟨place, rfl⟩
  · rcases second with asName | ⟨place, asSegment⟩
    · exact Aliases.nameAlias_inj asName
    · exact absurd asSegment (Aliases.nameAlias_ne_segmentAlias left right place)
  · rcases second with asName | ⟨other, asSegment⟩
    · exact absurd asName.symm (Aliases.nameAlias_ne_segmentAlias right left place)
    · exact (Aliases.segmentAlias_inj asSegment).1

namespace Aliases

/-- The numbers in the aliases of the names are below a bound that the size of the table has
reached; those in the aliases of the values are below the size of their table. -/
structure NumberedBelow (bound : Nat) (aliases : Aliases) : Prop where
  names : ∀ label ∈ aliases.names.map Prod.fst, ∃ number < bound, CarriesNumber label number
  room : bound ≤ aliases.names.length
  values : ∀ label ∈ aliases.values.map Prod.fst,
    ∃ number < aliases.values.length, label = valueAlias number

/-- No alias carries a number that a later one could be given. -/
def Numbered (aliases : Aliases) : Prop :=
  aliases.NumberedBelow aliases.names.length

theorem numbered_empty : empty.Numbered :=
  ⟨by simp [empty], Nat.le_refl _, by simp [empty]⟩

namespace NumberedBelow

variable {aliases : Aliases} {bound : Nat}

theorem numbered (below : aliases.NumberedBelow bound) : aliases.Numbered := by
  refine ⟨?_, Nat.le_refl _, below.values⟩
  intro label member
  obtain ⟨number, lower, carries⟩ := below.names label member
  exact ⟨number, Nat.lt_of_lt_of_le lower below.room, carries⟩

theorem lacks_name (below : aliases.NumberedBelow bound) {label : String} {number : Nat}
    (carries : CarriesNumber label number) (reached : bound ≤ number) (field : String) :
    aliases.Lacks (.name label field) := by
  intro member
  obtain ⟨other, lower, otherCarries⟩ := below.names label member
  have same := otherCarries.unique carries
  omega

theorem bind_name (below : aliases.NumberedBelow bound) {label field : String} {number : Nat}
    (carries : CarriesNumber label number) (lacks : aliases.Lacks (.name label field))
    {larger : Nat} (lower : number < larger) (wider : bound ≤ larger) (next : larger ≤ bound + 1) :
    (aliases.bind (.name label field)).NumberedBelow larger := by
  refine ⟨?_, ?_, below.values⟩
  · intro other member
    rcases (Fields.mem_names_set label field aliases.names other).mp member with same | earlier
    · exact ⟨number, lower, same ▸ carries⟩
    · obtain ⟨old, oldLower, oldCarries⟩ := below.names other earlier
      exact ⟨old, by omega, oldCarries⟩
  · have size : (aliases.bind (.name label field)).names.length = aliases.names.length + 1 :=
      Fields.length_set_of_absent field lacks
    have room := below.room
    omega

theorem lacks_value (below : aliases.NumberedBelow bound) (content : Attribute) :
    aliases.Lacks (.value (valueAlias aliases.values.length) content) := by
  intro member
  obtain ⟨other, lower, same⟩ := below.values _ member
  have equal := valueAlias_inj same
  omega

theorem bind_value (below : aliases.NumberedBelow bound) (content : Attribute) :
    (aliases.bind (.value (valueAlias aliases.values.length) content)).NumberedBelow bound := by
  refine ⟨below.names, below.room, ?_⟩
  have size : (aliases.bind (.value (valueAlias aliases.values.length) content)).values.length =
      aliases.values.length + 1 :=
    Fields.length_set_of_absent content (below.lacks_value content)
  intro other member
  rw [size]
  rcases (Fields.mem_names_set _ content aliases.values other).mp member with same | earlier
  · exact ⟨aliases.values.length, Nat.lt_succ_self _, same⟩
  · obtain ⟨old, lower, carries⟩ := below.values other earlier
    exact ⟨old, by omega, carries⟩

end NumberedBelow

theorem Numbered.mint_name {aliases : Aliases} (numbered : aliases.Numbered) (field : String) :
    aliases.Lacks (.name (nameAlias aliases.names.length) field) ∧
      (aliases.bind (.name (nameAlias aliases.names.length) field)).NumberedBelow
        (aliases.names.length + 1) := by
  have carries : CarriesNumber (nameAlias aliases.names.length) aliases.names.length := .inl rfl
  have lacks := numbered.lacks_name carries (Nat.le_refl _) field
  exact ⟨lacks, numbered.bind_name carries lacks (Nat.lt_succ_self _) (Nat.le_succ _)
    (Nat.le_refl _)⟩

theorem label_ne_of_holds {aliases : Aliases} (numbered : aliases.Numbered)
    {nameLabel field valueLabel : String} {content : Attribute}
    (nameHeld : aliases.Holds (.name nameLabel field))
    (valueHeld : aliases.Holds (.value valueLabel content)) : nameLabel ≠ valueLabel := by
  intro same
  obtain ⟨number, -, carries⟩ :=
    numbered.names nameLabel (List.mem_map_of_mem (Fields.mem_of_get? nameHeld))
  obtain ⟨other, -, valued⟩ :=
    numbered.values valueLabel (List.mem_map_of_mem (Fields.mem_of_get? valueHeld))
  rw [same, valued] at carries
  exact not_carriesNumber_valueAlias other number carries

end Aliases

theorem Fresh.nodup_labels {mints : List Mint} {aliases : Aliases} (fresh : Fresh mints aliases)
    (numbered : (aliases.bindAll mints).Numbered) : (mints.map Mint.label).Nodup := by
  induction mints generalizing aliases with
  | nil => exact List.nodup_nil
  | cons mint rest ih =>
      refine List.nodup_cons.mpr ⟨?_, ih fresh.2 numbered⟩
      intro member
      obtain ⟨other, inRest, same⟩ := List.mem_map.mp member
      -- in one table the later binding was absent while the earlier one stood; in two tables
      -- the texts themselves differ, as both bindings stand at the end
      have lacks := fresh.2.lacks_all other inRest
      have mintHeld := fresh.2.keeps (aliases.holds_bind_self mint)
      have otherHeld := fresh.2.holds_all other inRest
      cases mint with
      | name label field =>
          cases other with
          | name otherLabel otherField =>
              exact lacks ((Fields.mem_names_set _ _ _ _).mpr (.inl same))
          | value otherLabel content =>
              exact Aliases.label_ne_of_holds numbered mintHeld otherHeld same.symm
      | value label content =>
          cases other with
          | name otherLabel field =>
              exact Aliases.label_ne_of_holds numbered otherHeld mintHeld same
          | value otherLabel otherContent =>
              exact lacks ((Fields.mem_names_set _ _ _ _).mpr (.inl same))

end KeyedStore
