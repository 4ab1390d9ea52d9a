import KeyedStore.Expression.Path
import KeyedStore.Proofs.Expression.Mint

/-! The paths that have an expression, told by their segments alone: no segment is empty,
the first is a name, and the append marker stands only at the end. For those the steps of the
expression are given in closed form. The tables that a path leaves, whether it has an expression
or not, are those it was given with its bindings written one after another. -/

namespace KeyedStore

def AdmitsRest : List String → Prop
  | [] => True
  | segment :: rest => segment ≠ "" ∧ (segment = appendMarker → rest = []) ∧ AdmitsRest rest

/-- The segments of a path that has an expression. -/
def Admits : List String → Prop
  | [] => False
  | first :: rest =>
      first ≠ "" ∧ first ≠ appendMarker ∧ isPosition first = false ∧ AdmitsRest rest

def endsInMarker (segments : List String) : Bool :=
  segments.getLast? == some appendMarker

def dropMarker (segments : List String) : List String :=
  if endsInMarker segments then segments.dropLast else segments

def segmentSteps (number : Nat) : Nat → List String → List Step
  | _, [] => []
  | place, segment :: rest =>
      if segment = appendMarker then segmentSteps number (place + 1) rest
      else if isPosition segment then .position segment :: segmentSteps number (place + 1) rest
      else .name (Aliases.segmentAlias number place) :: segmentSteps number (place + 1) rest

/-- The bindings of the segments from a place on, up to the first one that is refused. -/
def segmentMints (number : Nat) : Nat → List String → List Mint
  | _, [] => []
  | place, segment :: rest =>
      if segment.isEmpty ∨ segment = appendMarker then []
      else if isPosition segment then
        if place = 0 then [] else segmentMints number (place + 1) rest
      else
        .name (Aliases.segmentAlias number place) segment :: segmentMints number (place + 1) rest

def pathMints (number : Nat) (path : String) : List Mint :=
  segmentMints number 0 (pathSegments path)

theorem mem_segmentSteps {number place : Nat} {segments : List String} {step : Step}
    (member : step ∈ segmentSteps number place segments) :
    (∃ later, step = .name (Aliases.segmentAlias number later)) ∨
      ∃ digits, isPosition digits = true ∧ step = .position digits := by
  fun_induction segmentSteps number place segments with
  | case1 => simp at member
  | case2 place rest ih => exact ih member
  | case3 place segment rest plain position ih =>
      rcases List.mem_cons.mp member with same | later
      · exact .inr ⟨segment, position, same⟩
      · exact ih later
  | case4 place segment rest plain notPosition ih =>
      rcases List.mem_cons.mp member with same | later
      · exact .inl ⟨place, same⟩
      · exact ih later

theorem segmentMints_cons_of_name {segment : String} (name : segment ≠ appendMarker)
    (notPosition : isPosition segment = false) (number place : Nat) (rest : List String) :
    segmentMints number place (segment :: rest) =
      .name (Aliases.segmentAlias number place) segment ::
        segmentMints number (place + 1) rest := by
  have filled : segment ≠ "" := by
    rintro rfl
    simp [isPosition] at notPosition
  simp [segmentMints, filled, name, notPosition]

theorem mem_segmentMints {number place : Nat} {segments : List String} {mint : Mint}
    (member : mint ∈ segmentMints number place segments) :
    ∃ later ≥ place, ∃ field, mint = .name (Aliases.segmentAlias number later) field := by
  fun_induction segmentMints number place segments with
  | case1 => simp at member
  | case2 => simp at member
  | case3 => simp at member
  | case4 place segment rest plain position notFirst ih =>
      obtain ⟨later, behind, bound⟩ := ih member
      exact ⟨later, by omega, bound⟩
  | case5 place segment rest plain notPosition ih =>
      rcases List.mem_cons.mp member with same | inRest
      · exact ⟨place, Nat.le_refl place, segment, same⟩
      · obtain ⟨later, behind, bound⟩ := ih inRest
        exact ⟨later, by omega, bound⟩

theorem nodup_labels_segmentMints (number place : Nat) (segments : List String) :
    ((segmentMints number place segments).map Mint.label).Nodup := by
  fun_induction segmentMints number place segments with
  | case1 => exact List.nodup_nil
  | case2 => exact List.nodup_nil
  | case3 => exact List.nodup_nil
  | case4 place segment rest plain position later ih => exact ih
  | case5 place segment rest plain notPosition ih =>
      refine List.nodup_cons.mpr ⟨?_, ih⟩
      intro repeated
      obtain ⟨mint, member, same⟩ := List.mem_map.mp repeated
      obtain ⟨later, behind, field, rfl⟩ := mem_segmentMints member
      have equal := (Aliases.segmentAlias_inj same).2
      omega

theorem holds_pathMints (number : Nat) (path : String) (aliases : Aliases) :
    ∀ mint ∈ pathMints number path, (aliases.bindAll (pathMints number path)).Holds mint :=
  Aliases.holds_bindAll_of_nodup (nodup_labels_segmentMints number 0 (pathSegments path)) aliases

theorem endsInMarker_cons {segment : String} (name : segment ≠ appendMarker)
    (rest : List String) : endsInMarker (segment :: rest) = endsInMarker rest := by
  cases rest with
  | nil => simp [endsInMarker, name]
  | cons next rest => simp [endsInMarker, List.getLast?_cons]

theorem compileSegments_tables (number place : Nat) (segments : List String)
    (aliases : Aliases) :
    (compileSegments number place segments aliases).2 =
      aliases.bindAll (segmentMints number place segments) := by
  fun_induction compileSegments number place segments aliases with
  | case1 => rfl
  | case2 place segment rest aliases empty => simp [segmentMints, empty]
  | case3 place rest aliases misplaced filled => simp [segmentMints]
  | case4 place rest aliases last filled => simp [segmentMints]
  | case5 segment rest aliases filled plain position =>
      simp [segmentMints, plain, position]
  | case6 place segment rest aliases filled plain position later fault tables compiled ih =>
      simpa [segmentMints, filled, plain, position, later, compiled] using ih
  | case7 place segment rest aliases filled plain position later path tables compiled ih =>
      simpa [segmentMints, filled, plain, position, later, compiled] using ih
  | case8 place segment rest aliases filled plain notPosition label fault tables compiled ih =>
      rw [compiled] at ih
      simpa [segmentMints, filled, plain, notPosition, Aliases.bind] using ih
  | case9 place segment rest aliases filled plain notPosition label path tables compiled ih =>
      rw [compiled] at ih
      simpa [segmentMints, filled, plain, notPosition, Aliases.bind] using ih

theorem compileSegments_cons_ok {segment : String} {rest : List String} {number place : Nat}
    {aliases tables : Aliases} {path : PathExpression}
    (compiled : compileSegments number place (segment :: rest) aliases = (.ok path, tables)) :
    segment ≠ "" ∧
      (segment = appendMarker ∧ place ≠ 0 ∧ rest = [] ∨
        segment ≠ appendMarker ∧ (isPosition segment = true → place ≠ 0) ∧
          ∃ before found,
            compileSegments number (place + 1) rest before = (.ok found, tables)) := by
  simp only [compileSegments] at compiled
  by_cases empty : segment.isEmpty = true
  · simp [empty] at compiled
  · have filled : segment ≠ "" := by simpa using empty
    simp only [empty, Bool.false_eq_true, if_false] at compiled
    refine ⟨filled, ?_⟩
    by_cases marker : segment = appendMarker
    · by_cases misplaced : place = 0 ∨ rest ≠ []
      · simp [marker, misplaced] at compiled
      · simp only [not_or, ne_eq, Decidable.not_not] at misplaced
        exact .inl ⟨marker, misplaced⟩
    · simp only [marker, if_false] at compiled
      refine .inr ⟨marker, ?_⟩
      by_cases position : isPosition segment = true
      · by_cases first : place = 0
        · simp [position, first] at compiled
        · simp only [position, if_true, first, if_false] at compiled
          split at compiled
          · simp at compiled
          · rename_i found after inner
            simp only [Prod.mk.injEq] at compiled
            exact ⟨fun _ => first, aliases, found, compiled.2 ▸ inner⟩
      · simp only [position, Bool.false_eq_true, if_false] at compiled
        split at compiled
        · simp at compiled
        · rename_i found after inner
          simp only [Prod.mk.injEq] at compiled
          exact ⟨fun named => absurd named position, _, found, compiled.2 ▸ inner⟩

theorem admitsRest_of_compileSegments {segments : List String} {number place : Nat}
    {aliases tables : Aliases} {path : PathExpression}
    (compiled : compileSegments number place segments aliases = (.ok path, tables)) :
    AdmitsRest segments := by
  induction segments generalizing place aliases path with
  | nil => trivial
  | cons segment rest ih =>
      obtain ⟨filled, atEnd | inside⟩ := compileSegments_cons_ok compiled
      · rw [atEnd.2.2]
        exact ⟨filled, fun _ => rfl, trivial⟩
      · obtain ⟨name, -, before, found, inner⟩ := inside
        exact ⟨filled, fun same => absurd same name, ih inner⟩

theorem AdmitsRest.filled {segments : List String} (admitted : AdmitsRest segments) :
    ∀ segment ∈ segments, segment ≠ "" := by
  induction segments with
  | nil => simp
  | cons segment rest ih =>
      intro other member
      rcases List.mem_cons.mp member with same | later
      · exact same ▸ admitted.1
      · exact ih admitted.2.2 other later

theorem AdmitsRest.dropLast {segments : List String} (admitted : AdmitsRest segments) :
    AdmitsRest segments.dropLast ∧ ∀ segment ∈ segments.dropLast, segment ≠ appendMarker := by
  induction segments with
  | nil => exact ⟨trivial, by simp⟩
  | cons segment rest ih =>
      obtain ⟨filled, last, restAdmitted⟩ := admitted
      obtain ⟨inner, plain⟩ := ih restAdmitted
      cases rest with
      | nil => exact ⟨trivial, by simp⟩
      | cons next others =>
          have name : segment ≠ appendMarker := fun marker => by simpa using last marker
          rw [List.dropLast_cons_of_ne_nil (by simp)]
          refine ⟨⟨filled, fun marker => absurd marker name, inner⟩, ?_⟩
          exact List.forall_mem_cons.mpr ⟨name, plain⟩

theorem endsInMarker_of_plain {first : String} {rest : List String}
    (name : first ≠ appendMarker) (plain : ∀ segment ∈ rest, segment ≠ appendMarker) :
    endsInMarker (first :: rest) = false := by
  simp only [endsInMarker, beq_eq_false_iff_ne]
  intro last
  have member := List.mem_of_getLast? last
  rcases List.mem_cons.mp member with same | later
  · exact name same.symm
  · exact plain _ later rfl

theorem Admits.dropMarker {segments : List String} (admitted : Admits segments) :
    Admits (dropMarker segments) ∧ endsInMarker (dropMarker segments) = false := by
  cases segments with
  | nil => exact admitted.elim
  | cons first rest =>
      by_cases marked : endsInMarker (first :: rest) = true
      · obtain ⟨filled, name, notPosition, restAdmitted⟩ := admitted
        have further : rest ≠ [] := by
          intro none
          simp [none, endsInMarker, name] at marked
        obtain ⟨inner, plain⟩ := restAdmitted.dropLast
        rw [KeyedStore.dropMarker, if_pos marked, List.dropLast_cons_of_ne_nil further]
        exact ⟨⟨filled, name, notPosition, inner⟩, endsInMarker_of_plain name plain⟩
      · rw [KeyedStore.dropMarker, if_neg marked]
        exact ⟨admitted, by simpa using marked⟩

theorem Admits.admitsRest {segments : List String} (admitted : Admits segments) :
    AdmitsRest segments := by
  cases segments with
  | nil => exact admitted.elim
  | cons first rest =>
      obtain ⟨filled, name, -, restAdmitted⟩ := admitted
      exact ⟨filled, fun marker => absurd marker name, restAdmitted⟩

theorem place_ne_zero_of_isPosition {place : Nat} {segment : String} {rest : List String}
    (begun : place ≠ 0 ∨ Admits (segment :: rest)) (position : isPosition segment = true) :
    place ≠ 0 := by
  refine begun.resolve_right fun admitted => ?_
  rw [admitted.2.2.1] at position
  exact absurd position (by decide)

theorem dropMarker_cons {segment : String} {rest : List String} (name : segment ≠ appendMarker) :
    dropMarker (segment :: rest) = segment :: dropMarker rest := by
  cases rest with
  | nil => simp [dropMarker, endsInMarker, name]
  | cons next others =>
      simp only [dropMarker, endsInMarker_cons name]
      split <;> simp

theorem dropMarker_cases (segments : List String) :
    dropMarker segments = segments ∨ segments = dropMarker segments ++ [appendMarker] := by
  by_cases marked : endsInMarker segments = true
  · obtain ⟨front, rfl⟩ := List.getLast?_eq_some_iff.mp (beq_iff_eq.mp marked)
    rw [dropMarker, if_pos marked, List.dropLast_concat]
    exact .inr rfl
  · exact .inl (if_neg marked)

theorem segmentSteps_dropMarker (number place : Nat) (segments : List String) :
    segmentSteps number place (dropMarker segments) = segmentSteps number place segments := by
  have behind (front : List String) : segmentSteps number place (front ++ [appendMarker]) =
      segmentSteps number place front := by
    fun_induction segmentSteps number place front <;> simp_all [segmentSteps]
  rcases dropMarker_cases segments with same | split
  · rw [same]
  · rw [← behind (dropMarker segments), ← split]

theorem segmentMints_dropMarker (number place : Nat) (segments : List String) :
    segmentMints number place (dropMarker segments) = segmentMints number place segments := by
  have behind (front : List String) : segmentMints number place (front ++ [appendMarker]) =
      segmentMints number place front := by
    fun_induction segmentMints number place front <;> simp_all [segmentMints]
  rcases dropMarker_cases segments with same | split
  · rw [same]
  · rw [← behind (dropMarker segments), ← split]

theorem compileSegments_of_admitsRest {segments : List String} (admitted : AdmitsRest segments)
    (number : Nat) {place : Nat} (begun : place ≠ 0 ∨ Admits segments) (aliases : Aliases) :
    compileSegments number place segments aliases =
      (.ok ⟨segmentSteps number place segments, endsInMarker segments⟩,
        aliases.bindAll (segmentMints number place segments)) := by
  refine Prod.ext ?_ (compileSegments_tables number place segments aliases)
  induction segments generalizing place aliases with
  | nil => rfl
  | cons segment rest ih =>
      obtain ⟨filled, last, restAdmitted⟩ := admitted
      have notEmpty : segment.isEmpty = false := by simpa using filled
      by_cases marker : segment = appendMarker
      · have later : place ≠ 0 := begun.resolve_right fun first => first.2.1 marker
        have ended : rest = [] := last marker
        subst ended marker
        simp [compileSegments, notEmpty, later, segmentSteps, endsInMarker]
      · have behind (tables : Aliases) :
            compileSegments number (place + 1) rest tables =
              (.ok ⟨segmentSteps number (place + 1) rest, endsInMarker rest⟩,
                (compileSegments number (place + 1) rest tables).2) :=
          Prod.ext (ih restAdmitted (.inl (Nat.succ_ne_zero place)) tables) rfl
        by_cases position : isPosition segment = true
        · have later := place_ne_zero_of_isPosition begun position
          simp only [compileSegments, notEmpty, marker, position, later, segmentSteps,
            endsInMarker_cons marker rest, Bool.false_eq_true, if_true, if_false]
          rw [behind]
        · simp only [compileSegments, notEmpty, marker, position, segmentSteps,
            endsInMarker_cons marker rest, Bool.false_eq_true, if_false]
          rw [behind]

theorem pathSegments_ne_nil (path : String) : pathSegments path ≠ [] := by
  simp [pathSegments, splitSlashes_ne_nil]

theorem stripSlash_ne_nil_of_admits {path : String} (admitted : Admits (pathSegments path)) :
    stripSlash path.toList ≠ [] := by
  intro empty
  simp [pathSegments, empty, splitSlashes, Admits] at admitted

theorem compilePath_tables (path : String) (number : Nat) (aliases : Aliases) :
    (compilePath path number aliases).2 = aliases.bindAll (pathMints number path) := by
  simp only [compilePath, pathMints]
  split
  · rename_i empty
    simp only [List.isEmpty_iff] at empty
    simp [pathSegments, empty, splitSlashes, segmentMints]
  · exact compileSegments_tables number 0 (pathSegments path) aliases

theorem compilePath_of_admits {path : String} (admitted : Admits (pathSegments path))
    (number : Nat) (aliases : Aliases) :
    compilePath path number aliases =
      (.ok ⟨segmentSteps number 0 (pathSegments path), endsInMarker (pathSegments path)⟩,
        aliases.bindAll (pathMints number path)) := by
  have text : (stripSlash path.toList).isEmpty = false := by
    simpa using stripSlash_ne_nil_of_admits admitted
  rw [compilePath, text, if_neg (by simp)]
  exact compileSegments_of_admitsRest admitted.admitsRest number (.inr admitted) aliases

theorem pathMints_ne_nil {path : String} (admitted : Admits (pathSegments path)) (number : Nat) :
    pathMints number path ≠ [] := by
  unfold pathMints
  cases segments : pathSegments path with
  | nil => exact absurd segments (pathSegments_ne_nil path)
  | cons first rest =>
      rw [segments] at admitted
      obtain ⟨-, name, notPosition, -⟩ := admitted
      simp [segmentMints_cons_of_name name notPosition]

theorem admits_of_compilePath {path : String} {number : Nat} {aliases tables : Aliases}
    {expression : PathExpression}
    (compiled : compilePath path number aliases = (.ok expression, tables)) :
    Admits (pathSegments path) := by
  simp only [compilePath] at compiled
  split at compiled
  · simp at compiled
  · cases segments : pathSegments path with
    | nil => exact absurd segments (pathSegments_ne_nil path)
    | cons first rest =>
        rw [segments] at compiled
        obtain ⟨filled, atEnd | inside⟩ := compileSegments_cons_ok compiled
        · exact absurd rfl atEnd.2.1
        · obtain ⟨name, position, before, found, inner⟩ := inside
          have notPosition : isPosition first = false := by
            simpa using position
          exact ⟨filled, name, notPosition, admitsRest_of_compileSegments inner⟩

theorem mapM_segmentSteps {Reading : Type} {read : Step → Option Reading}
    {ofSegment : String → Reading} {number place : Nat} {segments : List String}
    (admitted : AdmitsRest segments) (begun : place ≠ 0 ∨ Admits segments)
    (positions : ∀ segment ∈ segments, isPosition segment = true →
      read (.position segment) = some (ofSegment segment))
    (names : ∀ label segment, .name label segment ∈ segmentMints number place segments →
      isPosition segment = false → read (.name label) = some (ofSegment segment)) :
    (segmentSteps number place segments).mapM read =
      some ((dropMarker segments).map ofSegment) := by
  induction segments generalizing place with
  | nil => rfl
  | cons segment rest ih =>
      obtain ⟨filled, last, restAdmitted⟩ := admitted
      obtain ⟨own, restPositions⟩ := List.forall_mem_cons.mp positions
      by_cases marker : segment = appendMarker
      · simp [marker, last marker, segmentSteps, dropMarker, endsInMarker]
      · rw [dropMarker_cons marker]
        cases position : isPosition segment with
        | true =>
            have later := place_ne_zero_of_isPosition begun position
            have behind := ih restAdmitted (.inl (Nat.succ_ne_zero place)) restPositions
              fun label other member => names label other (by
                simpa [segmentMints, filled, marker, position, later] using member)
            simp [segmentSteps, marker, position, own position, behind]
        | false =>
            rw [segmentMints_cons_of_name marker position] at names
            have head := names _ segment List.mem_cons_self position
            have behind := ih restAdmitted (.inl (Nat.succ_ne_zero place)) restPositions
              fun label other member => names label other (List.mem_cons_of_mem _ member)
            simp [segmentSteps, marker, position, head, behind]

end KeyedStore
