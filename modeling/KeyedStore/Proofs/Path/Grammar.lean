import KeyedStore.Proofs.Expression.ReadBack
import KeyedStore.Proofs.Path.RestoreTarget

/-! The grammar of paths. A path has an expression exactly if it spells segments that follow
the grammar; the text of the expression reads back as these segments, and no alias but its own
is touched. A path that does not follow the grammar stops at the first segment that offends,
and the aliases of the segments before that one are all that is touched. -/

namespace KeyedStore

/-- The segments with slashes between them are the path, or all of it behind a first slash. -/
def Spells (segments : List String) (path : String) : Prop :=
  (path = String.intercalate "/" segments ∨ path = "/" ++ String.intercalate "/" segments) ∧
    ∀ segment ∈ segments, '/' ∉ segment.toList

structure PathGrammar (segments : List String) : Prop where
  begun : ∃ first ∈ segments.head?, first ≠ appendMarker ∧ isPosition first = false
  filled : ∀ segment ∈ segments, segment ≠ ""
  marker : ∀ segment ∈ segments.dropLast, segment ≠ appendMarker

def OffendsAt (segments : List String) (place : Nat) : Prop :=
  ∃ segment, segments[place]? = some segment ∧
    (segment = "" ∨ segment = appendMarker ∧ (place = 0 ∨ place + 1 ≠ segments.length) ∨
      isPosition segment = true ∧ place = 0)

theorem spells_pathSegments (path : String) : Spells (pathSegments path) path := by
  constructor
  · have joined : (String.intercalate "/" (pathSegments path)).toList =
        stripSlash path.toList := by
      simp [pathSegments, intercalate_splitSlashes, Function.comp_def]
    rw [← String.toList_inj, ← String.toList_inj, String.toList_append, joined]
    unfold stripSlash
    split
    · rename_i rest text
      exact .inr text
    · exact .inl rfl
  · intro segment member
    obtain ⟨chars, split, rfl⟩ := List.mem_map.mp member
    simpa using not_mem_of_mem_splitSlashes split

theorem splitSlashes_intercalate {segments : List String} (present : segments ≠ [])
    (clear : ∀ segment ∈ segments, '/' ∉ segment.toList) :
    splitSlashes (String.intercalate "/" segments).toList = segments.map String.toList := by
  rw [splitSlashes_eq_splitOn, String.toList_intercalate]
  apply List.splitOn_intercalate
  · simpa using clear
  · simpa using present

theorem pathSegments_of_spells {segments : List String} {path : String}
    (spells : Spells segments path) (present : segments ≠ [])
    (filled : ∀ segment ∈ segments, segment ≠ "") : pathSegments path = segments := by
  obtain ⟨text, clear⟩ := spells
  have split := splitSlashes_intercalate present clear
  have stripped : stripSlash path.toList = (String.intercalate "/" segments).toList := by
    rcases text with bare | behind
    · -- the first segment does not begin with a slash, so there is none to strip
      rw [bare]
      unfold stripSlash
      split
      · rename_i rest begins
        rw [begins, splitSlashes, if_pos rfl] at split
        cases segments with
        | nil => exact absurd rfl present
        | cons first others =>
            have empty : first.toList = [] := (List.cons.inj split).1.symm
            exact absurd (by simpa using empty) (filled first List.mem_cons_self)
      · rfl
    · rw [behind, String.toList_append]
      rfl
  rw [pathSegments, stripped, split, List.map_map]
  simp [Function.comp_def]

theorem admitsRest_iff {segments : List String} :
    AdmitsRest segments ↔
      (∀ segment ∈ segments, segment ≠ "") ∧
        ∀ segment ∈ segments.dropLast, segment ≠ appendMarker := by
  refine ⟨fun admitted => ⟨admitted.filled, admitted.dropLast.2⟩, ?_⟩
  rintro ⟨filled, marker⟩
  induction segments with
  | nil => trivial
  | cons segment rest ih =>
      obtain ⟨own, others⟩ := List.forall_mem_cons.mp filled
      cases rest with
      | nil => exact ⟨own, fun _ => rfl, trivial⟩
      | cons next more =>
          rw [List.dropLast_cons_of_ne_nil (List.cons_ne_nil next more)] at marker
          obtain ⟨name, behind⟩ := List.forall_mem_cons.mp marker
          exact ⟨own, fun same => absurd same name, ih others behind⟩

theorem pathGrammar_iff {segments : List String} : PathGrammar segments ↔ Admits segments := by
  constructor
  · rintro ⟨⟨first, begins, name, notPosition⟩, filled, marker⟩
    cases segments with
    | nil => simp at begins
    | cons head rest =>
        have same : head = first := by simpa using begins
        subst same
        exact ⟨filled head List.mem_cons_self, name, notPosition,
          (admitsRest_iff.mpr ⟨filled, marker⟩).2.2⟩
  · intro admitted
    obtain ⟨filled, marker⟩ := admitsRest_iff.mp admitted.admitsRest
    cases segments with
    | nil => exact admitted.elim
    | cons first rest => exact ⟨⟨first, rfl, admitted.2.1, admitted.2.2.1⟩, filled, marker⟩

theorem exists_spelled_iff (path : String) :
    (∃ segments, Spells segments path ∧ PathGrammar segments) ↔ Admits (pathSegments path) := by
  constructor
  · rintro ⟨segments, spells, grammar⟩
    have present : segments ≠ [] := by
      obtain ⟨first, begins, -⟩ := grammar.begun
      exact fun none => by simp [none] at begins
    rw [pathSegments_of_spells spells present grammar.filled]
    exact pathGrammar_iff.mp grammar
  · intro admitted
    exact ⟨_, spells_pathSegments path, pathGrammar_iff.mpr admitted⟩

theorem exists_offendsAt {segments : List String} (present : segments ≠ [])
    (refused : ¬Admits segments) : ∃ place, OffendsAt segments place := by
  by_contra harmless
  apply refused
  have passes : ∀ place segment, segments[place]? = some segment →
      segment ≠ "" ∧ (segment = appendMarker → place ≠ 0 ∧ place + 1 = segments.length) ∧
        (isPosition segment = true → place ≠ 0) := by
    intro place segment held
    have clear : ¬OffendsAt segments place := fun offends => harmless ⟨place, offends⟩
    simp only [OffendsAt, not_exists, not_and, not_or, ne_eq, Decidable.not_not] at clear
    exact clear segment held
  refine pathGrammar_iff.mp ⟨?_, ?_, ?_⟩
  · obtain ⟨first, rest, rfl⟩ := List.exists_cons_of_ne_nil present
    obtain ⟨-, name, position⟩ := passes 0 first rfl
    exact ⟨first, rfl, fun marker => (name marker).1 rfl, by simpa using position⟩
  · intro segment member
    obtain ⟨place, held⟩ := List.getElem?_of_mem member
    exact (passes place segment held).1
  · intro segment member marker
    obtain ⟨place, held⟩ := List.getElem?_of_mem member
    rw [List.getElem?_dropLast] at held
    split at held
    · rename_i early
      have last := ((passes place segment held).2.1 marker).2
      omega
    · simp at held

theorem exists_first_offendsAt {segments : List String} (present : segments ≠ [])
    (refused : ¬Admits segments) :
    ∃ place, OffendsAt segments place ∧ ∀ earlier < place, ¬OffendsAt segments earlier := by
  classical
  have offending := exists_offendsAt present refused
  exact ⟨Nat.find offending, Nat.find_spec offending, fun _ before => Nat.find_min offending before⟩

theorem label_before_refused {number place offset : Nat} {segments : List String}
    {refused : String} (held : segments[offset]? = some refused)
    (fault : refused = "" ∨ refused = appendMarker ∨
      isPosition refused = true ∧ place + offset = 0) {mint : Mint}
    (member : mint ∈ segmentMints number place segments) :
    ∃ earlier < place + offset, mint.label = Aliases.segmentAlias number earlier := by
  fun_induction segmentMints number place segments generalizing offset with
  | case1 => simp at member
  | case2 => simp at member
  | case3 => simp at member
  | case4 place segment rest plain position notFirst ih =>
      cases offset with
      | zero =>
          have own : segment = refused := by simpa using held
          rw [own] at plain
          rcases fault with empty | marker | ⟨-, first⟩
          · simp [empty] at plain
          · simp [marker] at plain
          · omega
      | succ offset =>
          obtain ⟨earlier, before, same⟩ := ih (by simpa using held) (by grind) member
          exact ⟨earlier, by omega, same⟩
  | case5 place segment rest plain notPosition ih =>
      cases offset with
      | zero =>
          have own : segment = refused := by simpa using held
          rw [own] at plain notPosition
          rcases fault with empty | marker | ⟨position, -⟩
          · simp [empty] at plain
          · simp [marker] at plain
          · exact absurd position notPosition
      | succ offset =>
          rcases List.mem_cons.mp member with own | inRest
          · exact ⟨place, by omega, by rw [own, Mint.label]⟩
          · obtain ⟨earlier, before, same⟩ := ih (by simpa using held) (by grind) inRest
            exact ⟨earlier, by omega, same⟩

theorem place_lt_of_offendsAt {number place : Nat} {segments : List String}
    (offends : OffendsAt segments place) {mint : Mint}
    (member : mint ∈ segmentMints number 0 segments) :
    ∃ earlier < place, mint.label = Aliases.segmentAlias number earlier := by
  obtain ⟨segment, held, fault⟩ := offends
  have refused : segment = "" ∨ segment = appendMarker ∨
      isPosition segment = true ∧ 0 + place = 0 := by
    rw [Nat.zero_add]
    exact fault.imp_right (Or.imp_left And.left)
  simpa using label_before_refused held refused member

theorem values_bindAll_segmentMints (number place : Nat) (segments : List String)
    (aliases : Aliases) :
    (aliases.bindAll (segmentMints number place segments)).values = aliases.values := by
  fun_induction segmentMints number place segments generalizing aliases with
  | case1 => rfl
  | case2 => rfl
  | case3 => rfl
  | case4 place segment rest plain position later ih => exact ih aliases
  | case5 place segment rest plain notPosition ih =>
      exact ih (aliases.bindName (Aliases.segmentAlias number place) segment)

theorem label_of_getElem?_segmentSteps {segments : List String} (admitted : AdmitsRest segments)
    {number place index : Nat} {label : String}
    (held : (segmentSteps number place segments)[index]? = some (.name label)) :
    label = Aliases.segmentAlias number (place + index) := by
  induction segments generalizing place index with
  | nil => simp [segmentSteps] at held
  | cons segment rest ih =>
      obtain ⟨-, last, restAdmitted⟩ := admitted
      have next {further : Nat}
          (behind : (segmentSteps number (place + 1) rest)[further]? = some (.name label)) :
          label = Aliases.segmentAlias number (place + (further + 1)) := by
        rw [ih restAdmitted behind, Nat.add_assoc, Nat.add_comm 1]
      by_cases marker : segment = appendMarker
      · simp [last marker, segmentSteps, marker] at held
      · by_cases position : isPosition segment = true
        · rw [segmentSteps, if_neg marker, if_pos position] at held
          cases index with
          | zero => simp at held
          | succ further => exact next (by simpa using held)
        · rw [segmentSteps, if_neg marker, if_neg position] at held
          cases index with
          | zero => simpa [eq_comm] using held
          | succ further => exact next (by simpa using held)

theorem get?_names_of_compilePath {path : String} {number : Nat} {aliases tables : Aliases}
    {expression : PathExpression}
    (compiled : compilePath path number aliases = (.ok expression, tables)) {label : String}
    (absent : .name label ∉ expression.steps) :
    tables.names.get? label = aliases.names.get? label := by
  have admitted := admits_of_compilePath compiled
  have written : tables = aliases.bindAll (pathMints number path) := by
    rw [← compilePath_tables, compiled]
  rw [compilePath_of_admits admitted] at compiled
  simp only [Prod.mk.injEq, Except.ok.injEq] at compiled
  rw [written]
  apply And.left
  apply Aliases.get?_bindAll_of_notMem
  rw [pathMints, ← labels_segmentSteps admitted.admitsRest number (.inr admitted)]
  intro member
  obtain ⟨step, inSteps, same⟩ := List.mem_filterMap.mp member
  rw [← compiled.1] at absent
  cases step with
  | name other =>
      simp only [Step.label?, Option.some.injEq] at same
      exact absent (same ▸ inSteps)
  | position digits => simp [Step.label?] at same

/-- A path has an expression exactly if it spells segments that follow the grammar. The text of
the expression reads back as these segments, each name under the alias of its place, and the
tables change at these aliases only. Else the tables change at most at aliases of segments before
the first one that offends. -/
theorem compilePath_follows_grammar (path : String) (number : Nat) (aliases : Aliases) :
    ((∃ expression tables, compilePath path number aliases = (.ok expression, tables)) ↔
        ∃ segments, Spells segments path ∧ PathGrammar segments) ∧
      match compilePath path number aliases with
      | (.ok expression, tables) =>
          ∃ segments steps, Spells segments path ∧ PathGrammar segments ∧
            (expression.append = true ↔ segments.getLast? = some appendMarker) ∧
            UpdateReader.target? (Step.text expression.steps).toList = some steps ∧
            tables.resolvePath? steps = some ((dropMarker segments).map segmentStep) ∧
            (∀ place label, steps[place]? = some (.name label) →
              label = Aliases.segmentAlias number place) ∧
            tables.values = aliases.values ∧
            ∀ label, .name label ∉ steps → tables.names.get? label = aliases.names.get? label
      | (.error _, tables) =>
          ∃ place, OffendsAt (pathSegments path) place ∧
            (∀ earlier < place, ¬OffendsAt (pathSegments path) earlier) ∧
            tables.values = aliases.values ∧
            ∀ label, (∀ earlier < place, label ≠ Aliases.segmentAlias number earlier) →
              tables.names.get? label = aliases.names.get? label := by
  have written := compilePath_tables path number aliases
  have values := values_bindAll_segmentMints number 0 (pathSegments path) aliases
  refine ⟨?_, ?_⟩
  · rw [exists_spelled_iff]
    constructor
    · rintro ⟨expression, tables, compiled⟩
      exact admits_of_compilePath compiled
    · intro admitted
      exact ⟨_, _, compilePath_of_admits admitted number aliases⟩
  · cases compiled : compilePath path number aliases with
    | mk outcome tables =>
        rw [compiled] at written
        subst written
        cases outcome with
        | ok expression =>
            have admitted := admits_of_compilePath compiled
            have held := holds_pathMints number path aliases
            have steps : expression =
                ⟨segmentSteps number 0 (pathSegments path), endsInMarker (pathSegments path)⟩ := by
              rw [compilePath_of_admits admitted] at compiled
              simp only [Prod.mk.injEq, Except.ok.injEq] at compiled
              exact compiled.1.symm
            refine ⟨pathSegments path, expression.steps, spells_pathSegments path,
              pathGrammar_iff.mpr admitted, ?_, ?_, ?_, ?_, values, ?_⟩
            · simp [steps, endsInMarker]
            · rw [steps]
              exact UpdateReader.target?_text (readable_segmentSteps admitted number)
            · rw [steps]
              exact resolvePath?_segmentSteps admitted.admitsRest number (.inr admitted) held
            · intro place label found
              rw [steps] at found
              simpa using label_of_getElem?_segmentSteps admitted.admitsRest found
            · exact fun label absent => get?_names_of_compilePath compiled absent
        | error fault =>
            have refused : ¬Admits (pathSegments path) := by
              intro admitted
              simp [compilePath_of_admits admitted] at compiled
            obtain ⟨place, offends, first⟩ :=
              exists_first_offendsAt (pathSegments_ne_nil path) refused
            refine ⟨place, offends, first, values, ?_⟩
            intro label other
            apply And.left
            apply Aliases.get?_bindAll_of_notMem
            intro member
            obtain ⟨mint, bound, same⟩ := List.mem_map.mp member
            obtain ⟨earlier, before, own⟩ := place_lt_of_offendsAt offends bound
            exact other earlier before (same.symm.trans own)

end KeyedStore
