import KeyedStore.Proofs.Path.Segments
import KeyedStore.Transaction.Compensation

/-! The path that undoing an update restores. Cutting the last slash and append marker off
the text of an admitted path drops the marker from its segments and nothing else. -/

namespace KeyedStore

theorem splitSlashes_eq_splitOn (path : List Char) : splitSlashes path = path.splitOn '/' := by
  induction path with
  | nil => rfl
  | cons char rest ih =>
      rw [splitSlashes, ih, List.splitOn_cons_eq_if_modifyHead]
      by_cases slash : char = '/'
      · simp [slash]
      · simp only [slash, if_false, beq_iff_eq]
        cases split : rest.splitOn '/' with
        | nil => exact absurd split (List.splitOn_ne_nil '/' rest)
        | cons segment segments => rfl

theorem splitSlashes_append (left right : List Char) :
    splitSlashes (left ++ '/' :: right) = splitSlashes left ++ splitSlashes right := by
  simp only [splitSlashes_eq_splitOn]
  exact List.splitOn_append_cons_self left right

theorem intercalate_concat {separator : List Char} {segments : List (List Char)}
    (further : segments ≠ []) (last : List Char) :
    separator.intercalate (segments ++ [last]) =
      separator.intercalate segments ++ separator ++ last := by
  induction segments with
  | nil => exact absurd rfl further
  | cons segment rest ih =>
      cases rest with
      | nil => simp
      | cons next others =>
          have tail := ih (by simp)
          simp only [List.cons_append, List.intercalate_cons_cons, List.append_assoc] at tail ⊢
          rw [tail]

theorem stripSlash_append {text : List Char} (filled : text ≠ []) (more : List Char) :
    stripSlash (text ++ more) = stripSlash text ++ more := by
  cases text with
  | nil => exact absurd rfl filled
  | cons char rest =>
      by_cases slash : char = '/'
      · simp [slash, stripSlash]
      · have kept : ∀ others, stripSlash (char :: others) = char :: others := by
          intro others
          unfold stripSlash
          split
          · rename_i same
            exact absurd (List.cons.inj same).1 slash
          · rfl
        rw [List.cons_append, kept, kept, List.cons_append]

theorem suffix_stripSlash (path : List Char) : stripSlash path <:+ path := by
  unfold stripSlash
  split
  · exact List.suffix_cons _ _
  · exact List.suffix_refl _

theorem restoreTarget_of_suffix {path : String} {text : List Char}
    (ends : path.toList = text ++ ['/', '-']) : restoreTarget path = String.ofList text := by
  simp [restoreTarget, ends]

theorem restoreTarget_of_not_suffix {path : String}
    (other : ¬['/', '-'] <:+ path.toList) : restoreTarget path = path := by
  unfold restoreTarget
  split
  · rename_i rest reversed
    apply absurd _ other
    refine ⟨rest.reverse, ?_⟩
    have straight := congrArg List.reverse reversed
    simpa using straight.symm
  · rfl

theorem pathSegments_of_suffix {path : String} {text : List Char} (filled : text ≠ [])
    (ends : path.toList = text ++ ['/', '-']) :
    pathSegments path = pathSegments (String.ofList text) ++ [appendMarker] := by
  have marker : splitSlashes ['-'] = [['-']] := by decide
  simp only [pathSegments, ends, stripSlash_append filled, splitSlashes_append,
    String.toList_ofList, List.map_append, marker]
  rfl

theorem restoreTarget_append (path : String) :
    path = restoreTarget path ++ if ['/', '-'] <:+ path.toList then "/-" else "" := by
  split
  · rename_i ends
    obtain ⟨text, split⟩ := ends
    rw [restoreTarget_of_suffix split.symm, ← String.toList_inj]
    simp [← split]
  · rename_i other
    rw [restoreTarget_of_not_suffix other, String.append_empty]

theorem restoreTarget_of_unmarked {path : String}
    (unmarked : (pathSegments path).getLast? ≠ some appendMarker) : restoreTarget path = path := by
  apply restoreTarget_of_not_suffix
  rintro ⟨text, ends⟩
  apply unmarked
  by_cases filled : text = []
  · rw [filled] at ends
    simp [pathSegments, ← ends, stripSlash, splitSlashes, appendMarker]
  · simp [pathSegments_of_suffix filled ends.symm]

theorem suffix_of_endsInMarker {path : String} (admitted : Admits (pathSegments path))
    (marked : endsInMarker (pathSegments path) = true) : ['/', '-'] <:+ path.toList := by
  obtain ⟨front, last, split⟩ : ∃ front last,
      splitSlashes (stripSlash path.toList) = front ++ [last] :=
    ⟨_, _, (List.dropLast_concat_getLast (splitSlashes_ne_nil _)).symm⟩
  have segments : pathSegments path = front.map String.ofList ++ [String.ofList last] := by
    simp [pathSegments, split]
  have isMarker : last = ['-'] := by
    simp only [endsInMarker, segments, List.getLast?_concat, beq_iff_eq, Option.some.injEq]
      at marked
    have text := congrArg String.toList marked
    simpa [appendMarker] using text
  have further : front ≠ [] := by
    intro none
    rw [segments, none, isMarker] at admitted
    exact admitted.2.1 rfl
  have whole := intercalate_splitSlashes (stripSlash path.toList)
  rw [split, intercalate_concat further, isMarker] at whole
  have short : ['/', '-'] <:+ stripSlash path.toList := ⟨_, by simpa using whole⟩
  exact short.trans (suffix_stripSlash path.toList)

theorem exists_text_of_suffix {path : String} (admitted : Admits (pathSegments path))
    (ends : ['/', '-'] <:+ path.toList) : ∃ text, text ≠ [] ∧ path.toList = text ++ ['/', '-'] := by
  obtain ⟨text, split⟩ := ends
  refine ⟨text, ?_, split.symm⟩
  intro empty
  rw [empty] at split
  simp [pathSegments, ← split, stripSlash, splitSlashes, Admits, appendMarker] at admitted

theorem endsInMarker_iff_suffix {path : String} (admitted : Admits (pathSegments path)) :
    endsInMarker (pathSegments path) = true ↔ ['/', '-'] <:+ path.toList := by
  refine ⟨suffix_of_endsInMarker admitted, fun ends => ?_⟩
  obtain ⟨text, filled, split⟩ := exists_text_of_suffix admitted ends
  simp [pathSegments_of_suffix filled split, endsInMarker]

theorem pathSegments_restoreTarget {path : String} (admitted : Admits (pathSegments path)) :
    pathSegments (restoreTarget path) = dropMarker (pathSegments path) := by
  by_cases ends : ['/', '-'] <:+ path.toList
  · obtain ⟨text, filled, split⟩ := exists_text_of_suffix admitted ends
    rw [restoreTarget_of_suffix split, pathSegments_of_suffix filled split]
    simp [dropMarker, endsInMarker]
  · have unmarked : endsInMarker (pathSegments path) = false := by
      apply Bool.eq_false_iff.mpr
      exact fun marked => ends (suffix_of_endsInMarker admitted marked)
    rw [restoreTarget_of_not_suffix ends, dropMarker, unmarked]
    rfl

theorem compilePath_restoreTarget {path : String} (admitted : Admits (pathSegments path))
    (number : Nat) (aliases : Aliases) :
    compilePath (restoreTarget path) number aliases =
      (.ok ⟨segmentSteps number 0 (pathSegments path), false⟩,
        aliases.bindAll (pathMints number path)) := by
  obtain ⟨targetAdmitted, unmarked⟩ := admitted.dropMarker
  rw [← pathSegments_restoreTarget admitted] at targetAdmitted unmarked
  rw [compilePath_of_admits targetAdmitted, unmarked, pathMints,
    pathSegments_restoreTarget admitted, segmentSteps_dropMarker, segmentMints_dropMarker, pathMints]

end KeyedStore
