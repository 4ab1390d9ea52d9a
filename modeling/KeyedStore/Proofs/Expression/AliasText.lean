import KeyedStore.Expression.Aliases

/-! The texts of aliases tell their numbers. An alias of a name starts with `#`, an alias
of a value with `:`, and behind `#` a letter or a digit tells which of the two schemes of
names it follows, so aliases of different schemes or numbers are different texts. -/

namespace KeyedStore

theorem naturalText_inj {left right : Nat} (same : naturalText left = naturalText right) :
    left = right := by
  have read := congrArg readNatural? same
  simpa [readNatural?_naturalText] using read

theorem takeWhile_isDigit_naturalText (number : Nat) {stop : Char} (letter : stop.isDigit = false)
    (rest : List Char) :
    (naturalText number ++ stop :: rest).takeWhile Char.isDigit = naturalText number := by
  rw [List.takeWhile_append_of_pos fun _ member => isDigit_of_mem_naturalText member]
  simp [letter]

namespace Aliases

theorem toList_nameAlias (number : Nat) :
    (nameAlias number).toList = '#' :: 'e' :: ("name".toList ++ naturalText number) := by
  simp [nameAlias, numberedText]

theorem toList_valueAlias (number : Nat) :
    (valueAlias number).toList = ':' :: ("val".toList ++ naturalText number) := by
  simp [valueAlias, numberedText]

theorem toList_segmentAlias (path place : Nat) :
    (segmentAlias path place).toList =
      '#' :: (naturalText path ++ 'e' :: ("name".toList ++ naturalText place)) := by
  simp [segmentAlias, numberedText]

theorem nameAlias_inj {left right : Nat} (same : nameAlias left = nameAlias right) :
    left = right := by
  have chars := congrArg String.toList same
  simp only [toList_nameAlias, List.cons.injEq, true_and, List.append_cancel_left_eq] at chars
  exact naturalText_inj chars

theorem valueAlias_inj {left right : Nat} (same : valueAlias left = valueAlias right) :
    left = right := by
  have chars := congrArg String.toList same
  simp only [toList_valueAlias, List.cons.injEq, true_and, List.append_cancel_left_eq] at chars
  exact naturalText_inj chars

theorem segmentAlias_inj {path other place otherPlace : Nat}
    (same : segmentAlias path place = segmentAlias other otherPlace) :
    path = other ∧ place = otherPlace := by
  have chars := congrArg String.toList same
  simp only [toList_segmentAlias, List.cons.injEq, true_and] at chars
  have numbers := congrArg (List.takeWhile Char.isDigit) chars
  rw [takeWhile_isDigit_naturalText path (by decide),
    takeWhile_isDigit_naturalText other (by decide)] at numbers
  rw [numbers] at chars
  simp only [List.append_cancel_left_eq, List.cons.injEq, true_and] at chars
  exact ⟨naturalText_inj numbers, naturalText_inj chars⟩

theorem nameAlias_ne_segmentAlias (number path place : Nat) :
    nameAlias number ≠ segmentAlias path place := by
  intro same
  have chars := congrArg String.toList same
  simp only [toList_nameAlias, toList_segmentAlias, List.cons.injEq, true_and] at chars
  cases digits : naturalText path with
  | nil => exact naturalText_ne_nil path digits
  | cons digit others =>
      have member : digit ∈ naturalText path := by simp [digits]
      have isDigit := isDigit_of_mem_naturalText member
      rw [digits, List.cons_append, List.cons.injEq] at chars
      rw [← chars.1] at isDigit
      exact absurd isDigit (by decide)

theorem nameAlias_ne_valueAlias (number other : Nat) : nameAlias number ≠ valueAlias other := by
  intro same
  have chars := congrArg String.toList same
  simp [toList_nameAlias, toList_valueAlias] at chars

theorem segmentAlias_ne_valueAlias (path place other : Nat) :
    segmentAlias path place ≠ valueAlias other := by
  intro same
  have chars := congrArg String.toList same
  simp [toList_segmentAlias, toList_valueAlias] at chars

end Aliases

end KeyedStore
