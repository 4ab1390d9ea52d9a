/-! Slash-delimited paths as lists of segments. A path has one segment more than it
has slashes, and segments may be empty. -/

namespace KeyedStore

def splitSlashes : List Char → List (List Char)
  | [] => [[]]
  | char :: rest =>
      if char = '/' then [] :: splitSlashes rest
      else
        match splitSlashes rest with
        | [] => [[char]]
        | segment :: segments => (char :: segment) :: segments

def stripSlash : List Char → List Char
  | '/' :: rest => rest
  | path => path

def pathSegments (path : String) : List String :=
  (splitSlashes (stripSlash path.toList)).map String.ofList

theorem splitSlashes_ne_nil (path : List Char) : splitSlashes path ≠ [] := by
  cases path with
  | nil => simp [splitSlashes]
  | cons char rest =>
      simp only [splitSlashes]
      split
      · simp
      · split <;> simp

theorem intercalate_splitSlashes (path : List Char) :
    List.intercalate ['/'] (splitSlashes path) = path := by
  induction path with
  | nil => simp [splitSlashes, List.intercalate]
  | cons char rest ih =>
      simp only [splitSlashes]
      cases split : splitSlashes rest with
      | nil => exact absurd split (splitSlashes_ne_nil rest)
      | cons segment segments =>
          rw [split] at ih
          by_cases slash : char = '/'
          · simp only [slash, if_true]
            rw [← ih]
            simp [List.intercalate]
          · simp only [slash, if_false]
            rw [← ih]
            cases segments <;> simp [List.intercalate]

theorem not_mem_of_mem_splitSlashes {path segment : List Char}
    (member : segment ∈ splitSlashes path) : '/' ∉ segment := by
  induction path generalizing segment with
  | nil => simp_all [splitSlashes]
  | cons char rest ih =>
      simp only [splitSlashes] at member
      by_cases slash : char = '/'
      · simp only [slash, if_true, List.mem_cons] at member
        rcases member with first | later
        · simp [first]
        · exact ih later
      · simp only [slash, if_false] at member
        cases split : splitSlashes rest with
        | nil => exact absurd split (splitSlashes_ne_nil rest)
        | cons first segments =>
            simp only [split, List.mem_cons] at member
            rcases member with same | later
            · subst same
              have clear : '/' ∉ first := ih (by simp [split])
              simp only [List.mem_cons, not_or]
              exact ⟨fun same => slash same.symm, clear⟩
            · exact ih (by simp [split, later])

end KeyedStore
