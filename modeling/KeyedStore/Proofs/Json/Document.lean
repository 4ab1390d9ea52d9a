import KeyedStore.Json.Document
import Mathlib.Tactic.SplitIfs

/-! Texts that must hold one object. Such a text is accepted exactly if it is read as a tree and
the tree is an object. -/

namespace KeyedStore

namespace Cursor

def NoObject (outcome : Except SyntaxFault (Json × Cursor)) : Prop :=
  ∀ members after, outcome ≠ .ok (.object members, after)

theorem noObject_error (fault : SyntaxFault) : NoObject (.error fault) := by
  intro members after
  simp

theorem noObject_finishFloat (negative : Bool) (digits : Nat) (exponent : Int) (cursor : Cursor) :
    NoObject (cursor.finishFloat negative digits exponent) := by
  intro members after
  unfold finishFloat
  split <;> simp

theorem noObject_finishInteger (negative : Bool) (digits dropped : Nat) (cursor : Cursor) :
    NoObject (cursor.finishInteger negative digits dropped) := by
  unfold finishInteger
  split_ifs
  · intro members after
    simp
  · intro members after
    simp
  · exact noObject_finishFloat _ _ _ _

theorem noObject_readExponent (negative : Bool) (digits : Nat) (exponent : Int)
    (cursor : Cursor) : NoObject (cursor.readExponent negative digits exponent) := by
  simp only [readExponent]
  split_ifs
  · exact noObject_error _
  · exact noObject_error _
  · exact noObject_finishFloat _ _ _ _
  · exact noObject_finishFloat _ _ _ _
  · exact noObject_error _
  · intro members after
    simp

theorem noObject_readAfterFraction (negative : Bool) (digits : Nat) (exponent : Int)
    (cursor : Cursor) : NoObject (cursor.readAfterFraction negative digits exponent) := by
  unfold readAfterFraction
  split
  · split_ifs
    · exact noObject_readExponent _ _ _ _
    · exact noObject_finishFloat _ _ _ _
  · exact noObject_finishFloat _ _ _ _

theorem noObject_readFraction (negative : Bool) (digits : Nat) (exponent : Int)
    (cursor : Cursor) : NoObject (cursor.readFraction negative digits exponent) := by
  simp only [readFraction]
  split_ifs
  · exact noObject_error _
  · exact noObject_error _
  · exact noObject_readAfterFraction _ _ _ _

theorem noObject_readNumber (negative : Bool) (cursor : Cursor) :
    NoObject (cursor.readNumber negative) := by
  simp only [readNumber]
  split
  · split_ifs
    · exact noObject_error _
    · exact noObject_error _
  · exact noObject_error _
  · split
    · split_ifs
      · exact noObject_readFraction _ _ _ _
      · exact noObject_readExponent _ _ _ _
      · exact noObject_finishInteger _ _ _ _
    · exact noObject_finishInteger _ _ _ _

theorem noObject_bind {α : Type} (first : Except SyntaxFault α) {build : α → Json × Cursor}
    (other : ∀ value members, (build value).1 ≠ .object members) :
    NoObject (first >>= fun value => pure (build value)) := by
  intro members after same
  cases first with
  | error fault => simp [bind, Except.bind] at same
  | ok value =>
      simp only [bind, Except.bind, pure, Except.pure, Except.ok.injEq] at same
      exact other value members (congrArg Prod.fst same)

theorem noObject_readScalar (cursor : Cursor) : NoObject cursor.readScalar := by
  unfold readScalar
  split
  · exact noObject_error _
  · simp only
    split_ifs
    · exact noObject_bind _ (by simp)
    · exact noObject_bind _ (by simp)
    · exact noObject_bind _ (by simp)
    · exact noObject_bind _ (by simp)
    · exact noObject_readNumber _ _
    · exact noObject_readNumber _ _
    · exact noObject_error _

theorem exists_brace_of_readTree {depth : Nat} {cursor after : Cursor}
    {members : List (String × Json)}
    (read : readTree depth cursor = .ok (.object members, after)) :
    ∃ rest, cursor.skipBlanks.rest = '\x7b' :: rest := by
  rw [readTree.eq_def] at read
  simp only at read
  split at read
  · simp at read
  · simp at read
  · exact absurd read (noObject_bind _ (by simp) _ _)
  · exact ⟨_, ‹_›⟩
  · exact absurd read (noObject_readScalar _ _ _)

end Cursor

namespace Json

theorem exists_brace_of_read {text : List Char} {members : List (String × Json)}
    (parsed : read text = .ok (.object members)) :
    ∃ rest, (Cursor.start text).skipBlanks.rest = '\x7b' :: rest := by
  simp only [read, readWithin, bind, Except.bind] at parsed
  split at parsed
  · simp at parsed
  · rename_i taken tree
    obtain ⟨json, cursor⟩ := taken
    split at parsed
    · simp at parsed
    · simp only [pure, Except.pure, Except.ok.injEq] at parsed
      exact Cursor.exists_brace_of_readTree (parsed ▸ tree)

theorem readObject_eq_ok_iff {text : List Char} {members : Fields Json} :
    readObject text = .ok members ↔ read text = .ok (.object members) := by
  constructor
  · intro held
    simp only [readObject] at held
    split at held
    · simp at held
    · split at held
      · rename_i found parsed
        rw [parsed, Except.ok.inj held]
      · simp at held
      · simp at held
    · split at held <;> simp at held
  · intro parsed
    obtain ⟨rest, brace⟩ := exists_brace_of_read parsed
    simp only [readObject, brace, parsed]

end Json

end KeyedStore
