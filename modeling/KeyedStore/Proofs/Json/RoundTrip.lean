import KeyedStore.Json.Document
import KeyedStore.Json.Writer
import KeyedStore.Proofs.Fields
import Mathlib.Tactic.SplitIfs

/-! Compact JSON text reads back. Strings are unescaped, and trees without numbers whose members
ascend by name are read as they were, if the reader allows for their nesting. -/

namespace KeyedStore

namespace Cursor

variable {α : Type}

/-- The reader takes the text for the value, whatever stands behind it. -/
def Takes (reader : Cursor → Except SyntaxFault (α × Cursor)) (text : List Char) (value : α) :
    Prop :=
  ∀ rest offset, ∃ after, reader ⟨text ++ rest, offset⟩ = .ok (value, ⟨rest, after⟩)

theorem skipBlanks_cons {char : Char} (visible : isTokenBlank char = false) (rest : List Char)
    (offset : Nat) : skipBlanks ⟨char :: rest, offset⟩ = ⟨char :: rest, offset⟩ := by
  simp [skipBlanks, visible]

end Cursor

theorem hexNumber?_control {code : Nat} (control : code < 0x20) :
    hexNumber? ['0', '0', hexDigit (code / 16), hexDigit code] = some code := by
  revert code
  decide

theorem utf8Size_hexDigit (value : Nat) : (hexDigit value).utf8Size = 1 := by
  have digit : ∀ value < 16, (Nat.digitChar value).utf8Size = 1 := by decide
  exact digit _ (Nat.mod_lt _ (by decide))

namespace Cursor

theorem readCodeUnit_control {code : Nat} (control : code < 0x20) (rest : List Char)
    (offset : Nat) :
    readCodeUnit ⟨'0' :: '0' :: hexDigit (code / 16) :: hexDigit code :: rest, offset⟩ =
      .ok (code, ⟨rest, offset + 4⟩) := by
  have four : bytesAhead ⟨'0' :: '0' :: hexDigit (code / 16) :: hexDigit code :: rest, offset⟩ =
      4 := by
    have zero : ('0' : Char).utf8Size = 1 := by decide
    simp [bytesAhead, utf8Size_hexDigit, zero]
  simp [readCodeUnit, four, hexNumber?_control control]

theorem readCharacters_letter {letter char : Char} (escape : letterEscape? letter = some char)
    (notUnit : letter ≠ 'u') (fuel : Nat) (rest : List Char) (offset : Nat) :
    readCharacters (fuel + 1) ⟨'\\' :: letter :: rest, offset⟩ =
      (readCharacters fuel ⟨rest, offset + 2⟩).map fun (chars, cursor) =>
        (char :: chars, cursor) := by
  simp only [readCharacters, readEscape, escape, bind, Except.bind, pure, Except.pure]
  cases readCharacters fuel ⟨rest, offset + 2⟩ <;> rfl

theorem readCharacters_control {char : Char} (control : char.toNat < 0x20) (fuel : Nat)
    (rest : List Char) (offset : Nat) :
    readCharacters (fuel + 1)
        ⟨'\\' :: 'u' :: '0' :: '0' :: hexDigit (char.toNat / 16) :: hexDigit char.toNat :: rest,
          offset⟩ =
      (readCharacters fuel ⟨rest, offset + 6⟩).map fun (chars, cursor) =>
        (char :: chars, cursor) := by
  have low : ¬(0xDC00 ≤ char.toNat ∧ char.toNat ≤ 0xDFFF) := by omega
  have scalar : char.toNat < 0xD800 ∨ 0xDBFF < char.toNat := by omega
  simp only [readCharacters, readEscape, readUnicodeEscape, readCodeUnit_control control, bind,
    Except.bind, pure, Except.pure, low, scalar, if_false, if_true, Char.ofNat_toNat]
  cases readCharacters fuel ⟨rest, offset + 6⟩ <;> rfl

theorem readCharacters_plain {char : Char} (notQuote : char ≠ '"') (notEscape : char ≠ '\\')
    (visible : ¬char.toNat < 0x20) (fuel : Nat) (rest : List Char) (offset : Nat) :
    readCharacters (fuel + 1) ⟨char :: rest, offset⟩ =
      (readCharacters fuel ⟨rest, offset + char.utf8Size⟩).map fun (chars, cursor) =>
        (char :: chars, cursor) := by
  rw [readCharacters]
  simp only [visible, if_false, bind, Except.bind, pure, Except.pure]
  cases readCharacters fuel ⟨rest, offset + char.utf8Size⟩ <;> rfl

theorem readCharacters_escapeChar (fuel : Nat) (char : Char) (rest : List Char) (offset : Nat) :
    ∃ after, readCharacters (fuel + 1) ⟨escapeChar char ++ rest, offset⟩ =
      (readCharacters fuel ⟨rest, after⟩).map fun (chars, cursor) => (char :: chars, cursor) := by
  unfold escapeChar
  split_ifs with quote backslash backspace tab newline formFeed carriageReturn control
  iterate 7
    exact ⟨offset + 2,
      readCharacters_letter (by subst_vars; rfl) (by decide) fuel rest offset⟩
  · exact ⟨offset + 6, readCharacters_control control fuel rest offset⟩
  · exact ⟨offset + char.utf8Size, readCharacters_plain quote backslash control fuel rest offset⟩

theorem readCharacters_escaped (chars : List Char) {fuel : Nat} (enough : chars.length < fuel)
    (rest : List Char) (offset : Nat) :
    ∃ after, readCharacters fuel ⟨chars.flatMap escapeChar ++ '"' :: rest, offset⟩ =
      .ok (chars, ⟨rest, after⟩) := by
  induction chars generalizing fuel offset with
  | nil =>
      obtain ⟨more, rfl⟩ := Nat.exists_eq_succ_of_ne_zero (by omega : fuel ≠ 0)
      exact ⟨_, rfl⟩
  | cons char chars ih =>
      obtain ⟨more, rfl⟩ := Nat.exists_eq_succ_of_ne_zero (by omega : fuel ≠ 0)
      obtain ⟨middle, first⟩ :=
        readCharacters_escapeChar more char (chars.flatMap escapeChar ++ '"' :: rest) offset
      obtain ⟨after, others⟩ := ih (by simpa using enough) middle
      refine ⟨after, ?_⟩
      rw [List.flatMap_cons, List.append_assoc, first, others]
      rfl

theorem length_le_flatMap_escapeChar (chars : List Char) :
    chars.length ≤ (chars.flatMap escapeChar).length := by
  induction chars with
  | nil => exact Nat.le_refl _
  | cons char chars ih =>
      have filled : 0 < (escapeChar char).length := by
        unfold escapeChar
        split_ifs <;> simp
      rw [List.flatMap_cons, List.length_append, List.length_cons]
      omega

theorem takes_readString (text : String) :
    Takes readString (text.toList.flatMap escapeChar ++ ['"']) text := by
  intro rest offset
  have enough : text.toList.length <
      (text.toList.flatMap escapeChar ++ ['"'] ++ rest).length := by
    have fewer := length_le_flatMap_escapeChar text.toList
    simp only [List.length_append, List.length_singleton]
    omega
  rw [List.append_assoc, List.singleton_append] at enough ⊢
  obtain ⟨after, read⟩ := readCharacters_escaped text.toList enough rest offset
  refine ⟨after, ?_⟩
  simp only [readString, read, bind, Except.bind, pure, Except.pure, String.ofList_toList]

end Cursor

theorem joinCommas_singleton (piece : List Char) : joinCommas [piece] = piece := by
  simp [joinCommas, List.intercalate]

theorem joinCommas_cons_cons (piece next : List Char) (pieces : List (List Char)) :
    joinCommas (piece :: next :: pieces) = piece ++ ',' :: joinCommas (next :: pieces) := by
  simp [joinCommas, List.intercalate]

theorem exists_joinCommas (piece : List Char) (pieces : List (List Char)) :
    ∃ tail, joinCommas (piece :: pieces) = piece ++ tail := by
  cases pieces with
  | nil => exact ⟨[], by rw [joinCommas_singleton, List.append_nil]⟩
  | cons next pieces => exact ⟨_, joinCommas_cons_cons piece next pieces⟩

theorem length_le_joinCommas {pieces : List (List Char)} (filled : ∀ piece ∈ pieces, piece ≠ []) :
    pieces.length ≤ (joinCommas pieces).length := by
  induction pieces with
  | nil => exact Nat.zero_le _
  | cons piece others ih =>
      obtain ⟨first, rest⟩ := List.forall_mem_cons.mp filled
      have positive := List.length_pos_iff.mpr first
      cases others with
      | nil => rwa [joinCommas_singleton]
      | cons next others =>
          have fewer := ih rest
          simp only [joinCommas_cons_cons, List.length_append, List.length_cons] at fewer ⊢
          omega

namespace Json

theorem writeElements_eq_map (elements : List Json) :
    writeElements elements = elements.map write := by
  induction elements with
  | nil => rfl
  | cons element rest ih => rw [writeElements, ih, List.map_cons]

theorem writeMembers_eq_map (members : List (String × Json)) :
    writeMembers members =
      members.map fun member => quoteString member.1 ++ ':' :: member.2.write := by
  induction members with
  | nil => rfl
  | cons member rest ih => rw [writeMembers, ih, List.map_cons]

/-- A tree without numbers, in which all members ascend by name and no more than so many
containers are nested. -/
inductive Plain : Nat → Json → Prop where
  | null {depth : Nat} : Plain depth .null
  | bool {depth : Nat} (flag : Bool) : Plain depth (.bool flag)
  | string {depth : Nat} (text : String) : Plain depth (.string text)
  | array {depth : Nat} {elements : List Json} (each : ∀ element ∈ elements, Plain depth element) :
      Plain (depth + 1) (.array elements)
  | object {depth : Nat} {members : List (String × Json)} (ascending : Fields.Ascending members)
      (each : ∀ member ∈ members, Plain depth member.2) : Plain (depth + 1) (.object members)

theorem Plain.mono {depth bound : Nat} {json : Json} (plain : Plain depth json)
    (within : depth ≤ bound) : Plain bound json := by
  induction plain generalizing bound with
  | null => exact .null
  | bool flag => exact .bool flag
  | string text => exact .string text
  | array each ih =>
      obtain ⟨inner, rfl⟩ := Nat.exists_eq_succ_of_ne_zero (by omega : bound ≠ 0)
      exact .array fun element member => ih element member (Nat.le_of_succ_le_succ within)
  | object ascending each ih =>
      obtain ⟨inner, rfl⟩ := Nat.exists_eq_succ_of_ne_zero (by omega : bound ≠ 0)
      exact .object ascending fun member held => ih member held (Nat.le_of_succ_le_succ within)

theorem Plain.exists_first {depth : Nat} {json : Json} (plain : Plain depth json) :
    ∃ first rest, json.write = first :: rest ∧ Cursor.isTokenBlank first = false ∧ first ≠ ']' := by
  cases plain with
  | null => exact ⟨_, _, by rw [write], by decide, by decide⟩
  | bool flag => cases flag <;> exact ⟨_, _, by rw [write], by decide, by decide⟩
  | string text => exact ⟨_, _, by rw [write, quoteString], by decide, by decide⟩
  | array each => exact ⟨_, _, by rw [write], by decide, by decide⟩
  | object ascending each => exact ⟨_, _, by rw [write], by decide, by decide⟩

theorem exists_first_of_elements {depth : Nat} {elements : List Json} (filled : elements ≠ [])
    (plain : ∀ element ∈ elements, element.Plain depth) :
    ∃ first tail, joinCommas (writeElements elements) = first :: tail ∧
      Cursor.isTokenBlank first = false ∧ first ≠ ']' := by
  obtain ⟨element, others, rfl⟩ := List.exists_cons_of_ne_nil filled
  obtain ⟨first, tail, written, visible, notEnd⟩ :=
    (plain element List.mem_cons_self).exists_first
  obtain ⟨back, joined⟩ := exists_joinCommas element.write (writeElements others)
  exact ⟨first, tail ++ back, by rw [writeElements, joined, written, List.cons_append], visible,
    notEnd⟩

end Json

namespace Cursor

variable {reader : Cursor → Except SyntaxFault (Json × Cursor)} {depth : Nat}

theorem readElements_last {cursor : Cursor} {fuel middle : Nat} {item : Json} {rest : List Char}
    (read : reader cursor = .ok (item, ⟨']' :: rest, middle⟩)) :
    readElements reader (fuel + 1) cursor = .ok ([item], ⟨rest, middle + 1⟩) := by
  simp only [readElements, read, bind, Except.bind,
    skipBlanks_cons (by decide : isTokenBlank ']' = false)]

theorem readElements_next {cursor after : Cursor} {fuel middle : Nat} {item : Json}
    {items : List Json} {first : Char} {tail : List Char} (visible : isTokenBlank first = false)
    (notEnd : first ≠ ']') (read : reader cursor = .ok (item, ⟨',' :: first :: tail, middle⟩))
    (others : readElements reader fuel ⟨first :: tail, middle + 1⟩ = .ok (items, after)) :
    readElements reader (fuel + 1) cursor = .ok (item :: items, after) := by
  simp only [readElements, read, bind, Except.bind, skipBlanks_cons visible,
    skipBlanks_cons (by decide : isTokenBlank ',' = false)]
  split
  · simp_all
  · simp_all
  · rw [others]
    rfl

theorem readElements_written {elements : List Json} (filled : elements ≠ [])
    (plain : ∀ element ∈ elements, element.Plain depth)
    (takes : ∀ element ∈ elements, Takes reader element.write element) {fuel : Nat}
    (enough : elements.length ≤ fuel) (rest : List Char) (offset : Nat) :
    ∃ after, readElements reader fuel
        ⟨joinCommas (Json.writeElements elements) ++ ']' :: rest, offset⟩ =
      .ok (elements, ⟨rest, after⟩) := by
  induction elements generalizing fuel offset with
  | nil => exact absurd rfl filled
  | cons element others ih =>
      obtain ⟨more, rfl⟩ := Nat.exists_eq_succ_of_ne_zero
        (by simp only [List.length_cons] at enough; omega : fuel ≠ 0)
      obtain ⟨takesFirst, takesOthers⟩ := List.forall_mem_cons.mp takes
      obtain ⟨plainFirst, plainOthers⟩ := List.forall_mem_cons.mp plain
      cases others with
      | nil =>
          obtain ⟨middle, read⟩ := takesFirst (']' :: rest) offset
          exact ⟨middle + 1, by
            rw [Json.writeElements, Json.writeElements, joinCommas_singleton,
              readElements_last read]⟩
      | cons next others =>
          obtain ⟨first, tail, joined, visible, notEnd⟩ :=
            Json.exists_first_of_elements (by simp) plainOthers
          obtain ⟨middle, read⟩ := takesFirst (',' :: first :: (tail ++ ']' :: rest)) offset
          obtain ⟨after, readOthers⟩ :=
            ih (by simp) plainOthers takesOthers (Nat.le_of_succ_le_succ enough) (middle + 1)
          rw [joined, List.cons_append] at readOthers
          refine ⟨after, ?_⟩
          rw [Json.writeElements, Json.writeElements, joinCommas_cons_cons, ← Json.writeElements,
            joined, List.append_assoc, List.cons_append, List.cons_append]
          exact readElements_next visible notEnd read readOthers

theorem readMembers_last {cursor : Cursor} {fuel middle : Nat} {member : String × Json}
    {rest : List Char} (read : cursor.readMember reader = .ok (member, ⟨'\x7d' :: rest, middle⟩)) :
    readMembers reader (fuel + 1) cursor = .ok ([member], ⟨rest, middle + 1⟩) := by
  simp only [readMembers, read, bind, Except.bind,
    skipBlanks_cons (by decide : isTokenBlank '\x7d' = false)]

theorem readMembers_next {cursor after : Cursor} {fuel middle : Nat} {member : String × Json}
    {members : List (String × Json)} {tail : List Char}
    (read : cursor.readMember reader = .ok (member, ⟨',' :: '"' :: tail, middle⟩))
    (others : readMembers reader fuel ⟨tail, middle + 2⟩ = .ok (members, after)) :
    readMembers reader (fuel + 1) cursor = .ok (member :: members, after) := by
  simp only [readMembers, read, bind, Except.bind,
    skipBlanks_cons (by decide : isTokenBlank ',' = false),
    skipBlanks_cons (by decide : isTokenBlank '"' = false), others]
  rfl

theorem takes_readMember {name : String} {json : Json} (takes : Takes reader json.write json) :
    Takes (readMember reader) (name.toList.flatMap escapeChar ++ '"' :: ':' :: json.write)
      (name, json) := by
  intro rest offset
  obtain ⟨middle, readName⟩ := takes_readString name (':' :: (json.write ++ rest)) offset
  obtain ⟨after, readValue⟩ := takes rest (middle + 1)
  refine ⟨after, ?_⟩
  have text : name.toList.flatMap escapeChar ++ '"' :: ':' :: json.write ++ rest =
      name.toList.flatMap escapeChar ++ ['"'] ++ ':' :: (json.write ++ rest) := by simp
  simp only [text, readMember, readName, bind, Except.bind,
    skipBlanks_cons (by decide : isTokenBlank ':' = false), readValue]
  rfl

theorem readMembers_written {members : List (String × Json)} (filled : members ≠ [])
    (takes : ∀ member ∈ members, Takes reader member.2.write member.2) :
    ∃ body, joinCommas (Json.writeMembers members) = '"' :: body ∧
      ∀ rest offset fuel, members.length ≤ fuel →
        ∃ after, readMembers reader fuel ⟨body ++ '\x7d' :: rest, offset⟩ =
          .ok (members, ⟨rest, after⟩) := by
  induction members with
  | nil => exact absurd rfl filled
  | cons member others ih =>
      obtain ⟨name, json⟩ := member
      obtain ⟨takesFirst, takesOthers⟩ := List.forall_mem_cons.mp takes
      have takesMember : Takes (readMember reader) _ (name, json) := takes_readMember takesFirst
      have piece : quoteString name ++ ':' :: json.write =
          '"' :: (name.toList.flatMap escapeChar ++ '"' :: ':' :: json.write) := by
        simp [quoteString]
      cases others with
      | nil =>
          refine ⟨_, by rw [Json.writeMembers, Json.writeMembers, joinCommas_singleton, piece], ?_⟩
          intro rest offset fuel enough
          obtain ⟨more, rfl⟩ := Nat.exists_eq_succ_of_ne_zero
            (by simp only [List.length_singleton] at enough; omega : fuel ≠ 0)
          obtain ⟨middle, read⟩ := takesMember ('\x7d' :: rest) offset
          exact ⟨middle + 1, readMembers_last read⟩
      | cons next others =>
          obtain ⟨body, joined, readOthers⟩ := ih (by simp) takesOthers
          refine ⟨_, by rw [Json.writeMembers, Json.writeMembers, joinCommas_cons_cons,
            ← Json.writeMembers, joined, piece, List.cons_append], ?_⟩
          intro rest offset fuel enough
          obtain ⟨more, rfl⟩ := Nat.exists_eq_succ_of_ne_zero
            (by simp only [List.length_cons] at enough; omega : fuel ≠ 0)
          obtain ⟨middle, read⟩ := takesMember (',' :: '"' :: (body ++ '\x7d' :: rest)) offset
          obtain ⟨after, last⟩ :=
            readOthers rest (middle + 2) more (Nat.le_of_succ_le_succ enough)
          refine ⟨after, ?_⟩
          rw [List.append_assoc, List.cons_append, List.cons_append]
          exact readMembers_next read last

theorem readArray_of_visible {first : Char} (visible : isTokenBlank first = false)
    (notEnd : first ≠ ']') (rest : List Char) (offset : Nat) :
    readArray reader ⟨first :: rest, offset⟩ =
      readElements reader (rest.length + 1) ⟨first :: rest, offset⟩ := by
  simp only [readArray, skipBlanks_cons visible]
  split
  · simp_all
  · simp_all
  · rfl

theorem takes_readArray {elements : List Json}
    (plain : ∀ element ∈ elements, element.Plain depth)
    (takes : ∀ element ∈ elements, Takes reader element.write element) :
    Takes (readArray reader) (joinCommas (Json.writeElements elements) ++ [']']) elements := by
  intro rest offset
  rw [List.append_assoc, List.singleton_append]
  by_cases filled : elements = []
  · subst filled
    exact ⟨offset + 1, by
      simp [Json.writeElements, joinCommas, readArray,
        skipBlanks_cons (by decide : isTokenBlank ']' = false)]⟩
  · obtain ⟨first, tail, joined, visible, notEnd⟩ := Json.exists_first_of_elements filled plain
    have pieces : ∀ piece ∈ Json.writeElements elements, piece ≠ [] := by
      simp only [Json.writeElements_eq_map, List.forall_mem_map]
      intro element member
      obtain ⟨head, back, written, -⟩ := (plain element member).exists_first
      simp [written]
    have enough := length_le_joinCommas pieces
    rw [Json.writeElements_eq_map, List.length_map, ← Json.writeElements_eq_map, joined,
      List.length_cons] at enough
    obtain ⟨after, read⟩ := readElements_written filled plain takes
      (by rw [List.length_append]; omega : elements.length ≤ (tail ++ ']' :: rest).length + 1)
      rest offset
    rw [joined, List.cons_append] at read ⊢
    exact ⟨after, by rw [readArray_of_visible visible notEnd, read]⟩

theorem takes_readObject {members : List (String × Json)}
    (takes : ∀ member ∈ members, Takes reader member.2.write member.2) :
    Takes (readObject reader) (joinCommas (Json.writeMembers members) ++ ['\x7d']) members := by
  intro rest offset
  rw [List.append_assoc, List.singleton_append]
  by_cases filled : members = []
  · subst filled
    exact ⟨offset + 1, by
      simp [Json.writeMembers, joinCommas, readObject,
        skipBlanks_cons (by decide : isTokenBlank '\x7d' = false)]⟩
  · obtain ⟨body, joined, read⟩ := readMembers_written filled takes
    have pieces : ∀ piece ∈ Json.writeMembers members, piece ≠ [] := by
      simp only [Json.writeMembers_eq_map, List.forall_mem_map]
      intro member _
      simp
    have enough := length_le_joinCommas pieces
    rw [Json.writeMembers_eq_map, List.length_map, ← Json.writeMembers_eq_map, joined,
      List.length_cons] at enough
    obtain ⟨after, taken⟩ := read rest (offset + 1) ((body ++ '\x7d' :: rest).length + 1)
      (by rw [List.length_append]; omega)
    rw [joined, List.cons_append]
    refine ⟨after, ?_⟩
    simp only [readObject, skipBlanks_cons (by decide : isTokenBlank '"' = false), taken]

theorem readTree_scalar {first : Char} (visible : isTokenBlank first = false)
    (notArray : first ≠ '[') (notObject : first ≠ '\x7b') (depth : Nat) (rest : List Char)
    (offset : Nat) :
    readTree depth ⟨first :: rest, offset⟩ = readScalar ⟨first :: rest, offset⟩ := by
  rw [readTree.eq_def]
  simp only [skipBlanks_cons visible]
  split <;> simp_all

theorem readTree_array {depth offset : Nat} {rest : List Char} {elements : List Json}
    {after : Cursor} (read : readArray (readTree depth) ⟨rest, offset + 1⟩ = .ok (elements, after)) :
    readTree (depth + 1) ⟨'[' :: rest, offset⟩ = .ok (.array elements, after) := by
  rw [readTree.eq_def]
  simp only [skipBlanks_cons (by decide : isTokenBlank '[' = false), read, bind, Except.bind]
  rfl

theorem readTree_object {depth offset : Nat} {rest : List Char} {members : List (String × Json)}
    {after : Cursor}
    (read : readObject (readTree depth) ⟨rest, offset + 1⟩ = .ok (members, after)) :
    readTree (depth + 1) ⟨'\x7b' :: rest, offset⟩ = .ok (.object (Fields.ofList members), after) := by
  rw [readTree.eq_def]
  simp only [skipBlanks_cons (by decide : isTokenBlank '\x7b' = false), read, bind, Except.bind]
  rfl

end Cursor

namespace Json

theorem Plain.takes_readTree {depth : Nat} {json : Json} (plain : json.Plain depth) :
    Cursor.Takes (Cursor.readTree depth) json.write json := by
  induction plain with
  | null =>
      intro rest offset
      exact ⟨offset + 4, Cursor.readTree_scalar (by decide) (by decide) (by decide) _ _ _⟩
  | bool flag =>
      intro rest offset
      cases flag with
      | true =>
          exact ⟨offset + 4, Cursor.readTree_scalar (by decide) (by decide) (by decide) _ _ _⟩
      | false =>
          exact ⟨offset + 5, Cursor.readTree_scalar (by decide) (by decide) (by decide) _ _ _⟩
  | string text =>
      intro rest offset
      obtain ⟨after, read⟩ := Cursor.takes_readString text rest (offset + 1)
      rw [List.append_assoc, List.singleton_append] at read
      refine ⟨after, ?_⟩
      rw [write, quoteString, List.cons_append,
        Cursor.readTree_scalar (by decide) (by decide) (by decide)]
      simp [Cursor.readScalar, read, bind, Except.bind, pure, Except.pure]
  | array each ih =>
      intro rest offset
      obtain ⟨after, read⟩ := Cursor.takes_readArray each ih rest (offset + 1)
      exact ⟨after, by rw [write, List.cons_append, Cursor.readTree_array read]⟩
  | object ascending each ih =>
      intro rest offset
      obtain ⟨after, read⟩ := Cursor.takes_readObject ih rest (offset + 1)
      refine ⟨after, ?_⟩
      rw [write, List.cons_append, Cursor.readTree_object read,
        Fields.ofList_of_ascending ascending]

/-- The compact text of a plain tree is read as the tree. -/
theorem Plain.read_write {json : Json} (plain : json.Plain greatestDepth) :
    read json.write = .ok json := by
  obtain ⟨after, taken⟩ := plain.takes_readTree [] 0
  rw [List.append_nil] at taken
  simp only [read, readWithin, Cursor.start, taken, bind, Except.bind, Cursor.expectEnd,
    Cursor.skipBlanks, List.dropWhile_nil, List.isEmpty_nil, if_true]
  rfl

end Json

end KeyedStore
