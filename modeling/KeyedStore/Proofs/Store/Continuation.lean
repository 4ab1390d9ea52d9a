import KeyedStore.Proofs.Attribute.Canonical
import KeyedStore.Proofs.Attribute.RoundTrip
import KeyedStore.Proofs.Backend.Transcript
import KeyedStore.Proofs.Number.Whole
import KeyedStore.Proofs.Store.Walk

/-! The key that a query continues at. A last key of texts and integers is read as values and
written again for the next query, and its integers come back as the doubles nearest to them. -/

namespace KeyedStore

/-- What a field of a key holds: text, or the decimal text of an integer. -/
inductive Attribute.IsKeyField : Attribute → Prop where
  | string {text : String} (filled : text ≠ "") : IsKeyField (.string text)
  | integer (whole : ℤ) : IsKeyField (.number (String.ofList (integerText whole)))

namespace AttributeMap

structure IsKey (row : AttributeMap) : Prop where
  filled : row ≠ []
  fields : ∀ field ∈ row, field.2.IsKeyField

def HoldsInteger (row : AttributeMap) (whole : ℤ) : Prop :=
  ∃ name, (name, .number (String.ofList (integerText whole))) ∈ row

end AttributeMap

theorem mem_integerText {whole : ℤ} {char : Char} (member : char ∈ integerText whole) :
    char.isDigit = true ∨ char = '-' := by
  rw [integerText] at member
  split_ifs at member
  · rcases List.mem_cons.mp member with sign | digit
    · exact .inr sign
    · exact .inl (naturalText_all_isDigit _ char digit)
  · exact .inl (naturalText_all_isDigit _ char member)

theorem noBlank_integerText (whole : ℤ) : ∀ char ∈ integerText whole, isBlank char = false := by
  intro char member
  rcases mem_integerText member with digit | rfl
  · exact isBlank_of_isDigit digit
  · decide

theorem Number.isFinite_of_text_eq {number : Number} {whole : ℤ}
    (same : number.text = String.ofList (integerText whole)) : number.isFinite = true := by
  have member (char : Char) (inText : char ∈ number.plainText) :
      char.isDigit = true ∨ char = '-' := by
    rw [text, String.ofList_inj] at same
    exact mem_integerText (same ▸ inText)
  cases number with
  | finite double => rfl
  | notANumber => exact absurd (member 'N' (by decide)) (by decide)
  | infinite negative =>
      exact absurd (member 'i' (by cases negative <;> decide)) (by decide)

theorem readNumberText?_integerText (whole : ℤ) :
    readNumberText? (String.ofList (integerText whole)) = some (.ofInt whole) := by
  rw [readNumberText?, String.toList_ofList, trimBlanks_of_noBlank (noBlank_integerText whole),
    Number.read?_integerText]

namespace AttributeMap

variable {row : AttributeMap} {item : Item}

theorem IsKey.exists_unmarshal (shape : row.IsKey) :
    ∃ item, row.unmarshal = .ok item ∧ item ≠ [] := by
  have readable : ∀ field ∈ row, field.2.Readable := by
    rintro ⟨name, encoded⟩ member
    cases shape.fields _ member with
    | string filled =>
        simp [Attribute.Readable, Attribute.leaves, Attribute.ReadableLeaf, Attribute.isGeneric,
          Attribute.isBinary, Attribute.numberTexts]
    | integer whole =>
        simp [Attribute.Readable, Attribute.leaves, Attribute.ReadableLeaf, Attribute.isGeneric,
          Attribute.isBinary, Attribute.numberTexts, readNumberText?_integerText]
  obtain ⟨item, read⟩ := (Attribute.exists_unmarshalFields_iff row).mpr
    ((Attribute.forall_mem_fieldLeaves row).mpr readable)
  refine ⟨item, read, ?_⟩
  rintro rfl
  rw [Attribute.unmarshalFields_eq_traverse] at read
  exact shape.filled (by simpa using (Fields.names_traverse read).symm)

theorem IsKey.canonical_eq_self_iff (shape : row.IsKey) :
    row.canonical = row ↔
      ∀ whole, row.HoldsInteger whole →
        (Number.ofInt whole).text = String.ofList (integerText whole) := by
  have filled : ∀ field ∈ row, field.2.isEmptyString = false := by
    rintro ⟨name, encoded⟩ member
    cases shape.fields _ member with
    | string filled => simpa [Attribute.isEmptyString] using filled
    | integer whole => rfl
  have kept : row.filter (fun field => !field.2.isEmptyString) = row := by
    simpa using filled
  have canonical (whole : ℤ) : canonicalNumberText (String.ofList (integerText whole)) =
      (Number.ofInt whole).text :=
    canonicalNumberText_of_read (readNumberText?_integerText whole)
  have fieldwise : row.canonical = row ↔ ∀ field ∈ row, field.2.canonical = field.2 := by
    rw [AttributeMap.canonical, kept]
    nth_rewrite 2 [← List.map_id row]
    rw [List.map_inj_left]
    simp [Prod.ext_iff]
  rw [fieldwise]
  constructor
  · rintro same whole ⟨name, member⟩
    have text := same _ member
    rw [Attribute.canonical, canonical, Attribute.number.injEq] at text
    exact text
  · rintro same ⟨name, encoded⟩ member
    cases shape.fields _ member with
    | string filled => rfl
    | integer whole => rw [Attribute.canonical, canonical, same whole ⟨name, member⟩]

theorem IsKey.marshal_of_finite (shape : row.IsKey) (read : row.unmarshal = .ok item)
    (finite : ∀ whole, row.HoldsInteger whole → (Number.ofInt whole).isFinite = true) :
    item.marshal = .ok row.canonical := by
  apply marshal_of_unmarshal _ read
  rintro ⟨name, encoded⟩ member
  cases shape.fields _ member with
  | string filled =>
      simp [Attribute.AllFinite, Attribute.leaves, Attribute.FiniteLeaf, Attribute.numberTexts]
  | integer whole =>
      simp [Attribute.AllFinite, Attribute.leaves, Attribute.FiniteLeaf, Attribute.numberTexts,
        readNumberText?_integerText, finite whole ⟨name, member⟩]

theorem marshal_of_infinite (read : row.unmarshal = .ok item) {whole : ℤ}
    (held : row.HoldsInteger whole) (infinite : (Number.ofInt whole).isFinite ≠ true) :
    ∃ number, item.marshal = .error (.nonFiniteNumber number) := by
  obtain ⟨name, member⟩ := held
  rw [unmarshal, Attribute.unmarshalFields_eq_traverse] at read
  obtain ⟨value, valued, inItem⟩ := Fields.exists_mem_traverse read member
  rw [Attribute.unmarshal, unmarshalNumber, readNumberText?_integerText] at valued
  cases valued
  have unwritten : ¬∃ row, item.marshal = .ok row := by
    rw [Item.exists_marshal_iff]
    exact fun finite => infinite (by simpa [Value.isFinite] using finite _ inItem)
  cases written : item.marshal with
  | ok row => exact absurd ⟨row, written⟩ unwritten
  | error fault =>
      obtain ⟨number, -, rfl⟩ :=
        Option.map_eq_some_iff.mp ((item.reports_marshal fault).mp written)
      exact ⟨number, rfl⟩

end AttributeMap

namespace Store

variable {State : Type}

/-- Between the stores one call was made, a query that starts behind the key. -/
def QueriedFrom (before after : Store (Transcribed State)) (key : AttributeMap) : Prop :=
  ∃ call outcome,
    after.backendState.exchanges = before.backendState.exchanges ++ [⟨.query call, outcome⟩] ∧
      call.startKey = some key

theorem QueriedFrom.unique {before after : Store (Transcribed State)} {left right : AttributeMap}
    (leftQueried : QueriedFrom before after left) (rightQueried : QueriedFrom before after right) :
    left = right := by
  obtain ⟨call, outcome, made, started⟩ := leftQueried
  obtain ⟨otherCall, otherOutcome, otherMade, otherStarted⟩ := rightQueried
  rw [made, List.append_cancel_left_eq] at otherMade
  cases otherMade
  exact Option.some.inj (started.symm.trans otherStarted)

theorem queriedFrom_of_started (backend : Backend State) (store : Store (Transcribed State))
    (request : Request) (query : request.action = .query)
    (typed : ∀ condition ∈ request.conditions ++ request.filter, condition.WellTyped)
    {start : AttributeMap} (started : request.startKey? = .ok (some start)) :
    QueriedFrom store (store.run backend.transcribed request).2 start := by
  let sent : Request := { request with table := store.tablePrefix ++ request.table }
  obtain ⟨call, -, -, sameStart, ready⟩ :=
    sent.prepare_of_typed query typed started
  rw [run, dispatch_query backend.transcribed sent (.inl query), ready]
  cases answered : backend.transcribed.answer (.query call) store.backendState with
  | mk outcome after =>
      have made := (transcribed_answer_eq_iff.mp answered).2
      cases outcome with
      | error cause => exact ⟨call, .error cause, by simp only [answered]; exact made, sameStart⟩
      | ok page => exact ⟨call, .ok page, by simp only [answered]; exact made, sameStart⟩

theorem run_of_unstarted (backend : Backend State) (store : Store (Transcribed State))
    (request : Request) (query : request.action = .query)
    (typed : ∀ condition ∈ request.conditions ++ request.filter, condition.WellTyped)
    {error : StoreError} (unstarted : request.startKey? = .error error) :
    store.run backend.transcribed request = (.error error, store) := by
  let sent : Request := { request with table := store.tablePrefix ++ request.table }
  rw [run, dispatch_query backend.transcribed sent (.inl query),
    sent.prepare_of_unstarted query typed unstarted]

/-- A response that carries a key of texts and integers shows it, and a query goes on at the key
that is shown: it makes one call, behind the key with each integer replaced by the double nearest
to it, or none, if one of the integers is beyond all doubles. So the key is sent as it was carried
exactly if each of its integers is the shortest text of its double, and all below 2^53 in
magnitude are. -/
theorem query_continues_at_key_iff (backend : Backend State) (store : Store (Transcribed State))
    (request : Request) (query : request.action = .query)
    (typed : ∀ condition ∈ request.conditions ++ request.filter, condition.WellTyped)
    (response : Response) (row : AttributeMap) (shape : row.IsKey)
    (carried : response.lastKey = some row) :
    ∃ key, response.lastEvaluatedKey? = .ok (some key) ∧
      let ran := store.run backend.transcribed { request with lastKey := key }
      ((∀ whole, row.HoldsInteger whole → (Number.ofInt whole).isFinite = true) →
        QueriedFrom store ran.2 row.canonical) ∧
      ((∃ whole, row.HoldsInteger whole ∧ (Number.ofInt whole).isFinite ≠ true) →
        ran.2 = store ∧ ∃ number, ran.1 = .error (.marshalFailed (.nonFiniteNumber number))) ∧
      (QueriedFrom store ran.2 row ↔
        ∀ whole, row.HoldsInteger whole →
          (Number.ofInt whole).text = String.ofList (integerText whole)) ∧
      ((∀ whole, row.HoldsInteger whole → whole.natAbs < twoTo 53) →
        QueriedFrom store ran.2 row) := by
  obtain ⟨key, read, present⟩ := shape.exists_unmarshal
  refine ⟨key, by rw [Response.lastEvaluatedKey?, carried, unmarshalRow?, read], ?_⟩
  intro ran
  let next : Request := { request with lastKey := key }
  have queried (finite : ∀ whole, row.HoldsInteger whole → (Number.ofInt whole).isFinite = true) :
      QueriedFrom store ran.2 row.canonical := by
    apply queriedFrom_of_started backend store next query typed
    simp [next, Request.startKey?, present,
      Item.marshalRow_eq_ok_iff.mpr (shape.marshal_of_finite read finite), pure, Except.pure, bind,
      Except.bind]
  have refused {whole : ℤ} (held : row.HoldsInteger whole)
      (infinite : (Number.ofInt whole).isFinite ≠ true) :
      ran.2 = store ∧ ∃ number, ran.1 = .error (.marshalFailed (.nonFiniteNumber number)) := by
    obtain ⟨number, failed⟩ := AttributeMap.marshal_of_infinite read held infinite
    have unstarted : next.startKey? = .error (.marshalFailed (.nonFiniteNumber number)) := by
      simp [next, Request.startKey?, present, Item.marshalRow, failed, Except.mapError, bind,
        Except.bind]
    have left := run_of_unstarted backend store next query typed unstarted
    exact ⟨congrArg Prod.snd left, number, congrArg Prod.fst left⟩
  have kept (same : ∀ whole, row.HoldsInteger whole →
      (Number.ofInt whole).text = String.ofList (integerText whole)) :
      QueriedFrom store ran.2 row := by
    have whole := queried fun whole held => Number.isFinite_of_text_eq (same whole held)
    rwa [shape.canonical_eq_self_iff.mpr same] at whole
  refine ⟨queried, ?_, ⟨?_, kept⟩,
    fun short => kept fun whole held => Number.text_ofInt (short whole held)⟩
  · rintro ⟨whole, held, infinite⟩
    exact refused held infinite
  intro sent
  -- a query starts behind one row only, so the key is its own canonical form
  have finite (whole : ℤ) (held : row.HoldsInteger whole) :
      (Number.ofInt whole).isFinite = true := by
    by_contra infinite
    obtain ⟨call, outcome, made, -⟩ := sent
    rw [(refused held infinite).1] at made
    simp at made
  exact shape.canonical_eq_self_iff.mp ((queried finite).unique sent)

/-- After the row 2^53 + 1 the query goes on after the row 2^53, and not where it stopped. -/
theorem query_continues_at_key_of_odd :
    let row : AttributeMap := [("id", .number "9007199254740993"), ("kind", .string "click")]
    let store : Store (Transcribed Memory) := { backendState := { inner := {} } }
    let request : Request := { table := "events", action := .query, limit := 1 }
    ∃ key, Response.lastEvaluatedKey? { lastKey := some row } = .ok (some key) ∧
      let after := (store.run Backend.memory.transcribed { request with lastKey := key }).2
      QueriedFrom store after [("id", .number "9007199254740992"), ("kind", .string "click")] ∧
        ¬QueriedFrom store after row := by
  intro row store request
  have shape : row.IsKey := by
    refine ⟨by simp [row], ?_⟩
    simp only [row, List.forall_mem_cons]
    exact ⟨.integer 9007199254740993, .string (by decide), by simp⟩
  have finite (whole : ℤ) (held : row.HoldsInteger whole) :
      (Number.ofInt whole).isFinite = true := by
    obtain ⟨name, member⟩ := held
    have text : name = "id" ∧ String.ofList (integerText whole) = "9007199254740993" := by
      simpa [row] using member
    have read := readNumberText?_integerText whole
    have anyFinite : (readNumberText? "9007199254740993").any Number.isFinite = true := by
      decide +kernel
    rwa [← text.2, read, Option.any_some] at anyFinite
  obtain ⟨key, read, queried, -, kept, -⟩ := query_continues_at_key_iff Backend.memory store
    request rfl (by simp [request]) { lastKey := some row } row shape rfl
  have canonical : row.canonical =
      [("id", .number "9007199254740992"), ("kind", .string "click")] := by decide +kernel
  refine ⟨key, read, ?_, ?_⟩
  · rw [← canonical]
    exact queried finite
  · rw [kept]
    intro same
    have odd := same 9007199254740993 ⟨"id", by simp only [row]; decide +kernel⟩
    exact absurd odd (by decide +kernel)

end Store

end KeyedStore
