import KeyedStore.Proofs.Path.RestoreTarget
import KeyedStore.Proofs.Rollback.Compensation
import KeyedStore.Proofs.Value.Place

/-! Undoing an update. Updates are given a meaning of their own on nested maps, and for
that meaning the compensation of an update brings back the item it was made on. -/

namespace KeyedStore

namespace Update

/-- What an update makes of what its target holds: only a list has an end to append at. -/
def content? (update : Update) (held : Place) : Option Place :=
  match update.action, endsInMarker (pathSegments update.path), held with
  | .delete, false, _ => some none
  | .delete, true, _ => none
  | _, false, _ => some (some update.value)
  | _, true, some (.list elements) => some (some (.list (elements ++ [update.value])))
  | _, true, _ => none

def perform? (place : Place) (update : Update) : Option Place := do
  let held ← Place.read? update.target place
  let content ← update.content? held
  return Place.write content update.target place

def performAll? (updates : List Update) (item : Item) : Option Item :=
  (updates.foldlM perform? (some (.map item))).bind Place.fields?

end Update

def Item.Ordered (item : Item) : Prop :=
  ∀ names, Place.OrderedAlong names (some (.map item))

theorem Item.ordered_iff {item : Item} :
    item.Ordered ↔
      item.Ascending ∧ ∀ name fields, item.get? name = some (.map fields) →
        Item.Ordered fields := by
  constructor
  · intro ordered
    refine ⟨(ordered [""] item rfl).1, ?_⟩
    intro name fields held names
    have below := (ordered (name :: names) item rfl).2
    exact held ▸ below
  · rintro ⟨ascending, inner⟩ names
    cases names with
    | nil => trivial
    | cons name rest =>
        intro fields same
        have isItem : item = fields := Option.some.inj same
        subst isItem
        refine ⟨ascending, ?_⟩
        cases rest with
        | nil => trivial
        | cons next others =>
            intro below held
            have isMap := Place.eq_map_of_fields? held
            exact inner name below isMap (next :: others) below rfl

namespace Place

def Apart (targets : List (List String)) : Prop :=
  ∀ left ∈ targets, ∀ right ∈ targets, left = right ∨ Separate left right

def restoreAll (contents : List String → Place) (targets : List (List String))
    (place : Place) : Place :=
  targets.foldl (fun place names => write (contents names) names place) place

variable {targets : List (List String)} {contents : List String → Place} {names : List String}
  {place before after content : Place}

theorem restoreAll_write {all : List (List String)} (apart : Apart all) (inside : targets ⊆ all)
    (ordered : ∀ target ∈ all, OrderedAlong target place) (member : names ∈ targets)
    (content : Place) :
    restoreAll contents targets (write content names place) =
      restoreAll contents targets place := by
  -- The place varies: the write moves behind each separate target until its own is restored.
  induction targets generalizing place with
  | nil => simp at member
  | cons target rest ih =>
      have targetInside := inside List.mem_cons_self
      have namesInside := inside member
      simp only [restoreAll, List.foldl_cons]
      rcases apart target targetInside names namesInside with same | separate
      · subst same
        rw [write_write (ordered target targetInside)]
      · rw [write_comm separate.symm (ordered names namesInside)]
        apply ih (List.subset_of_cons_subset inside)
        · intro other otherInside
          exact (ordered other otherInside).write (ordered target targetInside)
            (apart target targetInside other otherInside) (contents target)
        · rcases List.mem_cons.mp member with same | later
          · exact absurd (same ▸ List.prefix_refl names) separate.1
          · exact later

theorem restoreAll_self (ordered : ∀ target ∈ targets, OrderedAlong target place)
    (held : ∀ target ∈ targets, read? target place = some (contents target)) :
    restoreAll contents targets place = place := by
  induction targets with
  | nil => rfl
  | cons target rest ih =>
      rw [List.forall_mem_cons] at ordered held
      simp only [restoreAll, List.foldl_cons]
      rw [write_read? ordered.1 held.1]
      exact ih ordered.2 held.2

/-- The later place differs from the earlier one only in what the targets hold. -/
structure DiffersAt (targets : List (List String)) (before after : Place) : Prop where
  restored : ∀ contents, restoreAll contents targets after = restoreAll contents targets before
  ordered : ∀ target ∈ targets, OrderedAlong target after
  reached : ∀ target ∈ targets, (read? target after).isSome = (read? target before).isSome

theorem DiffersAt.refl (ordered : ∀ target ∈ targets, OrderedAlong target place) :
    DiffersAt targets place place :=
  ⟨fun _ => rfl, ordered, fun _ _ => rfl⟩

theorem isSome_read?_write_of_apart {target : List String}
    (apart : names = target ∨ Separate names target) (content : Place) :
    (read? target (write content names place)).isSome = (read? target place).isSome := by
  rcases apart with same | separate
  · subst same
    exact isSome_read?_write content
  · rw [read?_write_of_separate separate]

theorem DiffersAt.write (differs : DiffersAt targets before place) (apart : Apart targets)
    (member : names ∈ targets) (content : Place) :
    DiffersAt targets before (Place.write content names place) := by
  refine ⟨?_, ?_, ?_⟩
  · intro contents
    rw [restoreAll_write apart (List.Subset.refl targets) differs.ordered member,
      differs.restored]
  · intro target targetMember
    exact (differs.ordered target targetMember).write (differs.ordered names member)
      (apart names member target targetMember) content
  · intro target targetMember
    rw [isSome_read?_write_of_apart (apart names member target targetMember),
      differs.reached target targetMember]

end Place

namespace Update

theorem differsAt_of_foldlM {targets : List (List String)} {before place after : Place}
    (apart : Place.Apart targets) {updates : List Update}
    (inside : ∀ update ∈ updates, update.target ∈ targets)
    (differs : Place.DiffersAt targets before place)
    (applied : updates.foldlM perform? place = some after) :
    Place.DiffersAt targets before after ∧
      ∀ update ∈ updates, (Place.read? update.target before).isSome := by
  induction updates generalizing place with
  | nil =>
      simp only [List.foldlM_nil, pure, Option.some.injEq] at applied
      exact ⟨applied ▸ differs, by simp⟩
  | cons update rest ih =>
      rw [List.forall_mem_cons] at inside
      simp only [List.foldlM_cons, perform?, Option.bind_eq_bind, Option.bind_eq_some_iff, pure,
        Option.some.injEq] at applied
      obtain ⟨next, ⟨held, found, content, -, written⟩, restApplied⟩ := applied
      have step := differs.write apart inside.1 content
      rw [written] at step
      obtain ⟨whole, reached⟩ := ih inside.2 step restApplied
      refine ⟨whole, List.forall_mem_cons.mpr ⟨?_, reached⟩⟩
      rw [← differs.reached update.target inside.1, found]
      rfl

theorem foldlM_eq_restoreAll {contents : List String → Place} {updates : List Update}
    (settles : ∀ update ∈ updates, ∀ held,
      update.content? held = some (contents update.target))
    (apart : Place.Apart (updates.map target)) {place : Place}
    (reached : ∀ update ∈ updates, (Place.read? update.target place).isSome) :
    updates.foldlM perform? place =
      some (Place.restoreAll contents (updates.map target) place) := by
  induction updates generalizing place with
  | nil => rfl
  | cons update rest ih =>
      rw [List.forall_mem_cons] at settles reached
      obtain ⟨held, found⟩ := Option.isSome_iff_exists.mp reached.1
      have applied : perform? place update =
          some (Place.write (contents update.target) update.target place) := by
        simp [perform?, found, settles.1 held]
      have restApart : Place.Apart (rest.map target) := by
        intro left leftMember right rightMember
        exact apart left (List.mem_cons_of_mem _ leftMember) right
          (List.mem_cons_of_mem _ rightMember)
      have restReached : ∀ other ∈ rest, (Place.read? other.target
          (Place.write (contents update.target) update.target place)).isSome := by
        intro other member
        rw [Place.isSome_read?_write_of_apart]
        · exact reached.2 other member
        · apply apart update.target List.mem_cons_self
          exact List.mem_cons_of_mem _ (List.mem_map_of_mem member)
      rw [List.foldlM_cons, applied]
      exact ih settles.2 restApart restReached

end Update

namespace Value

theorem walk?_of_read? {value : Value} {names : List String} {held : Place}
    (plain : ∀ name ∈ names, readPosition? name.toList = none)
    (found : Place.read? names (some value) = some held) : value.walk? names = held := by
  induction names generalizing value with
  | nil =>
      simp only [Place.read?, Option.some.injEq] at found
      exact found
  | cons name rest ih =>
      rw [List.forall_mem_cons] at plain
      obtain ⟨fields, isMap, below⟩ := Place.read?_cons_eq_some_iff.mp found
      rw [Option.some.inj isMap]
      have stepped : (Value.map fields).step? name = Fields.get? fields name := by
        simp [step?, plain.1]
      simp only [walk?, List.foldlM_cons, stepped]
      cases inner : Fields.get? fields name with
      | some next =>
          rw [inner] at below
          exact ih plain.2 below
      | none =>
          rw [inner] at below
          cases rest with
          | nil => simpa [Place.read?] using below
          | cons other others => simp [Place.read?, Place.fields?] at below

end Value

theorem Item.lookup?_of_read? {item : Item} {path : String} {held : Place}
    (plain : ∀ name ∈ pathSegments path, readPosition? name.toList = none)
    (found : Place.read? (pathSegments path) (some (.map item)) = some held) :
    item.lookup? path = held := by
  unfold lookup?
  cases segments : pathSegments path with
  | nil => exact absurd segments (pathSegments_ne_nil path)
  | cons first rest =>
      rw [segments] at plain found
      rw [List.forall_mem_cons] at plain
      have walked := Value.walk?_of_read? (List.forall_mem_cons.mpr plain) found
      simpa [Value.walk?, Value.step?, plain.1] using walked

namespace Update

theorem path_restoring (old : Item) (path : String) : (restoring old path).path = path := by
  unfold restoring
  split <;> rfl

theorem target_restoring {update : Update} (admitted : Admits (pathSegments update.path))
    (old : Item) : (restoring old (restoreTarget update.path)).target = update.target := by
  have unmarked := admitted.dropMarker.2
  rw [target, path_restoring, pathSegments_restoreTarget admitted, dropMarker, unmarked]
  rfl

theorem mem_targets_restoringAll_iff {updates : List Update}
    (admitted : ∀ update ∈ updates, Admits (pathSegments update.path)) (old : Item)
    {names : List String} :
    names ∈ (restoringAll old updates).map target ↔ names ∈ updates.map target := by
  simp only [List.mem_map, mem_restoringAll_iff]
  constructor
  · rintro ⟨restored, ⟨update, member, same⟩, isTarget⟩
    exact ⟨update, member, by rw [← isTarget, same, target_restoring (admitted update member)]⟩
  · rintro ⟨update, member, isTarget⟩
    exact ⟨_, ⟨update, member, rfl⟩, by rw [target_restoring (admitted update member), isTarget]⟩

theorem content?_restoring {update : Update} (admitted : Admits (pathSegments update.path))
    {old : Item} {content : Place} (found : old.lookup? (restoreTarget update.path) = content)
    (held : Place) : (restoring old (restoreTarget update.path)).content? held = some content := by
  have unmarked := admitted.dropMarker.2
  rw [← pathSegments_restoreTarget admitted] at unmarked
  unfold restoring
  cases content with
  | some value => simp [found, content?, unmarked]
  | none => simp [found, content?, unmarked]

end Update

/-- Undoing an update brings back the item it was made on. -/
theorem compensate_update_restores {operation : LoggedOperation} {row : AttributeMap}
    {old new : Item} (action : operation.request.action = .update)
    (attributes : operation.response.attributes = some row) (read : row.unmarshal = .ok old)
    (ordered : old.Ordered)
    (compiles : ∀ update ∈ operation.request.updates, ∃ number aliases expression tables,
      compilePath update.path number aliases = (.ok expression, tables))
    (plain : ∀ update ∈ operation.request.updates, ∀ name ∈ update.target,
      readPosition? name.toList = none)
    (apart : Place.Apart (operation.request.updates.map Update.target))
    (applied : Update.performAll? operation.request.updates old = some new) :
    ∃ undo, operation.compensate = .ok (some undo) ∧ undo.action = .update ∧
      undo.table = operation.request.table ∧ undo.key = operation.request.key ∧
      Update.performAll? undo.updates new = some old := by
  have admitted : ∀ update ∈ operation.request.updates, Admits (pathSegments update.path) := by
    intro update member
    obtain ⟨number, aliases, expression, tables, compiled⟩ := compiles update member
    exact admits_of_compilePath compiled
  have sameTargets : ∀ names,
      names ∈ (Update.restoringAll old operation.request.updates).map Update.target ↔
        names ∈ operation.request.updates.map Update.target :=
    fun names => Update.mem_targets_restoringAll_iff admitted old
  have restoresApart :
      Place.Apart ((Update.restoringAll old operation.request.updates).map Update.target) := by
    intro left leftMember right rightMember
    exact apart left ((sameTargets left).mp leftMember) right
      ((sameTargets right).mp rightMember)
  obtain ⟨after, carried, isNew⟩ := Option.bind_eq_some_iff.mp applied
  rw [Place.eq_map_of_fields? isNew] at carried
  -- the item was changed at the targets alone, so it is enough to restore what they held
  obtain ⟨differs, reached⟩ := Update.differsAt_of_foldlM restoresApart
    (fun update member => (sameTargets _).mpr (List.mem_map_of_mem member))
    (.refl fun names _ => ordered names) carried
  let contents (names : List String) : Place :=
    (Place.read? names (some (.map old))).getD none
  have holds : ∀ update ∈ operation.request.updates,
      Place.read? update.target (some (.map old)) = some (contents update.target) := by
    intro update member
    obtain ⟨held, found⟩ := Option.isSome_iff_exists.mp (reached update member)
    simp [contents, found]
  have settles : ∀ restored ∈ Update.restoringAll old operation.request.updates, ∀ held,
      restored.content? held = some (contents restored.target) := by
    intro restored member held
    obtain ⟨update, updateMember, same⟩ := Update.mem_restoringAll_iff.mp member
    have segments := pathSegments_restoreTarget (admitted update updateMember)
    rw [same, Update.target_restoring (admitted update updateMember)]
    apply Update.content?_restoring (admitted update updateMember)
    apply Item.lookup?_of_read?
    · rw [segments]
      exact plain update updateMember
    · rw [segments]
      exact holds update updateMember
  have allHeld : ∀ names ∈ (Update.restoringAll old operation.request.updates).map Update.target,
      Place.read? names (some (.map old)) = some (contents names) := by
    intro names member
    obtain ⟨update, updateMember, same⟩ := List.mem_map.mp ((sameTargets names).mp member)
    exact same ▸ holds update updateMember
  have stillReached : ∀ restored ∈ Update.restoringAll old operation.request.updates,
      (Place.read? restored.target (some (.map new))).isSome := by
    intro restored member
    have inTargets := List.mem_map_of_mem (f := Update.target) member
    rw [differs.reached _ inTargets, allHeld _ inTargets]
    rfl
  refine ⟨_, LoggedOperation.compensate_update action attributes read, rfl, rfl, rfl, ?_⟩
  rw [Update.performAll?, Update.foldlM_eq_restoreAll settles restoresApart stillReached,
    differs.restored, Place.restoreAll_self (fun names _ => ordered names) allHeld]
  rfl

theorem compensate_update_restores_note_and_tags :
    let row : AttributeMap := [
      ("info", .map [("note", .string "old")]), ("tags", .list [.string "a"])]
    let request : Request := {
      action := .update, key := [("id", .string "x")]
      updates := [⟨.put, "/info/note", .string "new"⟩, ⟨.put, "/tags/-", .string "b"⟩,
        ⟨.update, "/tags/-", .string "c"⟩] }
    ∃ undo, LoggedOperation.compensate ⟨request, { attributes := some row }⟩ = .ok (some undo) ∧
      Update.performAll? undo.updates [
        ("info", .map [("note", .string "new")]),
        ("tags", .list [.string "a", .string "b", .string "c"])] =
      some [("info", .map [("note", .string "old")]), ("tags", .list [.string "a"])] := by
  intro row request
  have note : pathSegments "/info/note" = ["info", "note"] := by decide +kernel
  have tags : pathSegments "/tags/-" = ["tags", appendMarker] := by decide +kernel
  have noteTarget : dropMarker ["info", "note"] = ["info", "note"] := by decide
  have tagsTarget : dropMarker ["tags", appendMarker] = ["tags"] := by decide
  have noteUnmarked : endsInMarker ["info", "note"] = false := by decide
  have tagsMarked : endsInMarker ["tags", appendMarker] = true := by decide
  have noteAdmitted : Admits (pathSegments "/info/note") := by
    rw [note]
    exact ⟨by decide, by decide, by decide, by decide, by decide, trivial⟩
  have tagsAdmitted : Admits (pathSegments "/tags/-") := by
    rw [tags]
    exact ⟨by decide, by decide, by decide, by decide, by decide, trivial⟩
  have ordered : Item.Ordered
      [("info", .map [("note", .string "old")]), ("tags", .list [.string "a"])] := by
    rw [Item.ordered_iff]
    refine ⟨by decide, ?_⟩
    intro name fields held
    have isInfo : fields = [("note", .string "old")] := by
      simp only [Fields.get?] at held
      split at held
      · simpa using held.symm
      · split at held <;> simp at held
    rw [isInfo, Item.ordered_iff]
    refine ⟨by decide, ?_⟩
    intro other below inner
    simp only [Fields.get?] at inner
    split at inner <;> simp at inner
  have names : ∀ name ∈ ["info", "note", "tags"], readPosition? name.toList = none := by
    decide +kernel
  have targets : request.updates.map Update.target = [["info", "note"], ["tags"], ["tags"]] := by
    simp [request, Update.target, note, tags, noteTarget, tagsTarget]
  have compiles : ∀ update ∈ request.updates, ∃ number aliases expression tables,
      compilePath update.path number aliases = (.ok expression, tables) := by
    simp only [request, List.forall_mem_cons]
    exact ⟨⟨0, .empty, _, _, compilePath_of_admits noteAdmitted 0 .empty⟩,
      ⟨0, .empty, _, _, compilePath_of_admits tagsAdmitted 0 .empty⟩,
      ⟨0, .empty, _, _, compilePath_of_admits tagsAdmitted 0 .empty⟩, by simp⟩
  have plain : ∀ update ∈ request.updates, ∀ name ∈ update.target,
      readPosition? name.toList = none := by
    intro update member name inTarget
    have listed : update.target ∈ request.updates.map Update.target := List.mem_map_of_mem member
    have known : ∀ target ∈ request.updates.map Update.target,
        target ⊆ ["info", "note", "tags"] := by
      rw [targets]
      decide
    exact names name (known _ listed inTarget)
  have apart : Place.Apart (request.updates.map Update.target) := by
    rw [targets]
    unfold Place.Apart Place.Separate
    decide
  have setNote : Update.perform? (some (.map [
      ("info", .map [("note", .string "old")]), ("tags", .list [.string "a"])]))
      ⟨.put, "/info/note", .string "new"⟩ = some (some (.map [
        ("info", .map [("note", .string "new")]), ("tags", .list [.string "a"])])) := by
    simp only [Update.perform?, Update.target, Update.content?, note, noteTarget, noteUnmarked]
    rfl
  have addTag (action : UpdateAction) (listed : action ≠ .delete) (tags' : List Value)
      (tag : String) : Update.perform? (some (.map [
        ("info", .map [("note", .string "new")]), ("tags", .list tags')]))
        ⟨action, "/tags/-", .string tag⟩ = some (some (.map [
          ("info", .map [("note", .string "new")]), ("tags", .list (tags' ++ [.string tag]))])) := by
    simp only [Update.perform?, Update.target, Update.content?, tags, tagsTarget, tagsMarked]
    cases action with
    | delete => exact absurd rfl listed
    | put => rfl
    | update => rfl
  have applied : Update.performAll? request.updates
      [("info", .map [("note", .string "old")]), ("tags", .list [.string "a"])] =
      some [("info", .map [("note", .string "new")]),
        ("tags", .list [.string "a", .string "b", .string "c"])] := by
    simp only [request, Update.performAll?, List.foldlM_cons, List.foldlM_nil, setNote,
      addTag .put (by decide), addTag .update (by decide), Option.bind_eq_bind, Option.bind_some]
    rfl
  let operation : LoggedOperation := ⟨request, { attributes := some row }⟩
  obtain ⟨undo, compensated, -, -, -, undone⟩ := @compensate_update_restores operation row _ _
    rfl rfl rfl ordered compiles plain apart applied
  exact ⟨undo, compensated, undone⟩

end KeyedStore
