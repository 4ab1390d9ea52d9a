import KeyedStore.Proofs.Rollback.Attempts
import KeyedStore.Proofs.Rollback.Restore

/-! What a compensation addresses. A rollback finds an append by the end of the path's text, an
expression by the last segment of the path. Both find the same appends, and what is restored is
compiled as what was updated: an append restores the list that it was written to, any other
update its own path. -/

namespace KeyedStore

/-- A path that has an expression asks for the end of a list exactly if its text ends in a slash
and an append marker. Cut off there, it is compiled from the same tables to the same steps and the
same tables, and asks for no end. The paths that a compensation updates are all of this form, and
each updated path is among them in this form. -/
theorem restored_path_compiles_alike {path : String} {number : Nat} {aliases tables : Aliases}
    {expression : PathExpression}
    (compiled : compilePath path number aliases = (.ok expression, tables)) :
    (expression.append = true ↔ ['/', '-'] <:+ path.toList) ∧
      path = restoreTarget path ++ (if expression.append then "/-" else "") ∧
      compilePath (restoreTarget path) number aliases = (.ok ⟨expression.steps, false⟩, tables) ∧
      ∀ (operation : LoggedOperation) (undo : Request),
        operation.compensate = .ok (some undo) → undo.action = .update →
          ((∃ update ∈ operation.request.updates, update.path = path) →
            ∃ restored ∈ undo.updates, restored.path = restoreTarget path) ∧
          ∀ restored ∈ undo.updates,
            ∃ update ∈ operation.request.updates, restored.path = restoreTarget update.path := by
  have admitted := admits_of_compilePath compiled
  rw [compilePath_of_admits admitted] at compiled
  simp only [Prod.mk.injEq, Except.ok.injEq] at compiled
  obtain ⟨rfl, rfl⟩ := compiled
  have append := endsInMarker_iff_suffix admitted
  refine ⟨append, ?_, compilePath_restoreTarget admitted number aliases, ?_⟩
  · simp only [append]
    exact restoreTarget_append path
  · intro operation undo compensated updates
    obtain ⟨old, rfl⟩ : ∃ old, undo = { operation.request.inverse .update with
        updates := Update.restoringAll old operation.request.updates } := by
      rcases LoggedOperation.compensate_some_cases compensated with
        delete | ⟨row, item, -, -, put⟩ | update
      · simp [delete, Request.inverse] at updates
      · simp [put, Request.inverse] at updates
      · exact update
    constructor
    · rintro ⟨update, member, rfl⟩
      exact ⟨_, Update.mem_restoringAll_iff.mpr ⟨update, member, rfl⟩, Update.path_restoring _ _⟩
    · intro restored member
      obtain ⟨update, updateMember, rfl⟩ := Update.mem_restoringAll_iff.mp member
      exact ⟨update, updateMember, Update.path_restoring _ _⟩

theorem restored_path_compiles_alike_of_inner_list :
    let aliases : Aliases := { names := [("#0ename0", "note")], values := [] }
    let path := "shelf/a-b/0/-"
    let operation : LoggedOperation := {
      request := {
        action := .update, key := [("id", .string "x")]
        updates := [⟨.delete, "/note", .null⟩, ⟨.put, path, .string "new"⟩] }
      response := { attributes := some [("note", .string "old")] } }
    ∃ expression tables undo,
      compilePath path 1 aliases = (.ok expression, tables) ∧ expression.append = true ∧
        operation.compensate = .ok (some undo) ∧
        ∃ restored ∈ undo.updates,
          compilePath restored.path 1 aliases = (.ok ⟨expression.steps, false⟩, tables) := by
  have compiled :
      compilePath "shelf/a-b/0/-" 1 { names := [("#0ename0", "note")], values := [] } =
        (.ok ⟨[.name "#1ename0", .name "#1ename1", .position "0"], true⟩, {
          names := [("#0ename0", "note"), ("#1ename0", "shelf"), ("#1ename1", "a-b")]
          values := [] }) := by
    rfl
  intro aliases path operation
  obtain ⟨-, -, target, compensates⟩ := restored_path_compiles_alike compiled
  have compensated := @LoggedOperation.compensate_update operation rfl _ _ rfl rfl
  obtain ⟨restored, member, same⟩ :=
    (compensates operation _ compensated rfl).1 ⟨_, List.mem_cons_of_mem _ List.mem_cons_self, rfl⟩
  exact ⟨_, _, _, compiled, rfl, compensated, restored, member, same ▸ target⟩

end KeyedStore
