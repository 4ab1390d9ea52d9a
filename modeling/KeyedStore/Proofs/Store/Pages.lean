import KeyedStore.Backend.Memory
import KeyedStore.Proofs.Expression.Typing
import KeyedStore.Proofs.PageWindow
import KeyedStore.Proofs.Store.Dispatch

/-! Queries by page. A page that cannot be asked for is refused before any call. Of all other
pages the store gives the items that stand there in the stream of the backend, however the
backend cuts it, and the pages of the client side by side are the whole stream. -/

namespace KeyedStore

namespace Request

theorem preparePages_of_unaddressable {request : Request}
    (lost : ¬PageWindow.Addressable request.page request.pageSize) :
    ∃ fault, request.preparePages = .error (.invalidRequest fault) := by
  cases opened : PageWindow.ofPage request.page request.pageSize with
  | ok window => exact absurd ((PageWindow.exists_ofPage_iff _ _).mp ⟨window, opened⟩) lost
  | error fault =>
      refine ⟨fault, ?_⟩
      rw [preparePages, opened]
      rfl

theorem preparePages_of_ofPage {request : Request} {window : PageWindow}
    (opened : PageWindow.ofPage request.page request.pageSize = .ok window)
    (typed : ∀ condition ∈ request.conditions, condition.WellTyped) :
    ∃ call : QueryCall, call.table = request.table ∧
      request.preparePages = .ok {
        call := .queryPages call
        respond := fun pages =>
          { items := (window.offerAll pages).items
            pageCount := (window.offerAll pages).pageCount } } := by
  obtain ⟨text, aliases, compiled⟩ := (exists_compileConditions_iff _ .empty).mpr typed
  have expression : request.conditionExpression .empty = .ok (text, aliases) :=
    conditionExpression_eq_ok_iff.mpr compiled
  let call : QueryCall := {
    table := request.table, index := request.index, keyCondition := text, aliases
    consistentRead := request.consistentRead }
  refine ⟨call, rfl, ?_⟩
  rw [preparePages_eq_ok_iff]
  exact ⟨window, by rw [opened]; rfl, text, aliases, expression, rfl⟩

end Request

namespace Store

variable {State : Type}

theorem dispatch_pages_refused (backend : Backend State) (request : Request)
    (store : Store State) (paged : request.action = .queryPager)
    (lost : ¬PageWindow.Addressable request.page request.pageSize) :
    ∃ fault, store.dispatch backend request = (.error (.invalidRequest fault), store) := by
  obtain ⟨fault, refused⟩ := Request.preparePages_of_unaddressable lost
  refine ⟨fault, ?_⟩
  simp only [dispatch_query backend request (.inr paged), Request.prepare, paged, refused]

theorem dispatch_pages (backend : Backend State) (request : Request) (store : Store State)
    (paged : request.action = .queryPager) {window : PageWindow}
    (opened : PageWindow.ofPage request.page request.pageSize = .ok window)
    (typed : ∀ condition ∈ request.conditions, condition.WellTyped) :
    ∃ call : QueryCall, call.table = request.table ∧
      (store.dispatch backend request).2.backendState =
          (backend.answer (.queryPages call) store.backendState).2 ∧
        (store.dispatch backend request).1 =
          match (backend.answer (.queryPages call) store.backendState).1 with
          | .error cause => .error (.backendFailed .queryPages cause)
          | .ok pages => .ok {
              items := (window.offerAll pages).items
              pageCount := (window.offerAll pages).pageCount } := by
  obtain ⟨call, table, ready⟩ := Request.preparePages_of_ofPage opened typed
  refine ⟨call, table, ?_⟩
  simp only [dispatch_query backend request (.inr paged), Request.prepare, paged, ready]
  split
  · rename_i cause after answered
    simp only [answered, Call.operation, and_self]
  · rename_i pages after answered
    simp only [answered, settle, and_self]

/-- A query by page, of a page `n` of a size. The window of the page exists exactly if size and
page are positive and a word can count what stands before it; otherwise the query is refused and
the store left as it was, without a call. The window counts all the items of whatever pages the
backend gives, and holds the first of those that stand at its start or behind, as many as fit.
Where the counts are true these are the items of the stream in those places, so the answer does
not depend on the pages of the backend, and the client's pages side by side are the stream. -/
theorem pages_cut_exactly (backend : Backend State) (store : Store State) (request : Request) :
    let size := request.pageSize
    let start := size.toNat * (request.page.toNat - 1)
    let ran := store.run backend { request with action := .queryPager }
    ((∃ window, PageWindow.ofPage request.page size = .ok window) ↔
        0 < size ∧ 0 < request.page ∧ start < 2 ^ 64) ∧
      (¬(0 < size ∧ 0 < request.page ∧ start < 2 ^ 64) →
        ∃ fault, ran = (.error (.invalidRequest fault), store)) ∧
      (∀ window, PageWindow.ofPage request.page size = .ok window →
        (∀ pages,
          let after := window.offerAll pages
          after.seen = totalCount pages ∧
            after.pageCount = ⌈(totalCount pages : ℚ) / size.toNat⌉₊ ∧
            after.items.length ≤ size.toNat ∧
            after.items = (itemsFrom start (placedItems 0 pages)).take size.toNat ∧
            (CountsMatch pages →
              after.items = ((pages.flatMap Page.items).drop start).take size.toNat)) ∧
        ((∀ condition ∈ request.conditions, condition.WellTyped) →
          ∃ call : QueryCall, call.table = store.tablePrefix ++ request.table ∧
            ran.2.backendState = (backend.answer (.queryPages call) store.backendState).2 ∧
              ran.1 =
                match (backend.answer (.queryPages call) store.backendState).1 with
                | .error cause => .error (.backendFailed .queryPages cause)
                | .ok pages => .ok {
                    items := (window.offerAll pages).items
                    pageCount := (window.offerAll pages).pageCount })) ∧
      (0 < size → ∀ pages, CountsMatch pages → totalCount pages < 2 ^ 64 →
        ∃ windows,
          List.Forall₂
            (fun number window => PageWindow.ofPage (.ofNat (number + 1)) size = .ok window)
            (List.range ⌈(totalCount pages : ℚ) / size.toNat⌉₊) windows ∧
          windows.flatMap (fun window => (window.offerAll pages).items) =
            pages.flatMap Page.items) := by
  intro size start ran
  let sent : Request :=
    { request with action := .queryPager, table := store.tablePrefix ++ request.table }
  refine ⟨PageWindow.exists_ofPage_iff _ _, fun lost => ?_, fun window opened => ⟨?_, ?_⟩, ?_⟩
  · exact dispatch_pages_refused backend sent store rfl lost
  · intro pages
    obtain ⟨⟨sized, -, -⟩, shape⟩ := PageWindow.ofPage_eq_ok_iff.mp opened
    have natSized : 0 < size.toNat := UInt64.lt_iff_toNat_lt.mp sized
    have taken := PageWindow.offerAll_behind size (request.page.toNat - 1) pages
    rw [← shape] at taken
    have items : (window.offerAll pages).items = clientPage start size.toNat pages := by
      rw [taken]
    have seen : (window.offerAll pages).seen = totalCount pages := by rw [taken]
    have pageSize : (window.offerAll pages).pageSize = size.toNat := by rw [taken]
    have count := (window.offerAll pages).pageCount_eq_ceil (by rwa [pageSize])
    rw [seen, pageSize] at count
    refine ⟨seen, count, ?_, items, fun counts => ?_⟩
    · rw [items]
      exact List.length_take_le _ _
    · rw [items, clientPage_of_match counts]
  · intro typed
    exact dispatch_pages backend sent store rfl opened typed
  · intro sized pages counts small
    exact PageWindow.windows_of_match sized counts small

theorem pages_cut_exactly_second_of_three :
    let row (id : String) : AttributeMap := [("id", .string id)]
    let pages : List Page :=
      [{ items := [row "a", row "b", row "c"] }, { items := [] }, { items := [row "d", row "e"] }]
    ∃ window, PageWindow.ofPage 2 2 = .ok window ∧
      (window.offerAll pages).items = [row "c", row "d"] ∧
        (window.offerAll pages).pageCount = 3 := by
  intro row pages
  have two : UInt64.toNat 2 = 2 := rfl
  have cut := pages_cut_exactly Backend.memory { backendState := {} } { page := 2, pageSize := 2 }
  obtain ⟨window, opened⟩ := cut.1.mpr ⟨by decide, by decide, by norm_num [two]⟩
  obtain ⟨-, pageCount, -, -, items⟩ := (cut.2.2.1 window opened).1 pages
  refine ⟨window, opened, ?_, ?_⟩
  · rw [items (by simp [CountsMatch, pages])]
    rfl
  · rw [pageCount, Nat.ceil_eq_iff (by decide)]
    norm_num [totalCount, pages, two]

end Store

end KeyedStore
