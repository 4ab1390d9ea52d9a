import KeyedStore.PageWindow
import Mathlib.Algebra.BigOperators.Group.List.Basic
import Mathlib.Data.Rat.Floor

/-! One page of the client out of the pages of a backend. Every counted item has a place in the
stream, and the window holds the items from its start on, as many as fit, whichever way the
backend cuts the stream into pages. -/

namespace KeyedStore

/-- The counted items of pages, each with its place: the number of items counted before it. -/
def placedItems (place : Nat) : List Page → List (AttributeMap × Nat)
  | [] => []
  | page :: rest =>
      (page.items.take page.count).zipIdx place ++ placedItems (place + page.count) rest

def totalCount (pages : List Page) : Nat :=
  (pages.map Page.count).sum

def itemsFrom (start : Nat) (entries : List (AttributeMap × Nat)) : List AttributeMap :=
  (entries.filter fun entry => decide (start ≤ entry.2)).map Prod.fst

theorem itemsFrom_append (start : Nat) (front back : List (AttributeMap × Nat)) :
    itemsFrom start (front ++ back) = itemsFrom start front ++ itemsFrom start back := by
  rw [itemsFrom, List.filter_append, List.map_append, itemsFrom, itemsFrom]

theorem itemsFrom_passed {start : Nat} {entries : List (AttributeMap × Nat)}
    (before : ∀ entry ∈ entries, entry.2 < start) : itemsFrom start entries = [] := by
  rw [itemsFrom, List.map_eq_nil_iff, List.filter_eq_nil_iff]
  intro entry member inside
  have passed := before entry member
  simp only [decide_eq_true_eq] at inside
  omega

/-- The counted items of a client's page: from its start on, as many as fit. -/
def clientPage (start size : Nat) (pages : List Page) : List AttributeMap :=
  (itemsFrom start (placedItems 0 pages)).take size

namespace PageWindow

def keep (window : PageWindow) (entries : List (AttributeMap × Nat)) : PageWindow :=
  { window with
    items := window.items ++ (itemsFrom window.start entries).take window.budget
    budget := window.budget - (itemsFrom window.start entries).length }

theorem keep_append (window : PageWindow) (front back : List (AttributeMap × Nat)) :
    window.keep (front ++ back) = (window.keep front).keep back := by
  simp only [keep, itemsFrom_append, List.take_append, List.length_append, List.append_assoc,
    Nat.sub_sub]

theorem keep_passed {window : PageWindow} {entries : List (AttributeMap × Nat)}
    (before : ∀ entry ∈ entries, entry.2 < window.start) : window.keep entries = window := by
  simp [keep, itemsFrom_passed before]

theorem keep_spent {window : PageWindow} (spent : window.budget = 0)
    (entries : List (AttributeMap × Nat)) : window.keep entries = window := by
  obtain ⟨pageSize, start, budget, seen, items⟩ := window
  simp only at spent
  simp [keep, spent]

theorem scan_eq_keep (window : PageWindow) (place : Nat) (items : List AttributeMap) :
    window.scan place items = window.keep (items.zipIdx place) := by
  induction items generalizing window place with
  | nil => simp [scan, keep, itemsFrom]
  | cons item rest ih =>
      have stepwise : window.keep ((item :: rest).zipIdx place) =
          (window.keep [(item, place)]).keep (rest.zipIdx (place + 1)) :=
        window.keep_append [(item, place)] (rest.zipIdx (place + 1))
      rw [scan, stepwise]
      split
      · rename_i spent
        rw [keep_spent spent, keep_spent spent]
      · rename_i left
        split
        · rename_i inside
          obtain ⟨more, budget⟩ := Nat.exists_eq_succ_of_ne_zero left
          rw [ih]
          simp [keep, itemsFrom, inside, budget]
        · rename_i outside
          have passed : window.keep [(item, place)] = window :=
            keep_passed (by simpa using outside)
          rw [passed, ih]

theorem place_of_mem_zipIdx {items : List AttributeMap} {place : Nat}
    {entry : AttributeMap × Nat} (member : entry ∈ items.zipIdx place) :
    place ≤ entry.2 ∧ entry.2 < place + items.length :=
  ⟨List.le_snd_of_mem_zipIdx member, List.snd_lt_add_of_mem_zipIdx member⟩

theorem offer_eq_keep (window : PageWindow) (items : List AttributeMap) (count : Nat) :
    window.offer items count =
      { window.keep ((items.take count).zipIdx window.seen) with seen := window.seen + count } := by
  rw [offer]
  split
  · rename_i skipped
    rw [keep_passed]
    intro entry member
    have place := (place_of_mem_zipIdx member).2
    rw [List.length_take] at place
    omega
  · rw [scan_eq_keep]

theorem offerAll_eq_keep (window : PageWindow) (pages : List Page) :
    window.offerAll pages =
      { window.keep (placedItems window.seen pages) with
        seen := window.seen + totalCount pages } := by
  induction pages generalizing window with
  | nil => simp [offerAll, keep, itemsFrom, placedItems, totalCount]
  | cons page rest ih =>
      have step : window.offerAll (page :: rest) =
          (window.offer page.items page.count).offerAll rest := rfl
      rw [step, ih, offer_eq_keep, placedItems, keep_append]
      simp [keep, totalCount, Nat.add_assoc]

/-- The page can be asked for: there are such pages, and what stands before it fits a word. -/
def Addressable (page pageSize : UInt64) : Prop :=
  0 < pageSize ∧ 0 < page ∧ pageSize.toNat * (page.toNat - 1) < 2 ^ 64

def behind (pageSize : UInt64) (number : Nat) : PageWindow :=
  { pageSize := pageSize.toNat, start := pageSize.toNat * number, budget := pageSize.toNat }

theorem ofPage_eq_ok_iff {page pageSize : UInt64} {window : PageWindow} :
    ofPage page pageSize = .ok window ↔
      Addressable page pageSize ∧ window = behind pageSize (page.toNat - 1) := by
  have bound : (2 : ℕ) ^ 64 = wordBound := by decide
  unfold ofPage Addressable behind
  rw [bound]
  by_cases noSize : pageSize = 0
  · simp [noSize]
  · by_cases noPage : page = 0
    · simp [noSize, noPage]
    · have sizePositive : 0 < pageSize := UInt64.pos_iff_ne_zero.mpr noSize
      have pagePositive : 0 < page := UInt64.pos_iff_ne_zero.mpr noPage
      by_cases fits : pageSize.toNat * (page.toNat - 1) < wordBound
      · simp [noSize, noPage, fits, sizePositive, pagePositive, eq_comm]
      · simp [noSize, noPage, fits]

theorem exists_ofPage_iff (page pageSize : UInt64) :
    (∃ window, ofPage page pageSize = .ok window) ↔ Addressable page pageSize := by
  simp [ofPage_eq_ok_iff]

theorem pageCount_eq_ceil (window : PageWindow) (sized : 0 < window.pageSize) :
    window.pageCount = ⌈(window.seen : ℚ) / window.pageSize⌉₊ := by
  apply eq_of_forall_ge_iff
  intro bound
  have positive : (0 : ℚ) < window.pageSize := Nat.cast_pos.mpr sized
  rw [Nat.ceil_le, div_le_iff₀ positive, ← Nat.cast_mul, Nat.cast_le, pageCount,
    Nat.div_le_iff_le_mul_add_pred sized, Nat.mul_comm bound]
  omega

theorem offerAll_behind (pageSize : UInt64) (number : Nat) (pages : List Page) :
    (behind pageSize number).offerAll pages = {
      pageSize := pageSize.toNat, start := pageSize.toNat * number
      budget := ((behind pageSize number).keep (placedItems 0 pages)).budget
      seen := totalCount pages
      items := clientPage (pageSize.toNat * number) pageSize.toNat pages } := by
  rw [offerAll_eq_keep]
  simp only [keep, behind, clientPage, Nat.zero_add, List.nil_append]

end PageWindow

/-- The pages count their items as they are. -/
def CountsMatch (pages : List Page) : Prop :=
  ∀ page ∈ pages, page.count = page.items.length

theorem placedItems_of_match {pages : List Page} (counts : CountsMatch pages) (place : Nat) :
    placedItems place pages = (pages.flatMap Page.items).zipIdx place := by
  induction pages generalizing place with
  | nil => rfl
  | cons page rest ih =>
      obtain ⟨first, later⟩ := List.forall_mem_cons.mp counts
      rw [placedItems, ih later, first, List.take_length, List.flatMap_cons, List.zipIdx_append]

theorem totalCount_of_match {pages : List Page} (counts : CountsMatch pages) :
    totalCount pages = (pages.flatMap Page.items).length := by
  rw [totalCount, List.length_flatMap, List.map_congr_left counts]

theorem itemsFrom_zipIdx (items : List AttributeMap) (place start : Nat) :
    itemsFrom start (items.zipIdx place) = items.drop (start - place) := by
  induction items generalizing place with
  | nil => simp [itemsFrom]
  | cons item rest ih =>
      simp only [itemsFrom] at ih ⊢
      rw [List.zipIdx_cons, List.filter_cons]
      split
      · rename_i inside
        simp only [decide_eq_true_eq] at inside
        have here : start - place = 0 := by omega
        have behind : start - (place + 1) = 0 := by omega
        rw [List.map_cons, ih, here, behind, List.drop_zero, List.drop_zero]
      · rename_i outside
        simp only [decide_eq_true_eq] at outside
        have further : start - place = (start - (place + 1)) + 1 := by omega
        rw [ih, further, List.drop_succ_cons]

theorem clientPage_of_match {pages : List Page} (counts : CountsMatch pages) (start size : Nat) :
    clientPage start size pages = ((pages.flatMap Page.items).drop start).take size := by
  rw [clientPage, placedItems_of_match counts, itemsFrom_zipIdx, Nat.sub_zero]

theorem flatMap_chunks (items : List AttributeMap) (size count : Nat) :
    (List.range count).flatMap (fun number => (items.drop (size * number)).take size) =
      items.take (size * count) := by
  induction count with
  | zero => simp
  | succ count ih =>
      rw [List.range_succ, List.flatMap_append, ih, Nat.mul_succ, List.take_add]
      simp

namespace PageWindow

theorem ofPage_succ {pageSize : UInt64} (sized : 0 < pageSize) {number : Nat}
    (small : pageSize.toNat * number < 2 ^ 64) (fits : number + 1 < 2 ^ 64) :
    ofPage (.ofNat (number + 1)) pageSize = .ok (behind pageSize number) := by
  have place : (UInt64.ofNat (number + 1)).toNat = number + 1 :=
    UInt64.toNat_ofNat_of_lt' fits
  have positive : 0 < UInt64.ofNat (number + 1) := by
    rw [UInt64.lt_iff_toNat_lt, place]
    exact Nat.succ_pos number
  rw [ofPage_eq_ok_iff, Addressable, place]
  exact ⟨⟨sized, positive, small⟩, rfl⟩

theorem windows_of_match {pageSize : UInt64} (sized : 0 < pageSize) {pages : List Page}
    (counts : CountsMatch pages) (small : totalCount pages < 2 ^ 64) :
    ∃ windows,
      List.Forall₂ (fun number window => ofPage (.ofNat (number + 1)) pageSize = .ok window)
        (List.range ⌈(totalCount pages : ℚ) / pageSize.toNat⌉₊) windows ∧
        windows.flatMap (fun window => (window.offerAll pages).items) =
          pages.flatMap Page.items := by
  have natSized : 0 < pageSize.toNat := UInt64.lt_iff_toNat_lt.mp sized
  have positive : (0 : ℚ) < pageSize.toNat := Nat.cast_pos.mpr natSized
  have started (number : Nat) (below : number < ⌈(totalCount pages : ℚ) / pageSize.toNat⌉₊) :
      pageSize.toNat * number < totalCount pages := by
    rw [Nat.lt_ceil, lt_div_iff₀ positive, ← Nat.cast_mul, Nat.cast_lt] at below
    rwa [Nat.mul_comm]
  have opens (number : Nat) (below : number < ⌈(totalCount pages : ℚ) / pageSize.toNat⌉₊) :
      ofPage (.ofNat (number + 1)) pageSize = .ok (behind pageSize number) := by
    have start := started number below
    have fewer : number ≤ pageSize.toNat * number := Nat.le_mul_of_pos_left number natSized
    exact ofPage_succ sized (by omega) (by omega)
  refine ⟨(List.range ⌈(totalCount pages : ℚ) / pageSize.toNat⌉₊).map (behind pageSize), ?_, ?_⟩
  · rw [List.forall₂_map_right_iff, List.forall₂_same]
    exact fun number member => opens number (List.mem_range.mp member)
  · -- each window holds one chunk of the stream, and the chunks reach to its end
    have held (number : Nat) : ((behind pageSize number).offerAll pages).items =
        ((pages.flatMap Page.items).drop (pageSize.toNat * number)).take pageSize.toNat := by
      rw [offerAll_behind, clientPage_of_match counts]
    simp only [List.flatMap_map, held, flatMap_chunks]
    apply List.take_of_length_le
    have covered := Nat.le_ceil ((totalCount pages : ℚ) / pageSize.toNat)
    rw [div_le_iff₀ positive, ← Nat.cast_mul, Nat.cast_le] at covered
    rwa [← totalCount_of_match counts, Nat.mul_comm]

end PageWindow

end KeyedStore
