import KeyedStore.Error

/-! Page windows. A backend pages at sizes of its own; a window takes one page of the
client's size out of that stream, and counts every item that passes. -/

namespace KeyedStore

structure PageWindow where
  pageSize : Nat
  start : Nat
  budget : Nat
  seen : Nat := 0
  items : List AttributeMap := []

namespace PageWindow

/-- The window of a page. Pages are numbered from one, and the items before the page
must be countable in 64 bits. -/
def ofPage (page pageSize : UInt64) : Except RequestFault PageWindow :=
  if pageSize = 0 then .error .emptyPage
  else if page = 0 then .error .pageZero
  else
    let start := pageSize.toNat * (page.toNat - 1)
    if start < wordBound then
      .ok { pageSize := pageSize.toNat, start, budget := pageSize.toNat }
    else .error (.pageOutOfRange page pageSize)

/-- Goes through items, the first of which stands at a place of the stream. Items that stand
before the window are passed over, and the others taken until the budget is spent. -/
def scan (window : PageWindow) (place : Nat) : List AttributeMap → PageWindow
  | [] => window
  | item :: rest =>
      if window.budget = 0 then window
      else if window.start ≤ place then
        scan { window with items := window.items ++ [item], budget := window.budget - 1 }
          (place + 1) rest
      else scan window (place + 1) rest

/-- Takes in a backend page. A page that ends before the window is counted and no more. -/
def offer (window : PageWindow) (items : List AttributeMap) (count : Nat) : PageWindow :=
  if window.seen + count ≤ window.start then { window with seen := window.seen + count }
  else { window.scan window.seen (items.take count) with seen := window.seen + count }

def offerAll (window : PageWindow) (pages : List Page) : PageWindow :=
  pages.foldl (fun window page => window.offer page.items page.count) window

/-- The pages of the client that the items seen fill, the last one perhaps in part. -/
def pageCount (window : PageWindow) : Nat :=
  (window.seen + window.pageSize - 1) / window.pageSize

end PageWindow

end KeyedStore
