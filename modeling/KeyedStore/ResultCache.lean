import KeyedStore.Response.Basic

/-! The read cache: responses by table and key. Keys compare by value, the first key
stored for an entry stays, and entries leave only by being evicted or cleared. -/

namespace KeyedStore

structure CacheEntry where
  table : String
  key : Item
  response : Response

def CacheEntry.isFor (entry : CacheEntry) (table : String) (key : Item) : Bool :=
  entry.table == table && entry.key.same key

structure ResultCache where
  entries : List CacheEntry := []
  enabled : Bool := true

namespace ResultCache

def empty : ResultCache := {}

def isEmpty (cache : ResultCache) : Bool :=
  cache.entries.isEmpty

def size (cache : ResultCache) : Nat :=
  cache.entries.length

def enable (cache : ResultCache) : ResultCache :=
  { cache with enabled := true }

def disable (cache : ResultCache) : ResultCache :=
  { cache with enabled := false }

def lookup? (cache : ResultCache) (table : String) (key : Item) : Option Response :=
  (cache.entries.find? (·.isFor table key)).map (·.response)

/-- Replaces the response of the first entry for a table and a key, or adds an entry. -/
def insertEntry (table : String) (key : Item) (response : Response) :
    List CacheEntry → List CacheEntry
  | [] => [⟨table, key, response⟩]
  | entry :: rest =>
      if entry.isFor table key then { entry with response } :: rest
      else entry :: insertEntry table key response rest

def insert (cache : ResultCache) (table : String) (key : Item) (response : Response) :
    ResultCache :=
  { cache with entries := insertEntry table key response cache.entries }

def evict (cache : ResultCache) (table : String) (key : Item) : ResultCache :=
  { cache with entries := cache.entries.filter fun entry => !entry.isFor table key }

def clear (cache : ResultCache) : ResultCache :=
  { cache with entries := [] }

end ResultCache

end KeyedStore
