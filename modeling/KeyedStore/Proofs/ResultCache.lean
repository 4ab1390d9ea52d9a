import KeyedStore.Proofs.Value.Same
import KeyedStore.ResultCache

/-! Laws of the read cache, as a map by table and key. An insert decides the look-ups of its own
table under the keys that equal its key, an eviction empties them, and neither touches any other
look-up. Keys that a backend can be asked for equal themselves: only not-a-number differs from
itself, and it has no attribute. -/

namespace KeyedStore

theorem CacheEntry.isFor_iff {entry : CacheEntry} {table : String} {key : Item} :
    entry.isFor table key = true ↔ entry.table = table ∧ entry.key.same key = true := by
  simp [isFor]

theorem CacheEntry.isFor_congr {entry : CacheEntry} {table : String} {key : Item}
    (own : entry.isFor table key = true) (otherTable : String) (otherKey : Item) :
    entry.isFor otherTable otherKey = true ↔ table = otherTable ∧ key.same otherKey = true := by
  obtain ⟨sameTable, sameKey⟩ := isFor_iff.mp own
  rw [isFor_iff, sameTable, Item.same_congr sameKey]

namespace ResultCache

variable {table : String} {key : Item}

theorem isFor_self (equal : key.same key = true) (response : Response) :
    CacheEntry.isFor ⟨table, key, response⟩ table key = true := by
  simp [CacheEntry.isFor, equal]

theorem lookup?_insert_eq (table : String) (key : Item) (response : Response)
    (cache : ResultCache) (otherTable : String) (otherKey : Item) :
    (cache.insert table key response).lookup? otherTable otherKey =
      if table = otherTable ∧ key.same otherKey = true then some response
      else cache.lookup? otherTable otherKey := by
  have found : ∀ entries : List CacheEntry,
      ((insertEntry table key response entries).find? (·.isFor otherTable otherKey)).map
          (·.response) =
        if table = otherTable ∧ key.same otherKey = true then some response
        else (entries.find? (·.isFor otherTable otherKey)).map (·.response) := by
    intro entries
    induction entries with
    | nil =>
        have own : CacheEntry.isFor ⟨table, key, response⟩ otherTable otherKey = true ↔
            table = otherTable ∧ key.same otherKey = true :=
          CacheEntry.isFor_iff
        simp only [insertEntry, List.find?_cons, List.find?_nil, ← own]
        cases hit : CacheEntry.isFor ⟨table, key, response⟩ otherTable otherKey <;> simp
    | cons entry rest ih =>
        simp only [insertEntry]
        split
        · rename_i own
          have refreshed : CacheEntry.isFor { entry with response } table key = true := own
          have place := CacheEntry.isFor_congr refreshed otherTable otherKey
          have same : CacheEntry.isFor { entry with response } otherTable otherKey =
              entry.isFor otherTable otherKey := rfl
          simp only [← place, List.find?_cons, same]
          cases entry.isFor otherTable otherKey <;> simp
        · rename_i foreign
          rw [List.find?_cons, List.find?_cons]
          cases hit : entry.isFor otherTable otherKey with
          | false => exact ih
          | true =>
              have elsewhere : ¬(table = otherTable ∧ key.same otherKey = true) := by
                rintro ⟨sameTable, sameKey⟩
                apply foreign
                exact (CacheEntry.isFor_congr hit table key).mpr
                  ⟨sameTable.symm, Item.same_symm sameKey⟩
              rw [if_neg elsewhere]
  exact found cache.entries

theorem lookup?_insert (equal : key.same key = true) (response : Response) (cache : ResultCache) :
    (cache.insert table key response).lookup? table key = some response := by
  rw [lookup?_insert_eq, if_pos ⟨rfl, equal⟩]

theorem lookup?_evict (table : String) (key : Item) (cache : ResultCache) (otherTable : String)
    (otherKey : Item) :
    (cache.evict table key).lookup? otherTable otherKey =
      if table = otherTable ∧ key.same otherKey = true then none
      else cache.lookup? otherTable otherKey := by
  simp only [lookup?, evict, List.find?_filter, Bool.decide_and, Bool.decide_eq_true]
  split
  · rename_i place
    have gone : ∀ entry ∈ cache.entries,
        ¬(!entry.isFor table key && entry.isFor otherTable otherKey) = true := by
      intro entry _ kept
      simp only [Bool.and_eq_true, Bool.not_eq_true'] at kept
      have own := (CacheEntry.isFor_congr kept.2 table key).mpr
        ⟨place.1.symm, Item.same_symm place.2⟩
      simp [kept.1] at own
    rw [List.find?_eq_none.mpr gone]
    rfl
  · rename_i elsewhere
    have kept : (fun entry : CacheEntry =>
        !entry.isFor table key && entry.isFor otherTable otherKey) =
          fun entry => entry.isFor otherTable otherKey := by
      funext entry
      cases own : entry.isFor table key with
      | false => rfl
      | true =>
          cases hit : entry.isFor otherTable otherKey with
          | false => rfl
          | true => exact absurd ((CacheEntry.isFor_congr own otherTable otherKey).mp hit) elsewhere
    rw [kept]

theorem evict_insert (equal : key.same key = true) (response : Response) (cache : ResultCache) :
    (cache.insert table key response).evict table key = cache.evict table key := by
  have kept : ∀ entries : List CacheEntry,
      (insertEntry table key response entries).filter (fun entry => !entry.isFor table key) =
        entries.filter fun entry => !entry.isFor table key := by
    intro entries
    induction entries with
    | nil => simp [insertEntry, isFor_self equal]
    | cons entry rest ih =>
        simp only [insertEntry]
        split
        · rename_i own
          have same : CacheEntry.isFor { entry with response } table key = true := own
          simp [same, own]
        · rw [List.filter_cons, List.filter_cons, ih]
  simp only [evict, insert, kept]

end ResultCache

end KeyedStore
