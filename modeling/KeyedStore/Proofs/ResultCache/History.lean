import Mathlib.Data.Set.Card
import KeyedStore.Proofs.ResultCache

/-! The read cache as a map from places to responses. A place is a table with a key, and two
places are one if the tables agree and the keys are equal as values. What is found at a place can
be read off what was done with the cache: it is the response of the last insert there, unless
the place was evicted or the cache cleared since. A key with not-a-number in it equals no key,
so that its entry is never found or evicted; where there is none, the entries are as many as the
places at which something is found. -/

namespace KeyedStore

namespace ResultCache

inductive Operation where
  | insert (table : String) (key : Item) (response : Response)
  | evict (table : String) (key : Item)
  | clear
  | enable
  | disable

def perform (cache : ResultCache) : Operation → ResultCache
  | .insert table key response => cache.insert table key response
  | .evict table key => cache.evict table key
  | .clear => cache.clear
  | .enable => cache.enable
  | .disable => cache.disable

def performAll (cache : ResultCache) (operations : List Operation) : ResultCache :=
  operations.foldl perform cache

theorem performAll_concat (cache : ResultCache) (operations : List Operation)
    (operation : Operation) :
    cache.performAll (operations ++ [operation]) =
      (cache.performAll operations).perform operation := by
  simp [performAll]

section Place

variable (table : String) (key : Item)

/-- An insert or an eviction of the table with a key equal to the given one, or a clear. -/
def Operation.Touches : Operation → Prop
  | insert ownTable ownKey _ => ownTable = table ∧ ownKey.same key = true
  | evict ownTable ownKey => ownTable = table ∧ ownKey.same key = true
  | clear => True
  | enable => False
  | disable => False

def Operation.Stores (response : Response) (operation : Operation) : Prop :=
  ∃ stored, operation = .insert table stored response ∧ stored.same key = true

/-- The last insert of the table with a key equal to the given one had this response, and the
place was neither evicted nor cleared after it. -/
def Holds (operations : List Operation) (response : Response) : Prop :=
  ∃ earlier store since, operations = earlier ++ store :: since ∧
    store.Stores table key response ∧ ∀ operation ∈ since, ¬operation.Touches table key

end Place

def placesLike (place : String × Item) : Set (String × Item) :=
  {other | place.1 = other.1 ∧ place.2.same other.2 = true}

/-- The classes of places at which the operations leave something to be found. -/
def heldPlaces (operations : List Operation) : Set (Set (String × Item)) :=
  {places | ∃ table key response, Holds table key operations response ∧
    places = placesLike (table, key)}

variable {table : String} {key : Item} {response : Response}

theorem Operation.Stores.touches {operation : Operation}
    (stores : operation.Stores table key response) : operation.Touches table key := by
  obtain ⟨stored, rfl, equal⟩ := stores
  exact ⟨rfl, equal⟩

theorem holds_concat_iff {operations : List Operation} {operation : Operation} :
    Holds table key (operations ++ [operation]) response ↔
      operation.Stores table key response ∨
        ¬operation.Touches table key ∧ Holds table key operations response := by
  constructor
  · rintro ⟨earlier, store, since, split, stores, untouched⟩
    -- The last operation is the insert itself, or it came after the insert and spared the place.
    rcases List.eq_nil_or_concat since with rfl | ⟨between, last, rfl⟩
    · obtain ⟨-, same⟩ := List.append_inj' split rfl
      obtain rfl : operation = store := by simpa using same
      exact .inl stores
    · have regrouped : operations ++ [operation] = (earlier ++ store :: between) ++ [last] := by
        simpa using split
      obtain ⟨front, same⟩ := List.append_inj' regrouped rfl
      obtain rfl : operation = last := by simpa using same
      exact .inr ⟨untouched _ (by simp), earlier, store, between, front, stores,
        fun other member => untouched other (by simp [member])⟩
  · rintro (stores | ⟨spared, earlier, store, since, split, stores, untouched⟩)
    · exact ⟨operations, operation, [], rfl, stores, by simp⟩
    · refine ⟨earlier, store, since ++ [operation], by simp [split], stores, ?_⟩
      intro other member
      rcases List.mem_append.mp member with inner | last
      · exact untouched other inner
      · rwa [List.mem_singleton.mp last]

/-! What one operation does to a look-up, and what many do from the empty cache. -/

theorem lookup?_perform_iff (operation : Operation) (cache : ResultCache) :
    (cache.perform operation).lookup? table key = some response ↔
      operation.Stores table key response ∨
        ¬operation.Touches table key ∧ cache.lookup? table key = some response := by
  cases operation with
  | insert ownTable ownKey stored =>
      rw [perform, lookup?_insert_eq]
      by_cases own : ownTable = table ∧ ownKey.same key = true
      · obtain ⟨rfl, equal⟩ := own
        simp [Operation.Stores, Operation.Touches, equal]
      · rw [if_neg own]
        have missed : ¬Operation.Stores table key response (.insert ownTable ownKey stored) :=
          fun stores => own stores.touches
        simp only [missed, false_or, Operation.Touches, own, not_false_eq_true, true_and]
  | evict ownTable ownKey =>
      rw [perform, lookup?_evict]
      by_cases own : ownTable = table ∧ ownKey.same key = true <;>
        simp [Operation.Stores, Operation.Touches, own]
  | clear => simp [perform, clear, lookup?, Operation.Stores, Operation.Touches]
  | enable => simp [perform, enable, lookup?, Operation.Stores, Operation.Touches]
  | disable => simp [perform, disable, lookup?, Operation.Stores, Operation.Touches]

theorem lookup?_perform_of_spared {operation : Operation}
    (spared : ¬operation.Touches table key) (cache : ResultCache) :
    (cache.perform operation).lookup? table key = cache.lookup? table key := by
  ext response
  rw [lookup?_perform_iff]
  constructor
  · rintro (stores | ⟨-, found⟩)
    · exact absurd stores.touches spared
    · exact found
  · exact fun found => .inr ⟨spared, found⟩

theorem lookup?_performAll_iff (operations : List Operation) :
    (empty.performAll operations).lookup? table key = some response ↔
      Holds table key operations response := by
  induction operations using List.reverseRecOn with
  | nil => simp [performAll, empty, lookup?, Holds]
  | append_singleton operations operation ih =>
      rw [performAll_concat, lookup?_perform_iff, holds_concat_iff, ih]

theorem lookup?_performAll_eq_none_iff (operations : List Operation) :
    (empty.performAll operations).lookup? table key = none ↔
      ∀ response, ¬Holds table key operations response := by
  simp only [← lookup?_performAll_iff, Option.eq_none_iff_forall_ne_some, ne_eq]

/-! The places of the entries. An insert adds its place at the end unless an entry is for it
already, so that no entry is for the place of another. -/

def places (cache : ResultCache) : List (String × Item) :=
  cache.entries.map fun entry => (entry.table, entry.key)

def Separate (cache : ResultCache) : Prop :=
  cache.places.Pairwise fun place other => other ∉ placesLike place

theorem places_insert (table : String) (key : Item) (response : Response) (cache : ResultCache) :
    (cache.insert table key response).places =
      cache.places ++
        if cache.entries.any (·.isFor table key) then [] else [(table, key)] := by
  have added : ∀ entries : List CacheEntry,
      (insertEntry table key response entries).map (fun entry => (entry.table, entry.key)) =
        entries.map (fun entry => (entry.table, entry.key)) ++
          if entries.any (·.isFor table key) then [] else [(table, key)] := by
    intro entries
    induction entries with
    | nil => rfl
    | cons entry rest ih =>
        rw [insertEntry]
        split
        · rename_i own
          simp [own]
        · rename_i foreign
          simp [foreign, ih]
  exact added cache.entries

theorem places_evict_sublist (table : String) (key : Item) (cache : ResultCache) :
    (cache.evict table key).places.Sublist cache.places :=
  List.filter_sublist.map _

theorem separate_perform (operation : Operation) {cache : ResultCache}
    (separate : cache.Separate) : (cache.perform operation).Separate := by
  cases operation with
  | insert table key response =>
      rw [Separate, perform, places_insert]
      split
      · rwa [List.append_nil]
      · rename_i absent
        refine List.pairwise_append.mpr ⟨separate, List.pairwise_singleton _ _, ?_⟩
        intro place member added last
        obtain ⟨entry, stored, rfl⟩ := List.mem_map.mp member
        rw [List.mem_singleton.mp last]
        intro own
        exact absent (List.any_eq_true.mpr ⟨entry, stored, CacheEntry.isFor_iff.mpr own⟩)
  | evict table key => exact separate.sublist (places_evict_sublist table key cache)
  | clear => exact List.Pairwise.nil
  | enable => exact separate
  | disable => exact separate

theorem separate_performAll (operations : List Operation) :
    (empty.performAll operations).Separate := by
  induction operations using List.reverseRecOn with
  | nil => exact List.Pairwise.nil
  | append_singleton operations operation ih =>
      rw [performAll_concat]
      exact separate_perform operation ih

theorem mem_places_perform {operation : Operation} {cache : ResultCache} {place : String × Item}
    (member : place ∈ (cache.perform operation).places) :
    (∃ response, operation = .insert place.1 place.2 response) ∨ place ∈ cache.places := by
  cases operation with
  | insert table key response =>
      rw [perform, places_insert] at member
      rcases List.mem_append.mp member with old | added
      · exact .inr old
      · split at added
        · simp at added
        · obtain rfl := List.mem_singleton.mp added
          exact .inl ⟨response, rfl⟩
  | evict table key => exact .inr ((places_evict_sublist table key cache).subset member)
  | clear => simp [perform, clear, places] at member
  | enable => exact .inr member
  | disable => exact .inr member

theorem exists_insert_of_mem_places {operations : List Operation} {place : String × Item}
    (member : place ∈ (empty.performAll operations).places) :
    ∃ response, .insert place.1 place.2 response ∈ operations := by
  induction operations using List.reverseRecOn with
  | nil => simp [performAll, empty, places] at member
  | append_singleton operations operation ih =>
      rw [performAll_concat] at member
      rcases mem_places_perform member with ⟨response, rfl⟩ | old
      · exact ⟨response, by simp⟩
      · obtain ⟨response, earlier⟩ := ih old
        exact ⟨response, by simp [earlier]⟩

/-! The number of entries. -/

theorem placesLike_congr {place other : String × Item} (one : other ∈ placesLike place) :
    placesLike place = placesLike other := by
  ext third
  obtain ⟨sameTable, sameKey⟩ := one
  simp only [placesLike, Set.mem_ofPred_eq, sameTable, Item.same_congr sameKey]

theorem exists_lookup?_of_mem_places {cache : ResultCache} {place : String × Item}
    (member : place ∈ cache.places) (equal : place.2.same place.2 = true) :
    ∃ response, cache.lookup? place.1 place.2 = some response := by
  obtain ⟨entry, stored, rfl⟩ := List.mem_map.mp member
  have hit : (cache.entries.find? (·.isFor entry.table entry.key)).isSome = true :=
    List.find?_isSome.mpr ⟨entry, stored, CacheEntry.isFor_iff.mpr ⟨rfl, equal⟩⟩
  -- What is found need not be this entry, only an entry for its place.
  obtain ⟨first, found⟩ := Option.isSome_iff_exists.mp hit
  exact ⟨first.response, by rw [lookup?, found]; rfl⟩

section Reflexive

variable {operations : List Operation}
  (reflexive : ∀ place ∈ (empty.performAll operations).places, place.2.same place.2 = true)

include reflexive

theorem mem_heldPlaces_iff {alike : Set (String × Item)} :
    alike ∈ heldPlaces operations ↔
      alike ∈ (empty.performAll operations).places.map placesLike := by
  constructor
  · rintro ⟨table, key, response, holds, rfl⟩
    have found := (lookup?_performAll_iff operations).mpr holds
    obtain ⟨entry, hit, -⟩ := Option.map_eq_some_iff.mp found
    have own := List.find?_some hit
    have stored := List.mem_map_of_mem (f := fun entry : CacheEntry => (entry.table, entry.key))
      (List.mem_of_find?_eq_some hit)
    exact List.mem_map.mpr ⟨_, stored, placesLike_congr (CacheEntry.isFor_iff.mp own)⟩
  · intro member
    obtain ⟨place, stored, rfl⟩ := List.mem_map.mp member
    obtain ⟨response, found⟩ := exists_lookup?_of_mem_places stored (reflexive place stored)
    exact ⟨place.1, place.2, response, (lookup?_performAll_iff operations).mp found, rfl⟩

theorem nodup_places_alike : ((empty.performAll operations).places.map placesLike).Nodup := by
  refine List.pairwise_map.mpr (List.Pairwise.imp_of_mem ?_ (separate_performAll operations))
  intro place other _ member apart alike
  have own : other ∈ placesLike other := ⟨rfl, reflexive other member⟩
  exact apart (alike ▸ own)

theorem encard_heldPlaces :
    (heldPlaces operations).encard = (empty.performAll operations).size := by
  classical
  have listed : heldPlaces operations =
      ((empty.performAll operations).places.map placesLike).toFinset := by
    ext alike
    rw [mem_heldPlaces_iff reflexive, Finset.mem_coe, List.mem_toFinset]
  rw [listed, Set.encard_coe_eq_coe_finsetCard,
    List.toFinset_card_of_nodup (nodup_places_alike reflexive), List.length_map, places,
    List.length_map, size]

end Reflexive

/-- What was done with a cache that was empty at first decides every look-up. No two entries are
for one place, an operation changes only the look-ups that it touches, and if no key inserted has
not-a-number in it, the size counts the places at which something is found. -/
theorem found_as_last_inserted (operations : List Operation) :
    let cache := empty.performAll operations
    (∀ table key response, cache.lookup? table key = some response ↔
        Holds table key operations response) ∧
      (∀ table key, cache.lookup? table key = none ↔
        ∀ response, ¬Holds table key operations response) ∧
      cache.entries.Pairwise (fun entry other =>
        ¬(entry.table = other.table ∧ entry.key.same other.key = true)) ∧
      (∀ (operation : Operation) table key, ¬operation.Touches table key →
        (cache.perform operation).lookup? table key = cache.lookup? table key) ∧
      ((∀ table key response, .insert table key response ∈ operations →
          .notANumber ∉ Value.fieldNumbers key) →
        (heldPlaces operations).encard = cache.size) := by
  refine ⟨fun _ _ _ => lookup?_performAll_iff operations,
    fun _ _ => lookup?_performAll_eq_none_iff operations,
    List.pairwise_map.mp (separate_performAll operations),
    fun _ _ _ spared => lookup?_perform_of_spared spared _, ?_⟩
  intro numeric
  apply encard_heldPlaces
  intro place stored
  obtain ⟨response, inserted⟩ := exists_insert_of_mem_places stored
  exact Item.same_self_iff.mpr (numeric _ _ _ inserted)

theorem found_as_last_inserted_at_zero :
    let zero (negative : Bool) : Item := [("id", .number (.finite (.zero negative)))]
    let operations : List Operation := [
      .insert "notes" (zero false) {}, .insert "marks" (zero false) {}, .disable,
      .insert "notes" (zero true) { pageCount := 1 }, .evict "marks" (zero true)]
    (∀ table key response, .insert table key response ∈ operations →
        .notANumber ∉ Value.fieldNumbers key) ∧
      Holds "notes" (zero false) operations { pageCount := 1 } ∧
      (∀ response, ¬Holds "marks" (zero false) operations response) ∧
      (heldPlaces operations).encard = 1 := by
  intro zero operations
  obtain ⟨found, missed, -, -, counted⟩ := found_as_last_inserted operations
  have numeric : ∀ table key response, .insert table key response ∈ operations →
      .notANumber ∉ Value.fieldNumbers key := by
    intro table key response member
    simp only [operations, List.mem_cons, Operation.insert.injEq, List.not_mem_nil, reduceCtorEq,
      or_false, false_or] at member
    rcases member with ⟨-, rfl, -⟩ | ⟨-, rfl, -⟩ | ⟨-, rfl, -⟩ <;>
      simp [zero, Value.fieldNumbers, Value.numbers]
  exact ⟨numeric, (found _ _ _).mp rfl, (missed _ _).mp rfl, counted numeric⟩

end ResultCache

end KeyedStore
