import SysAdmin.LocalYAMLStorage

/-!
# The live store

`MemoryCache` keeps all pairs of the store in memory and writes through to the
storage on disk. It is loaded from the storage once, when the daemon starts, and
answers every read by itself afterwards.

The pairs it holds are never Empty: writing Empty to a key removes the key. The
*live store* is the map from keys to values they make up (`store`), on which a
commit writes what was staged (`store_commit`).
-/

namespace SysAdmin

open Writes

/-- The pairs in memory, with the storage below. -/
structure MemoryCache where
  backingStore : LocalYAMLStorage
  values : ConfigPairMap
  inFlightItems : LockedConfigPairMap
  not_empty : ∀ k p, values.find? k = some p → p.value.empty = false

namespace MemoryCache

/-- The cache of a storage, loaded with all it holds, unless that throws. -/
def new (backingStore : LocalYAMLStorage) : Option MemoryCache :=
  match h : backingStore.getAll with
  | none => none
  | some values => some ⟨backingStore, values, .new 100,
      fun _ _ => LocalYAMLStorage.not_empty_of_getAll h⟩

/-- The cache of a storage on an empty directory. -/
def onEmpty (root : Path) : MemoryCache := ⟨.new root, .empty, .new 100, nofun⟩

/-- Stages an item. -/
def set (c : MemoryCache) (value : ConfigPair) (id : ClientId) : MemoryCache :=
  { c with inFlightItems := c.inFlightItems.insert id value }

/-- The pair of a key. -/
def internalGet (c : MemoryCache) (key : ConfigKey) : Option ConfigPair := c.values.find? key

/-- The keys a pattern stands for. -/
def getAllKeys (c : MemoryCache) (ns : ConfigKey) : List ConfigKey :=
  (c.values.pairs.filter fun p => p.key.subkeyMatches ns).map ConfigPair.key

/-- The pair of a key, or those of the keys of a pattern. -/
def get (c : MemoryCache) (key : ConfigKey) : ConfigPairMap :=
  if key.isWildcard then ConfigPairMap.empty.emplaceAll ((c.getAllKeys key).filterMap c.internalGet)
  else ConfigPairMap.empty.emplaceAll (c.internalGet key).toList

/-- Whether a pair has the type of the pair it would replace, if there is one. -/
def typeCheck (c : MemoryCache) (comp : ConfigPair) : Bool :=
  match unwrapSinglePair (c.get comp.key) with
  | none => true
  | some existing => existing.value.typeCheck comp.value

/-- All pairs. -/
def getAll (c : MemoryCache) : ConfigPairMap := ConfigPairMap.empty.emplaceAll c.values.pairs

/-- Replaces the pair of a key, or removes it for an Empty value. -/
def updateItem (c : MemoryCache) (item : ConfigPair) : MemoryCache :=
  let erased := if c.values.count item.key then c.values.erase item.key else c.values
  { c with
    values := if !item.value.empty then erased.emplace item else erased
    not_empty := fun k p h => by
      have herased : ∀ k p, erased.find? k = some p → p.value.empty = false := by
        intro k p h
        dsimp only [erased] at h
        split at h
        · rw [ConfigPairMap.find?_erase] at h
          split at h
          · cases h
          · exact c.not_empty k p h
        · exact c.not_empty k p h
      split at h
      · next hv =>
        rcases Option.eq_none_or_eq_some (erased.find? item.key) with hi | ⟨q, hi⟩
        · rw [ConfigPairMap.find?_emplace hi] at h
          split at h
          · cases h
            simpa using hv
          · exact herased k p h
        · rw [ConfigPairMap.emplace_of_count (by simp [ConfigPairMap.count, hi])] at h
          exact herased k p h
      · exact herased k p h }

/-- Updates items one by one. -/
def updateItems (c : MemoryCache) (items : ConfigPairList) : MemoryCache :=
  items.foldl updateItem c

/-- Discards what is staged. -/
def drop (c : MemoryCache) (id : ClientId) : MemoryCache :=
  { c with inFlightItems := c.inFlightItems.drop id }

/-- Stages an item in the storage. -/
def setBacking (c : MemoryCache) (id : ClientId) (item : ConfigPair) : MemoryCache :=
  { c with backingStore := c.backingStore.set item id }

/-- Writes what is staged, in memory and then through to the storage. Callers
    stage something first, or there is no bucket to get. -/
def commit (c : MemoryCache) (id : ClientId) : MemoryCache :=
  let toCommit := (c.inFlightItems.getBucket id).getD []
  let c := c.updateItems toCommit
  let c := toCommit.foldl (fun c item => c.setBacking id item) c
  let c := c.drop id
  { c with backingStore := c.backingStore.commit id }

/-- Stages items and commits them, as callers do. -/
def setAndCommit (c : MemoryCache) (id : ClientId) (items : ConfigPairList) : MemoryCache :=
  (items.foldl (fun c item => c.set item id) c).commit id

/-- Nothing is staged. -/
def Quiet (c : MemoryCache) : Prop := ∀ id, c.inFlightItems.bucket? id = none

/-- The live store: the values by their keys. -/
def store (c : MemoryCache) : ConfigKey → Option ConfigValue := c.values.values

variable {c : MemoryCache} {k : ConfigKey} {v : ConfigValue} {id : ClientId}
  {items : ConfigPairList} {item : ConfigPair}

theorem find?_values : c.values.find? k = (c.store k).map fun v => ⟨k, v⟩ := by
  rcases h : c.store k with _ | v
  · exact ConfigPairMap.values_eq_none_iff.1 h
  · exact ConfigPairMap.values_eq_some_iff.1 h

theorem not_empty_of_store (h : c.store k = some v) : v.empty = false :=
  c.not_empty k ⟨k, v⟩ (ConfigPairMap.values_eq_some_iff.1 h)

/-! ## Reading -/

theorem mem_getAllKeys {ns : ConfigKey} :
    k ∈ c.getAllKeys ns ↔ (∃ v, c.store k = some v) ∧ k.subkeyMatches ns = true := by
  simp only [getAllKeys, List.mem_map, List.mem_filter, ConfigPairMap.mem_pairs, find?_values]
  constructor
  · rintro ⟨p, ⟨hp, hm⟩, rfl⟩
    exact ⟨(Option.map_eq_some_iff.1 hp).imp fun v hv => hv.1, hm⟩
  · rintro ⟨⟨v, hv⟩, hm⟩
    exact ⟨⟨k, v⟩, ⟨by simp [hv], hm⟩, rfl⟩

/-- Reading a plain key gives its pair, if it has a value. -/
theorem pairs_get (hk : k.isWildcard = false) :
    (c.get k).pairs = (c.store k).toList.map fun v => ⟨k, v⟩ := by
  simp only [get, hk, Bool.false_eq_true, if_false, internalGet, find?_values]
  rcases c.store k with _ | v <;> rfl

theorem unwrapSinglePair_get (hk : k.isWildcard = false) :
    unwrapSinglePair (c.get k) = (c.store k).map fun v => ⟨k, v⟩ := by
  rw [unwrapSinglePair, pairs_get hk]
  rcases c.store k with _ | v <;> rfl

theorem typeCheck_iff (hk : item.key.isWildcard = false) :
    c.typeCheck item = true ↔ ∀ v, c.store item.key = some v → v.typeCheck item.value = true := by
  rw [typeCheck, unwrapSinglePair_get hk]
  rcases c.store item.key with _ | v <;> simp

/-- The pairs of keys, read one by one. -/
theorem find?_filterMap_internalGet {ns : ConfigKey} {keys : List ConfigKey}
    (hmem : ∀ k, k ∈ keys ↔ k ∈ c.getAllKeys ns) :
    (ConfigPairMap.empty.emplaceAll (keys.filterMap c.internalGet)).find? k =
      if k.subkeyMatches ns then c.values.find? k else none := by
  have hpairs : ∀ p, p ∈ keys.filterMap c.internalGet ↔
      p.key.subkeyMatches ns = true ∧ c.values.find? p.key = some p := by
    intro p
    rw [List.mem_filterMap]
    constructor
    · rintro ⟨k, hk, hp⟩
      obtain rfl : p.key = k := ConfigPairMap.key_of_find? hp
      exact ⟨(mem_getAllKeys.1 ((hmem _).1 hk)).2, hp⟩
    · rintro ⟨hmatch, hp⟩
      refine ⟨p.key, (hmem _).2 (mem_getAllKeys.2 ⟨⟨p.value, ?_⟩, hmatch⟩), hp⟩
      exact ConfigPairMap.values_eq_some_iff.2 hp
  -- A key that is listed twice is read as the same pair.
  have hu : ∀ p ∈ keys.filterMap c.internalGet, ∀ q ∈ keys.filterMap c.internalGet,
      p.key = q.key → p = q := by
    intro p hp q hq hkey
    have hpq := ((hpairs p).1 hp).2
    rw [hkey, ((hpairs q).1 hq).2] at hpq
    exact (Option.some.inj hpq).symm
  rw [ConfigPairMap.find?_emplaceAll, ConfigPairMap.find?_empty, Option.none_or]
  ext p
  rw [ConfigPairMap.find?_key_eq_some_iff hu, hpairs]
  constructor
  · rintro ⟨⟨hmatch, hp⟩, rfl⟩
    rwa [if_pos hmatch]
  · intro hp
    split at hp
    · next hmatch =>
      obtain rfl := ConfigPairMap.key_of_find? hp
      exact ⟨⟨hmatch, hp⟩, rfl⟩
    · cases hp

/-- Reading a pattern gives the pairs of the keys it stands for. -/
theorem find?_get_wildcard {ns : ConfigKey} (hns : ns.isWildcard = true) :
    (c.get ns).find? k = if k.subkeyMatches ns then c.values.find? k else none := by
  simp only [get, hns, if_true]
  exact find?_filterMap_internalGet fun _ => Iff.rfl

theorem find?_getAll : c.getAll.find? k = c.values.find? k := by
  have hu : ∀ p ∈ c.values.pairs, ∀ q ∈ c.values.pairs, p.key = q.key → p = q := by
    intro p hp q hq hk
    exact Option.some.inj ((ConfigPairMap.mem_pairs.1 hp).symm.trans
      (hk ▸ ConfigPairMap.mem_pairs.1 hq))
  rw [getAll, ConfigPairMap.find?_emplaceAll, ConfigPairMap.find?_empty, Option.none_or]
  ext p
  rw [ConfigPairMap.find?_key_eq_some_iff hu, ConfigPairMap.mem_pairs]
  constructor
  · rintro ⟨hp, rfl⟩
    exact hp
  · intro h
    obtain rfl := ConfigPairMap.key_of_find? h
    exact ⟨h, rfl⟩

/-! ## Writing -/

theorem store_updateItem :
    (c.updateItem item).store = Function.update c.store item.key item.value.toOption := by
  -- Whether there was a pair or not, the key is free afterwards.
  have herased : (if c.values.count item.key then c.values.erase item.key else c.values).values =
      Function.update c.store item.key none := by
    funext k
    rcases Option.eq_none_or_eq_some (c.values.find? item.key) with h | ⟨p, h⟩
    · have : c.store item.key = none := ConfigPairMap.values_eq_none_iff.2 h
      simp only [ConfigPairMap.count, h, Option.isSome_none, Bool.false_eq_true, if_false]
      rw [← this, Function.update_eq_self, store]
    · by_cases hk : k = item.key <;>
        simp [ConfigPairMap.count, h, ConfigPairMap.values, ConfigPairMap.find?_erase, hk, store]
  simp only [updateItem, store]
  generalize (if c.values.count item.key then c.values.erase item.key else c.values) = erased at *
  cases hv : item.value.empty with
  | true => simp [ConfigValue.toOption_of_empty hv, herased, store]
  | false =>
    have hnone : erased.find? item.key = none :=
      ConfigPairMap.values_eq_none_iff.1 (by rw [herased]; simp)
    rw [ConfigValue.toOption_of_not_empty hv]
    funext k
    by_cases hk : k = item.key
    · simp [ConfigPairMap.values, ConfigPairMap.find?_emplace hnone, hk]
    · have := congrFun herased k
      simp only [Function.update_of_ne hk] at this ⊢
      simpa [ConfigPairMap.values, ConfigPairMap.find?_emplace hnone, hk, store] using this

/-- Updating items writes them to the live store. -/
theorem store_updateItems : (c.updateItems items).store = overlay items.writes c.store := by
  induction items generalizing c with
  | nil => rfl
  | cons item items ih =>
    rw [updateItems, List.foldl_cons, ← updateItems, ih, store_updateItem]
    exact (overlay_cons item.toWrite).symm

theorem backingStore_updateItems : (c.updateItems items).backingStore = c.backingStore := by
  induction items generalizing c with
  | nil => rfl
  | cons item items ih => exact ih

theorem inFlightItems_updateItems : (c.updateItems items).inFlightItems = c.inFlightItems := by
  induction items generalizing c with
  | nil => rfl
  | cons item items ih => exact ih

/-- Staging in the storage only changes its buckets. -/
theorem foldl_setBacking : items.foldl (fun c item => c.setBacking id item) c =
    { c with backingStore := { c.backingStore with
        inFlightItems := c.backingStore.inFlightItems.insertAll id items } } := by
  induction items generalizing c with
  | nil => rfl
  | cons item items ih => rw [List.foldl_cons, ih]; rfl

/-- Staging items only changes the buckets. -/
theorem foldl_set : items.foldl (fun c item => c.set item id) c =
    { c with inFlightItems := c.inFlightItems.insertAll id items } := by
  induction items generalizing c with
  | nil => rfl
  | cons item items ih => rw [List.foldl_cons, ih]; rfl

/-- A commit writes what is staged to the live store. -/
theorem store_commit :
    (c.commit id).store = overlay (c.inFlightItems.staged id).writes c.store := by
  simp only [commit, foldl_setBacking]
  exact store_updateItems

/-- A commit ends with the bucket dropped. -/
theorem inFlightItems_commit : (c.commit id).inFlightItems = c.inFlightItems.drop id := by
  simp only [commit, foldl_setBacking, drop, inFlightItems_updateItems]

/-- A commit stages its items in the storage and commits them there. -/
theorem backingStore_commit : (c.commit id).backingStore =
    { c.backingStore with inFlightItems :=
        c.backingStore.inFlightItems.insertAll id (c.inFlightItems.staged id) }.commit id := by
  simp only [commit, foldl_setBacking, drop, backingStore_updateItems]
  rfl

/-! ## Staging and committing -/

theorem quiet_onEmpty {root : Path} : (onEmpty root).Quiet := fun _ => rfl

/-- What a commit finds staged is the items that were staged for it. -/
theorem Quiet.staged_insertAll (h : c.Quiet) :
    (c.inFlightItems.insertAll id items).staged id = items := by
  rw [LockedConfigPairMap.staged_insertAll_self, LockedConfigPairMap.staged_of_none (h id),
    List.nil_append]

/-- The items are written to the live store. -/
theorem store_setAndCommit (h : c.Quiet) :
    (c.setAndCommit id items).store = overlay items.writes c.store := by
  rw [setAndCommit, foldl_set, store_commit]
  simp only [h.staged_insertAll]
  rfl

/-- The storage stages the items behind what it kept, and writes all of it. -/
theorem backingStore_setAndCommit (h : c.Quiet) : (c.setAndCommit id items).backingStore =
    { c.backingStore with
      inFlightItems := c.backingStore.inFlightItems.insertAll id items }.groupSet
        (c.backingStore.inFlightItems.staged id ++ items) := by
  rw [setAndCommit, foldl_set, backingStore_commit]
  -- The storage commits what it kept from before, and these items behind.
  simp only [h.staged_insertAll, LocalYAMLStorage.commit]
  rw [← LockedConfigPairMap.staged_insertAll_self]
  rfl

/-- After the commit nothing is staged again. -/
theorem Quiet.setAndCommit (h : c.Quiet) : (c.setAndCommit id items).Quiet := by
  intro x
  rw [MemoryCache.setAndCommit, foldl_set, inFlightItems_commit, LockedConfigPairMap.bucket?_drop]
  split
  · rfl
  · next hx => simp [LockedConfigPairMap.bucket?_insertAll_of_ne hx, h x]

end MemoryCache

end SysAdmin
