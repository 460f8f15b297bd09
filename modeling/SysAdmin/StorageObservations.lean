import SysAdmin.CommitSerializer
import SysAdmin.MemoryCache

/-!
# Reading the storage and reading the cache

The storage in the YAML files and the cache in memory answer the same questions. Items written
to both should make them give the same answers, but two things differ.

* Erasing a key without an entry leaves an entry of type `NULL` in its file. The storage reads
  it as an Empty pair where the cache has none.
* An empty list of bools is written as a null, and reading it throws.

Where no item leaves either (`Faithful`), `Get`, `GetAll` and `GetAllKeys` give the same
(`sameReads_iff`), and so does `TypeCheck` for plain keys. For a pattern, `TypeCheck` looks at
the first of the pairs it finds in an unordered map, which need not be the same one on both
sides: the answers are sure to be the same only if all values are of one type (`sameAnswers_iff`).
-/

namespace SysAdmin

namespace LocalYAMLStorage

/-! ## Reading the storage -/

variable (s : LocalYAMLStorage)

/-- The pair of a key, unless reading its entry throws. -/
def internalGet (key : ConfigKey) : Option (Option ConfigPair) :=
  match findEntry s.files (fileOf s.root key) (entryOf key) with
  | none => some none
  | some e => (valueFromYAML e.type e.value).map fun value => some ⟨key, value⟩

/-- The key of an entry. -/
def entryKey (root : Path) (e : Path × String × YamlEntry) : Option ConfigKey :=
  (translatePathToKey root e.1 e.2.1).map .ofString

/-- The keys of all entries that a pattern stands for. -/
def getAllKeys (ns : ConfigKey) : Option (List ConfigKey) :=
  (s.fileEntries.mapM (entryKey s.root)).map fun keys => keys.filter fun k => k.subkeyMatches ns

/-- The pair of a key, or those of the keys of a pattern. -/
def get (key : ConfigKey) : Option ConfigPairMap :=
  if key.isWildcard then do
    let subKeys ← s.getAllKeys key
    let pairs ← subKeys.mapM s.internalGet
    return ConfigPairMap.empty.emplaceAll (pairs.filterMap id)
  else do
    let res ← s.internalGet key
    return ConfigPairMap.empty.emplaceAll res.toList

end LocalYAMLStorage

/-- A pair that an unordered map may iterate first, none if there are no pairs. -/
def IsSinglePair (m : ConfigPairMap) : Option ConfigPair → Prop
  | none => m.pairs = []
  | some p => p ∈ m.pairs

/-- The answer of `TypeCheck`, given the pair that it finds. -/
def typeCheckAgainst (comp : ConfigPair) : Option ConfigPair → Bool
  | none => true
  | some existing => existing.value.typeCheck comp.value

/-- A key that the translation to a path leads back to. It needs a subkey to name an entry. -/
structure Translatable (root : Path) (k : ConfigKey) : Prop where
  nonempty : k.subKeys ≠ []
  roundTrips : RoundTrips root k

/-- A key to read: a pattern, or one that the translation to a path leads back to. -/
def Observable (root : Path) (k : ConfigKey) : Prop := k.isWildcard = true ∨ Translatable root k

/-- The storage and the cache hold the same pairs and the same keys. -/
structure SameReads (s : LocalYAMLStorage) (c : MemoryCache) : Prop where
  get : ∀ k, Observable s.root k → ∃ m, s.get k = some m ∧ ∀ k', m.find? k' = (c.get k).find? k'
  getAll : ∃ m, s.getAll = some m ∧ ∀ k, m.find? k = c.getAll.find? k
  getAllKeys : ∀ ns : ConfigKey, ns.isWildcard = true →
    ∃ keys, s.getAllKeys ns = some keys ∧ ∀ k, k ∈ keys ↔ k ∈ c.getAllKeys ns

/-- The storage and the cache answer `TypeCheck` alike, whichever pair they look at. -/
def SameTypeCheck (s : LocalYAMLStorage) (c : MemoryCache) (comp : ConfigPair) : Prop :=
  ∃ m, s.get comp.key = some m ∧ ∀ existing existing', IsSinglePair m existing →
    IsSinglePair (c.get comp.key) existing' →
      typeCheckAgainst comp existing = typeCheckAgainst comp existing'

/-- The storage and the cache give the same answers to every question. -/
structure SameAnswers (s : LocalYAMLStorage) (c : MemoryCache) : Prop where
  reads : SameReads s c
  typeCheck : ∀ comp : ConfigPair, Observable s.root comp.key → SameTypeCheck s c comp

/-! ## What the items leave -/

/-- The items under a key. -/
def itemsOf (items : ConfigPairList) (k : ConfigKey) : ConfigPairList :=
  items.filter fun item => item.key = k

/-- How many pairs at the end are Empty. -/
def emptyAtEnd (l : ConfigPairList) : Nat := (l.reverse.takeWhile fun p => p.value.empty).length

/-- How many items erase a key after the last one that sets it. -/
def erasesAtEnd (items : ConfigPairList) (k : ConfigKey) : Nat := emptyAtEnd (itemsOf items k)

/-- The items of a key leave an entry of type `NULL`: it is erased an odd number of times and
    never set, or after it has been set an even number of times, but not never. -/
def LeavesNull (items : ConfigPairList) (k : ConfigKey) : Prop :=
  if (itemsOf items k).all fun item => item.value.empty then erasesAtEnd items k % 2 = 1
  else erasesAtEnd items k ≠ 0 ∧ erasesAtEnd items k % 2 = 0

/-- The items of a key end with an empty list of bools. -/
def LeavesEmptyBoolList (items : ConfigPairList) (k : ConfigKey) : Prop :=
  ((itemsOf items k).getLast?.map fun item => item.value.value) = some (.boollist [])

/-- No items of a key leave what the storage does not read as the cache does. -/
def Faithful (items : ConfigPairList) : Prop :=
  ∀ item ∈ items, ¬LeavesNull items item.key ∧ ¬LeavesEmptyBoolList items item.key

/-- The values that the items leave are of one type. -/
def OneType (items : ConfigPairList) : Prop :=
  ∀ k k' v v', Writes.lastWrite k items.writes = some (some v) →
    Writes.lastWrite k' items.writes = some (some v') → v.typeCheck v' = true

instance (items : ConfigPairList) (k : ConfigKey) : Decidable (LeavesNull items k) :=
  inferInstanceAs (Decidable (ite _ _ _))

instance (items : ConfigPairList) (k : ConfigKey) : Decidable (LeavesEmptyBoolList items k) :=
  inferInstanceAs (Decidable (_ = _))

instance (items : ConfigPairList) : Decidable (Faithful items) :=
  inferInstanceAs (Decidable (∀ item ∈ items, _))

section

variable {items l : ConfigPairList} {item p : ConfigPair} {k : ConfigKey}

theorem mem_itemsOf : p ∈ itemsOf items k ↔ p ∈ items ∧ p.key = k := by
  simp [itemsOf]

theorem exists_getLast?_itemsOf (h : item ∈ items) :
    ∃ p, (itemsOf items item.key).getLast? = some p := by
  have hne : itemsOf items item.key ≠ [] := List.ne_nil_of_mem (mem_itemsOf.2 ⟨h, rfl⟩)
  exact ⟨_, List.getLast?_eq_some_getLast hne⟩

theorem key_of_getLast?_itemsOf (h : (itemsOf items k).getLast? = some p) :
    p ∈ items ∧ p.key = k :=
  mem_itemsOf.1 (List.mem_of_getLast? h)

/-- The last item of a key is the last write to it. -/
theorem lastWrite_writes_itemsOf :
    Writes.lastWrite k items.writes = (itemsOf items k).getLast?.map fun p => p.value.toOption := by
  induction items using List.reverseRecOn with
  | nil => rfl
  | append_singleton items p ih =>
    by_cases hk : p.key = k
    · simp [ConfigPairList.writes, ConfigPair.toWrite, Writes.lastWrite_append, Writes.lastWrite,
        itemsOf, hk]
    · simp [ConfigPairList.writes, ConfigPair.toWrite, Writes.lastWrite_append, Writes.lastWrite,
        itemsOf, hk] at ih ⊢
      exact ih

theorem emptyAtEnd_append_singleton :
    emptyAtEnd (l ++ [p]) = if p.value.empty then emptyAtEnd l + 1 else 0 := by
  rw [emptyAtEnd, List.reverse_append, List.reverse_singleton, List.singleton_append,
    List.takeWhile_cons]
  split <;> simp [emptyAtEnd]

/-- The pairs of a key leave an entry in its file. -/
def EntryLeft (l : ConfigPairList) : Prop :=
  emptyAtEnd l % 2 = if l.all fun p => p.value.empty then 1 else 0

instance : Decidable (EntryLeft l) := inferInstanceAs (Decidable (_ = _))

theorem not_entryLeft_nil : ¬EntryLeft [] := by decide

/-- Setting a key leaves an entry, and erasing it takes the entry away, or leaves one if
    there is none. -/
theorem entryLeft_append_singleton :
    EntryLeft (l ++ [p]) ↔ (p.value.empty = true → ¬EntryLeft l) := by
  rw [EntryLeft, EntryLeft, emptyAtEnd_append_singleton, List.all_append, List.all_cons,
    List.all_nil, Bool.and_true]
  cases p.value.empty with
  | false => simp
  | true =>
    simp only [Bool.and_true, if_true, true_implies]
    split <;> omega

theorem foldl_entryAfter_eq : l.foldl LocalYAMLStorage.entryAfter none =
    if EntryLeft l then l.getLast?.map unpackIntoYAML else none := by
  induction l using List.reverseRecOn with
  | nil => rfl
  | append_singleton l p ih =>
    rw [List.foldl_append, List.foldl_cons, List.foldl_nil, ih, LocalYAMLStorage.entryAfter,
      List.getLast?_concat]
    simp only [entryLeft_append_singleton]
    by_cases h : EntryLeft l
    · have hne : l ≠ [] := fun hnil => not_entryLeft_nil (hnil ▸ h)
      cases hp : p.value.empty <;> simp [h, List.getLast?_eq_some_getLast hne]
    · cases hp : p.value.empty <;> simp [h]

theorem emptyAtEnd_ne_zero_iff (h : l.getLast? = some p) :
    emptyAtEnd l ≠ 0 ↔ p.value.empty = true := by
  obtain ⟨l, rfl⟩ := List.getLast?_eq_some_iff.1 h
  rw [emptyAtEnd_append_singleton]
  split <;> simp [*]

theorem leavesNull_iff (h : (itemsOf items k).getLast? = some p) :
    LeavesNull items k ↔ p.value.empty = true ∧ EntryLeft (itemsOf items k) := by
  rw [LeavesNull, ← emptyAtEnd_ne_zero_iff h, ← erasesAtEnd, EntryLeft, ← erasesAtEnd]
  split
  · refine ⟨fun hodd => ⟨fun hzero => ?_, hodd⟩, And.right⟩
    rw [hzero] at hodd
    cases hodd
  · rfl

theorem entryLeft_of_not_empty (h : l.getLast? = some p) (hp : p.value.empty = false) :
    EntryLeft l := by
  obtain ⟨l, rfl⟩ := List.getLast?_eq_some_iff.1 h
  rw [entryLeft_append_singleton, hp]
  nofun

/-- The entry that the items of a key leave, if there are any. -/
theorem foldl_entryAfter_itemsOf (h : (itemsOf items k).getLast? = some p) :
    (itemsOf items k).foldl LocalYAMLStorage.entryAfter none =
      if p.value.empty = true ∧ ¬LeavesNull items k then none else some (unpackIntoYAML p) := by
  rw [foldl_entryAfter_eq, h, Option.map_some]
  simp only [leavesNull_iff h]
  cases hp : p.value.empty with
  | false => simp [entryLeft_of_not_empty h hp]
  | true => by_cases hleft : EntryLeft (itemsOf items k) <;> simp [hleft]

end

/-! ## Items written to both -/

/-- The storage after items have been written to an empty directory. -/
def storageOf (root : Path) (items : ConfigPairList) : LocalYAMLStorage :=
  (LocalYAMLStorage.new root).groupSet items

/-- The cache after the same items. -/
def cacheOf (root : Path) (items : ConfigPairList) : MemoryCache :=
  (MemoryCache.onEmpty root).updateItems items

section

open LocalYAMLStorage

variable {root : Path} {items : ConfigPairList} {item p : ConfigPair} {k ns : ConfigKey}
  {v : ConfigValue} {f : Path} {n : String} {e : YamlEntry}

theorem store_cacheOf : (cacheOf root items).store k =
    ((itemsOf items k).getLast?.map fun p => p.value.toOption).getD none := by
  rw [cacheOf, MemoryCache.store_updateItems, Writes.overlay, lastWrite_writes_itemsOf]
  rfl

theorem store_cacheOf_of_getLast? (h : (itemsOf items k).getLast? = some p) :
    (cacheOf root items).store k = p.value.toOption := by
  rw [store_cacheOf, h]
  rfl

theorem find?_cacheOf : (cacheOf root items).values.find? k =
    ((cacheOf root items).store k).map fun v => ⟨k, v⟩ :=
  MemoryCache.find?_values

theorem findEntry_storageOf (hi : ∀ p ∈ items, Translatable root p.key)
    (hk : RoundTrips root k) :
    findEntry (storageOf root items).files (fileOf root k) (entryOf k) =
      (itemsOf items k).foldl entryAfter none :=
  findEntry_groupSet (s := .new root) hk fun p hp => (hi p hp).roundTrips

/-- An entry is at the place of the key of an item. -/
theorem exists_item_of_findEntry (h : findEntry (storageOf root items).files f n = some e) :
    ∃ p ∈ items, f = fileOf root p.key ∧ n = entryOf p.key := by
  have hwritten : WrittenFor (· ∈ items) root (storageOf root items).files :=
    WrittenFor.groupSet (s := .new root) nofun fun _ hp => hp
  obtain ⟨p, hp, hf, hn, _⟩ := hwritten f n e h
  exact ⟨p, hp, hf, hn⟩

/-- The entries, and where they are. -/
theorem mem_fileEntries_storageOf (hi : ∀ p ∈ items, Translatable root p.key)
    (h : (f, n, e) ∈ (storageOf root items).fileEntries) :
    ∃ k p, Translatable root k ∧ f = fileOf root k ∧ n = entryOf k ∧
      (itemsOf items k).getLast? = some p ∧ (p.value.empty = true → LeavesNull items k) ∧
        e = unpackIntoYAML p := by
  have hentry := mem_fileEntries.1 h
  obtain ⟨item, hitem, rfl, rfl⟩ := exists_item_of_findEntry hentry
  obtain ⟨p, hp⟩ := exists_getLast?_itemsOf hitem
  rw [findEntry_storageOf hi (hi item hitem).roundTrips, foldl_entryAfter_itemsOf hp] at hentry
  split at hentry
  · cases hentry
  · next hleft =>
    refine ⟨item.key, p, hi item hitem, rfl, rfl, hp, fun hempty => ?_,
      (Option.some.inj hentry).symm⟩
    exact not_not.1 fun hnull => hleft ⟨hempty, hnull⟩

/-- Reading the keys of all entries throws nothing, and gives the keys with an entry. -/
theorem exists_getAllKeys_storageOf (hi : ∀ p ∈ items, Translatable root p.key) (ns : ConfigKey) :
    ∃ keys, (storageOf root items).getAllKeys ns = some keys ∧
      ∀ k, k ∈ keys ↔ k.subkeyMatches ns = true ∧ ∃ p, (itemsOf items k).getLast? = some p ∧
        (p.value.empty = true → LeavesNull items k) := by
  have hroot : (storageOf root items).root = root := rfl
  -- The path and the entry of each key are read as this key again.
  have hkey : ∀ k, Translatable root k → ∀ e, entryKey root (fileOf root k, entryOf k, e) =
      some k := fun k hk e => hk.roundTrips
  have hread : ∀ x ∈ (storageOf root items).fileEntries, ∃ k, entryKey root x = some k := by
    rintro ⟨f, n, e⟩ hx
    obtain ⟨k, _, hk, rfl, rfl, _⟩ := mem_fileEntries_storageOf hi hx
    exact ⟨k, hkey k hk e⟩
  obtain ⟨keys, hkeys, hmem⟩ := exists_mapM_eq_some hread
  refine ⟨keys.filter fun k => k.subkeyMatches ns, ?_, fun k => ?_⟩
  · rw [getAllKeys, hroot, hkeys, Option.map_some]
  · rw [List.mem_filter, hmem, and_comm]
    refine and_congr_right fun _ => ?_
    constructor
    · rintro ⟨⟨f, n, e⟩, hx, hkx⟩
      obtain ⟨k', p, hk', rfl, rfl, hp, hnull, _⟩ := mem_fileEntries_storageOf hi hx
      rw [hkey k' hk' e] at hkx
      obtain rfl := Option.some.inj hkx
      exact ⟨p, hp, hnull⟩
    · rintro ⟨p, hp, hnull⟩
      obtain ⟨hpi, rfl⟩ := key_of_getLast?_itemsOf hp
      have hentry : findEntry (storageOf root items).files (fileOf root p.key) (entryOf p.key) =
          some (unpackIntoYAML p) := by
        rw [findEntry_storageOf hi (hi p hpi).roundTrips, foldl_entryAfter_itemsOf hp, if_neg]
        exact fun h => h.2 (hnull h.1)
      exact ⟨_, mem_fileEntries.2 hentry, hkey _ (hi p hpi) _⟩

/-! ### Faithful items -/

/-- The last item of a key is read back, and leaves an entry if it sets the key. -/
theorem Faithful.of_getLast? (h : Faithful items) (hp : (itemsOf items k).getLast? = some p) :
    ¬LeavesNull items k ∧ ValueRoundTrips p.value := by
  obtain ⟨hpi, rfl⟩ := key_of_getLast?_itemsOf hp
  obtain ⟨hnull, hbools⟩ := h p hpi
  refine ⟨hnull, valueRoundTrips_iff.2 fun hvalue => hbools ?_⟩
  rw [LeavesEmptyBoolList, hp, Option.map_some, hvalue]

/-- A key is read from the storage as it is read from the cache. -/
theorem Faithful.internalGet (h : Faithful items) (hi : ∀ p ∈ items, Translatable root p.key)
    (hk : RoundTrips root k) :
    (storageOf root items).internalGet k = some ((cacheOf root items).internalGet k) := by
  have hroot : (storageOf root items).root = root := rfl
  rw [LocalYAMLStorage.internalGet, MemoryCache.internalGet, find?_cacheOf, hroot,
    findEntry_storageOf hi hk]
  cases hlast : (itemsOf items k).getLast? with
  | none =>
    rw [List.getLast?_eq_none_iff.1 hlast, store_cacheOf, hlast]
    rfl
  | some p =>
    obtain ⟨hnull, hvalue⟩ := h.of_getLast? hlast
    rw [foldl_entryAfter_itemsOf hlast, store_cacheOf_of_getLast? hlast]
    cases hempty : p.value.empty with
    | true =>
      rw [if_pos ⟨rfl, hnull⟩, ConfigValue.toOption_of_empty hempty]
      rfl
    | false =>
      rw [if_neg (by simp), ConfigValue.toOption_of_not_empty hempty]
      simp only [valueFromYAML_unpackIntoYAML hvalue, Option.map_some]

theorem Faithful.exists_getAllKeys (h : Faithful items)
    (hi : ∀ p ∈ items, Translatable root p.key) (ns : ConfigKey) :
    ∃ keys, (storageOf root items).getAllKeys ns = some keys ∧
      ∀ k, k ∈ keys ↔ k ∈ (cacheOf root items).getAllKeys ns := by
  obtain ⟨keys, hkeys, hmem⟩ := exists_getAllKeys_storageOf hi ns
  refine ⟨keys, hkeys, fun k => ?_⟩
  rw [hmem, MemoryCache.mem_getAllKeys, and_comm]
  refine and_congr_left fun _ => ?_
  constructor
  · rintro ⟨p, hp, hleft⟩
    rw [store_cacheOf_of_getLast? hp]
    cases hempty : p.value.empty with
    -- An Empty value has left no entry, by the condition on the items.
    | true => exact absurd (hleft hempty) (h.of_getLast? hp).1
    | false => exact ⟨_, ConfigValue.toOption_of_not_empty hempty⟩
  · rintro ⟨v, hv⟩
    rw [store_cacheOf] at hv
    cases hlast : (itemsOf items k).getLast? with
    | none =>
      rw [hlast] at hv
      cases hv
    | some p =>
      refine ⟨p, rfl, fun hempty => ?_⟩
      rw [hlast, Option.map_some, Option.getD_some, ConfigValue.toOption_of_empty hempty] at hv
      cases hv

/-- The files hold only what can be found back. -/
theorem Faithful.written (h : Faithful items) (hi : ∀ p ∈ items, Translatable root p.key) :
    Written root (storageOf root items).files := by
  intro f n e he
  obtain ⟨k, p, hk, rfl, rfl, hp, _, rfl⟩ :=
    mem_fileEntries_storageOf hi (mem_fileEntries.2 he)
  obtain ⟨_, rfl⟩ := key_of_getLast?_itemsOf hp
  exact ⟨p, ⟨hk.roundTrips, (h.of_getLast? hp).2⟩, rfl, rfl, rfl⟩

theorem Faithful.diskStore_eq (h : Faithful items) (hi : ∀ p ∈ items, Translatable root p.key) :
    (storageOf root items).diskStore = (cacheOf root items).store := by
  have hroot : (storageOf root items).root = root := rfl
  funext k
  rw [diskStore, hroot]
  cases hlast : (itemsOf items k).getLast? with
  | none =>
    rw [store_cacheOf, hlast]
    split
    · next hk =>
      rw [findEntry_storageOf hi hk, List.getLast?_eq_none_iff.1 hlast]
      rfl
    · rfl
  | some p =>
    obtain ⟨hpi, rfl⟩ := key_of_getLast?_itemsOf hlast
    obtain ⟨hnull, hvalue⟩ := h.of_getLast? hlast
    have hk := (hi p hpi).roundTrips
    rw [if_pos hk, findEntry_storageOf hi hk, foldl_entryAfter_itemsOf hlast,
      store_cacheOf_of_getLast? hlast]
    cases hempty : p.value.empty with
    | true =>
      rw [if_pos ⟨rfl, hnull⟩, ConfigValue.toOption_of_empty hempty]
      rfl
    | false => rw [if_neg (by simp), decode_unpackIntoYAML hvalue]

theorem Faithful.exists_getAll (h : Faithful items) (hi : ∀ p ∈ items, Translatable root p.key) :
    ∃ m, (storageOf root items).getAll = some m ∧
      ∀ k, m.find? k = (cacheOf root items).getAll.find? k := by
  obtain ⟨m, hm, hvalues⟩ := getAll_eq (h.written hi)
  refine ⟨m, hm, fun k => ?_⟩
  rw [MemoryCache.find?_getAll, find?_cacheOf, ← h.diskStore_eq hi, ← hvalues]
  cases hv : m.values k with
  | none => exact ConfigPairMap.values_eq_none_iff.1 hv
  | some v => exact ConfigPairMap.values_eq_some_iff.1 hv

theorem translatable_of_store (hi : ∀ p ∈ items, Translatable root p.key)
    (hv : (cacheOf root items).store k = some v) : Translatable root k := by
  rw [store_cacheOf] at hv
  cases hlast : (itemsOf items k).getLast? with
  | none =>
    rw [hlast] at hv
    cases hv
  | some p =>
    obtain ⟨hpi, rfl⟩ := key_of_getLast?_itemsOf hlast
    exact hi p hpi

theorem Faithful.exists_get (h : Faithful items) (hi : ∀ p ∈ items, Translatable root p.key)
    (hk : Observable root k) : ∃ m, (storageOf root items).get k = some m ∧
      ∀ k', m.find? k' = ((cacheOf root items).get k).find? k' := by
  rw [LocalYAMLStorage.get]
  cases hw : k.isWildcard with
  | false =>
    have hroundTrips : RoundTrips root k := by
      rcases hk with hk | hk
      · rw [hw] at hk
        cases hk
      · exact hk.roundTrips
    rw [if_neg (by simp), h.internalGet hi hroundTrips]
    exact ⟨_, rfl, fun k' => by simp [MemoryCache.get, hw]⟩
  | true =>
    -- The keys are listed in the order of the files, and read one by one.
    obtain ⟨keys, hkeys, hmem⟩ := h.exists_getAllKeys hi k
    have hread : keys.mapM (storageOf root items).internalGet =
        some (keys.map (cacheOf root items).internalGet) := by
      refine (congrArg _ (List.map_id keys).symm).trans (mapM_map_eq_some fun k' hk' => ?_)
      obtain ⟨v, hv⟩ := (MemoryCache.mem_getAllKeys.1 ((hmem k').1 hk')).1
      exact h.internalGet hi (translatable_of_store hi hv).roundTrips
    refine ⟨_, by rw [if_pos rfl, hkeys, Option.bind_eq_bind, Option.bind_some, hread]; rfl,
      fun k' => ?_⟩
    rw [MemoryCache.find?_get_wildcard hw, ← MemoryCache.find?_filterMap_internalGet hmem,
      List.filterMap_map]
    rfl

theorem Faithful.sameReads (h : Faithful items) (hi : ∀ p ∈ items, Translatable root p.key) :
    SameReads (storageOf root items) (cacheOf root items) where
  get _ hk := h.exists_get hi hk
  getAll := h.exists_getAll hi
  getAllKeys ns _ := h.exists_getAllKeys hi ns

/-! ### Items that are not faithful -/

/-- An entry of type `NULL` is a key of the storage, but not of the cache. -/
theorem SameReads.not_leavesNull (h : SameReads (storageOf root items) (cacheOf root items))
    (hi : ∀ p ∈ items, Translatable root p.key) (hitem : item ∈ items) :
    ¬LeavesNull items item.key := by
  intro hnull
  obtain ⟨p, hp⟩ := exists_getLast?_itemsOf hitem
  obtain ⟨keys, hkeys, hmem⟩ := exists_getAllKeys_storageOf hi (.ofString "*")
  obtain ⟨keys', hkeys', hmem'⟩ := h.getAllKeys (.ofString "*") (by decide)
  obtain rfl : keys = keys' := Option.some.inj (hkeys.symm.trans hkeys')
  have hkey : item.key ∈ keys :=
    (hmem _).2 ⟨ConfigKey.subkeyMatches_all (hi item hitem).nonempty, p, hp, fun _ => hnull⟩
  obtain ⟨v, hv⟩ := (MemoryCache.mem_getAllKeys.1 ((hmem' _).1 hkey)).1
  rw [store_cacheOf_of_getLast? hp,
    ConfigValue.toOption_of_empty ((leavesNull_iff hp).1 hnull).1] at hv
  cases hv

theorem valueFromYAML_of_emptyBoolList (hv : v.value = .boollist []) :
    v.empty = false ∧ valueFromYAML v.typeToString (dynamicUnpack v) = none := by
  obtain ⟨value, empty, hempty⟩ := v
  cases empty with
  | true =>
    cases hempty rfl
    cases hv
  | false =>
    obtain rfl : value = .boollist [] := hv
    exact ⟨rfl, rfl⟩

/-- An empty list of bools cannot be read with the other entries. -/
theorem SameReads.not_leavesEmptyBoolList
    (h : SameReads (storageOf root items) (cacheOf root items))
    (hi : ∀ p ∈ items, Translatable root p.key) (hitem : item ∈ items) :
    ¬LeavesEmptyBoolList items item.key := by
  intro hbools
  obtain ⟨p, hp, hvalue⟩ := Option.map_eq_some_iff.1 hbools
  obtain ⟨m, hm, _⟩ := h.getAll
  obtain ⟨pairs, hpairs, _⟩ := Option.map_eq_some_iff.1 hm
  obtain ⟨hempty, hthrows⟩ := valueFromYAML_of_emptyBoolList hvalue
  have hentry : findEntry (storageOf root items).files (fileOf root item.key)
      (entryOf item.key) = some (unpackIntoYAML p) := by
    rw [findEntry_storageOf hi (hi item hitem).roundTrips, foldl_entryAfter_itemsOf hp, if_neg]
    simp [hempty]
  have hread := isSome_mapM_iff.1 (Option.isSome_iff_exists.2 ⟨pairs, hpairs⟩) _
    (mem_fileEntries.2 hentry)
  obtain ⟨q, hq⟩ := Option.isSome_iff_exists.1 hread
  obtain ⟨_, _, hq⟩ := Option.bind_eq_some_iff.1 hq
  obtain ⟨value, hvalue, _⟩ := Option.bind_eq_some_iff.1 hq
  rw [unpackIntoYAML, hthrows] at hvalue
  cases hvalue

/-- Reading the storage gives what reading the cache gives exactly if the items
    are faithful. -/
theorem sameReads_iff (hi : ∀ p ∈ items, Translatable root p.key) :
    SameReads (storageOf root items) (cacheOf root items) ↔ Faithful items :=
  ⟨fun h _ hitem => ⟨h.not_leavesNull hi hitem, h.not_leavesEmptyBoolList hi hitem⟩,
    fun h => h.sameReads hi⟩

/-! ### Type checks -/

theorem isSinglePair_congr {m m' : ConfigPairMap} (h : ∀ k, m.find? k = m'.find? k)
    {existing : Option ConfigPair} : IsSinglePair m existing ↔ IsSinglePair m' existing := by
  have hmem : ∀ p, p ∈ m.pairs ↔ p ∈ m'.pairs := fun p => by
    rw [ConfigPairMap.mem_pairs, ConfigPairMap.mem_pairs, h]
  cases existing with
  | none => simp only [IsSinglePair, List.eq_nil_iff_forall_not_mem, hmem]
  | some p => exact hmem p

/-- Where the storage is read as the cache is, `TypeCheck` is sure to answer alike if it does
    not matter which of the pairs it finds. -/
theorem sameTypeCheck_iff {s : LocalYAMLStorage} {c : MemoryCache} {comp : ConfigPair}
    (h : SameReads s c) (hk : Observable s.root comp.key) :
    SameTypeCheck s c comp ↔ ∀ p ∈ (c.get comp.key).pairs, ∀ q ∈ (c.get comp.key).pairs,
      p.value.typeCheck comp.value = q.value.typeCheck comp.value := by
  obtain ⟨m, hm, hfind⟩ := h.get comp.key hk
  rw [SameTypeCheck, hm]
  simp only [Option.some.injEq, exists_eq_left', isSinglePair_congr hfind]
  constructor
  · exact fun hsame p hp q hq => hsame (some p) (some q) hp hq
  · rintro hsame (_ | p) (_ | q) hp hq
    · rfl
    · have hq : q ∈ (c.get comp.key).pairs := hq
      rw [show (c.get comp.key).pairs = [] from hp] at hq
      cases hq
    · have hp : p ∈ (c.get comp.key).pairs := hp
      rw [show (c.get comp.key).pairs = [] from hq] at hp
      cases hp
    · exact hsame p hp q hq

/-- Reading a plain key finds one pair at most. -/
theorem SameReads.sameTypeCheck_plain {s : LocalYAMLStorage} {c : MemoryCache} {comp : ConfigPair}
    (h : SameReads s c) (hk : Translatable s.root comp.key)
    (hplain : comp.key.isWildcard = false) : SameTypeCheck s c comp := by
  refine (sameTypeCheck_iff h (.inr hk)).2 fun p hp q hq => ?_
  rw [MemoryCache.pairs_get hplain] at hp hq
  cases hv : c.store comp.key with
  | none =>
    rw [hv] at hp
    cases hp
  | some v =>
    rw [hv] at hp hq
    rw [List.mem_singleton.1 hp, List.mem_singleton.1 hq]

theorem store_cacheOf_eq_some_iff : (cacheOf root items).store k = some v ↔
    Writes.lastWrite k items.writes = some (some v) := by
  rw [cacheOf, MemoryCache.store_updateItems, Writes.overlay_apply]
  cases Writes.lastWrite k items.writes with
  | none => exact iff_of_false nofun nofun
  | some w => rw [Option.getD_some, Option.some.injEq]

theorem mem_pairs_get_star (hi : ∀ p ∈ items, Translatable root p.key)
    (hv : (cacheOf root items).store k = some v) :
    ⟨k, v⟩ ∈ ((cacheOf root items).get (.ofString "*")).pairs := by
  rw [ConfigPairMap.mem_pairs, MemoryCache.find?_get_wildcard (by decide),
    if_pos (ConfigKey.subkeyMatches_all (translatable_of_store hi hv).nonempty), find?_cacheOf, hv]
  rfl

/-- What reading a key finds is in the store. -/
theorem store_of_mem_pairs_get {c : MemoryCache} (hp : p ∈ (c.get k).pairs) :
    c.store p.key = some p.value := by
  cases hw : k.isWildcard with
  | false =>
    rw [MemoryCache.pairs_get hw] at hp
    obtain ⟨v, hv, rfl⟩ := List.mem_map.1 hp
    exact Option.mem_toList.1 hv
  | true =>
    rw [ConfigPairMap.mem_pairs, MemoryCache.find?_get_wildcard hw] at hp
    split at hp
    · exact ConfigPairMap.values_eq_some_iff.2 hp
    · cases hp

/-- A pattern may stand for any two keys with values. -/
theorem forall_sameTypeCheck_iff (hi : ∀ p ∈ items, Translatable root p.key)
    (h : SameReads (storageOf root items) (cacheOf root items)) :
    (∀ comp : ConfigPair, Observable root comp.key →
      SameTypeCheck (storageOf root items) (cacheOf root items) comp) ↔ OneType items := by
  constructor
  · intro hall k k' v v' hv hv'
    have hstar : Observable root (ConfigPair.mk (.ofString "*") v').key := .inl rfl
    have hsame := (sameTypeCheck_iff h hstar).1 (hall ⟨.ofString "*", v'⟩ hstar) ⟨k, v⟩
      (mem_pairs_get_star hi (store_cacheOf_eq_some_iff.2 hv)) ⟨k', v'⟩
      (mem_pairs_get_star hi (store_cacheOf_eq_some_iff.2 hv'))
    exact hsame.trans (by simp [ConfigValue.typeCheck])
  · intro hone comp hk
    refine (sameTypeCheck_iff h hk).2 fun p hp q hq => ?_
    have hpq := hone _ _ _ _ (store_cacheOf_eq_some_iff.1 (store_of_mem_pairs_get hp))
      (store_cacheOf_eq_some_iff.1 (store_of_mem_pairs_get hq))
    rw [ConfigValue.typeCheck, beq_iff_eq] at hpq
    rw [ConfigValue.typeCheck, hpq, ConfigValue.typeCheck]

/-- The answers for plain keys. -/
structure SamePlainAnswers (s : LocalYAMLStorage) (c : MemoryCache) : Prop where
  reads : SameReads s c
  typeCheck : ∀ comp : ConfigPair, Translatable s.root comp.key → comp.key.isWildcard = false →
    SameTypeCheck s c comp

/-- An item that erases a key which is not there. -/
theorem not_sameAnswers_eraseAbsent :
    ¬∀ (root : Path) (items : ConfigPairList), (∀ p ∈ items, Translatable root p.key) →
      SameAnswers (storageOf root items) (cacheOf root items) := by
  intro h
  have hsame := h "/s".toList [.ofKey (.ofString "a.b")] (by
    rw [List.forall_mem_singleton]
    exact ⟨by decide, by decide⟩)
  obtain ⟨keys, hkeys, hmem⟩ := hsame.reads.getAllKeys (.ofString "a.*") (by decide)
  have hstorage : (storageOf "/s".toList [.ofKey (.ofString "a.b")]).getAllKeys (.ofString "a.*") =
      some [.ofString "a.b"] := by decide
  have hcache : (cacheOf "/s".toList [.ofKey (.ofString "a.b")]).getAllKeys (.ofString "a.*") =
      [] := by decide
  obtain rfl := Option.some.inj (hstorage.symm.trans hkeys)
  rw [hcache] at hmem
  exact absurd ((hmem (.ofString "a.b")).1 (List.mem_singleton.2 rfl)) List.not_mem_nil

/-- Items written to both leave the same answers exactly if they are faithful and, for type
    checks of patterns, their values are of one type. -/
theorem sameAnswers_iff (root : Path) (items : ConfigPairList)
    (hi : ∀ p ∈ items, Translatable root p.key) :
    (SamePlainAnswers (storageOf root items) (cacheOf root items) ↔ Faithful items) ∧
      (SameAnswers (storageOf root items) (cacheOf root items) ↔
        Faithful items ∧ OneType items) := by
  refine ⟨⟨fun h => (sameReads_iff hi).1 h.reads, fun h => ?_⟩, fun h => ?_, fun h => ?_⟩
  · have hreads := h.sameReads hi
    exact ⟨hreads, fun comp hk hplain => hreads.sameTypeCheck_plain hk hplain⟩
  · exact ⟨(sameReads_iff hi).1 h.reads, (forall_sameTypeCheck_iff hi h.reads).1 h.typeCheck⟩
  · have hreads := h.1.sameReads hi
    exact ⟨hreads, (forall_sameTypeCheck_iff hi hreads).2 h.2⟩

/-- A key that is set, erased and set again, and one that is set and erased. -/
def rewrittenItems : ConfigPairList :=
  [.ofInt32 "a.b" 1, .ofInt32 "a.c" 2, .ofKey (.ofString "a.b"), .ofKey (.ofString "a.c"),
    .ofInt32 "a.b" 3]

theorem translatable_rewrittenItems : ∀ p ∈ rewrittenItems, Translatable "/s".toList p.key := by
  have hkeys : ∀ p ∈ rewrittenItems, p.key = .ofString "a.b" ∨ p.key = .ofString "a.c" := by
    decide
  intro p hp
  rcases hkeys p hp with h | h
  · rw [h]
    exact ⟨by decide, by decide⟩
  · rw [h]
    exact ⟨by decide, by decide⟩

theorem sameAnswers_iff_rewrittenItems :
    SamePlainAnswers (storageOf "/s".toList rewrittenItems) (cacheOf "/s".toList rewrittenItems) :=
  (sameAnswers_iff "/s".toList rewrittenItems translatable_rewrittenItems).1.2 (by decide)

end

end SysAdmin
