import SysAdmin.ConfigTypes
import SysAdmin.SizeAgeBoundMap

/-!
# Buckets of in-flight items

The writes a client has staged and not yet committed are the *items* of its
*bucket*, in a table of buckets by client id (`LockedConfigPairMap`). The first
item opens the bucket; in a full table, this ages out the oldest bucket
(`victim`), locked or not. A lock is a flag of the bucket, and goes with it.

What one operation does to the table is said bucket by bucket: for the bucket it
is about (`bucket?_insertAll_self`) and for the others (`bucket?_insertAll_of_ne`).
-/

namespace SysAdmin

/-- Clients are told apart by numbers: the id of their connection, or the xid
    they ask for. -/
abbrev ClientId := Nat

/-- A bucket: its items, and whether it is locked. -/
structure LockedConfigPairList where
  locked : Bool
  list : ConfigPairList
  deriving DecidableEq

/-- The buckets of the clients, in a bounded map. An item opens a bucket, so no
    bucket is without items. -/
structure LockedConfigPairMap where
  storage : SizeAgeBoundMap ClientId LockedConfigPairList
  consistent : storage.Consistent
  nonempty : ∀ b l, storage.find? b = some l → l.list ≠ []

namespace LockedConfigPairMap

/-- The table without buckets. -/
def new (maxSize : Nat) : LockedConfigPairMap :=
  ⟨.new maxSize, SizeAgeBoundMap.consistent_new maxSize, nofun⟩

/-- Adds an item to a bucket, opening it first if there is none. -/
def insert (m : LockedConfigPairMap) (bucket : ClientId) (newItem : ConfigPair) :
    LockedConfigPairMap where
  storage :=
    let storage :=
      if m.storage.count bucket then m.storage else (m.storage.insert bucket ⟨false, []⟩).2
    storage.modify bucket fun b => { b with list := b.list ++ [newItem] }
  consistent := by
    dsimp only
    split
    · exact m.consistent.modify _
    · exact m.consistent.insert.modify _
  nonempty b l h := by
    dsimp only at h
    rw [SizeAgeBoundMap.find?_modify] at h
    split at h
    · obtain ⟨l', _, rfl⟩ := Option.map_eq_some_iff.1 h
      simp
    · next hb =>
      split at h
      · exact m.nonempty b l h
      · next hc =>
        have hn : m.storage.find? bucket = none := by
          simpa [SizeAgeBoundMap.count_eq_isSome_find?] using hc
        rw [SizeAgeBoundMap.find?_insert hn, if_neg hb] at h
        split at h
        · cases h
        · exact m.nonempty b l h

/-- Adds items to a bucket one by one. -/
def insertAll (m : LockedConfigPairMap) (bucket : ClientId) (items : ConfigPairList) :
    LockedConfigPairMap :=
  items.foldl (fun m item => m.insert bucket item) m

/-- The keys erasing `key` stands for: the key itself or, of a pattern, the keys
    of the database that match it, without those of `last.*` and `default.*`. -/
def erasedKeys (getAllKeys : ConfigKey → List ConfigKey) (key : ConfigKey) : List ConfigKey :=
  if key.isWildcard then (getAllKeys key).filter fun k => !(k.inLast || k.inDefault) else [key]

/-- Adds the erasing of a key, or of the keys of a pattern, to a bucket. -/
def erase (m : LockedConfigPairMap) (getAllKeys : ConfigKey → List ConfigKey) (bucket : ClientId)
    (key : ConfigKey) : LockedConfigPairMap :=
  m.insertAll bucket ((erasedKeys getAllKeys key).map .ofKey)

/-- Removes a bucket, if there is one. -/
def drop (m : LockedConfigPairMap) (bucket : ClientId) : LockedConfigPairMap where
  storage := if m.storage.count bucket then m.storage.erase bucket else m.storage
  consistent := by
    split
    · exact m.consistent.erase
    · exact m.consistent
  nonempty b l h := by
    split at h
    · rw [SizeAgeBoundMap.find?_erase m.consistent] at h
      split at h
      · cases h
      · exact m.nonempty b l h
    · exact m.nonempty b l h

/-- Locks a bucket, if there is one. -/
def lockBucket (m : LockedConfigPairMap) (bucket : ClientId) : LockedConfigPairMap where
  storage :=
    if m.storage.count bucket then m.storage.modify bucket fun b => { b with locked := true }
    else m.storage
  consistent := by
    split
    · exact m.consistent.modify _
    · exact m.consistent
  nonempty b l h := by
    split at h
    · rw [SizeAgeBoundMap.find?_modify] at h
      split at h
      · obtain ⟨l', hl, rfl⟩ := Option.map_eq_some_iff.1 h
        exact m.nonempty bucket l' hl
      · exact m.nonempty b l h
    · exact m.nonempty b l h

/-- The bucket of a client. -/
def bucket? (m : LockedConfigPairMap) (bucket : ClientId) : Option LockedConfigPairList :=
  m.storage.find? bucket

/-- Whether there is a bucket and it is locked. -/
def isBucketLocked (m : LockedConfigPairMap) (bucket : ClientId) : Bool :=
  (m.bucket? bucket).any LockedConfigPairList.locked

/-- Whether there is a bucket. -/
def «exists» (m : LockedConfigPairMap) (bucket : ClientId) : Bool := (m.bucket? bucket).isSome

/-- The items of a bucket. -/
def getBucket (m : LockedConfigPairMap) (bucket : ClientId) : Option ConfigPairList :=
  (m.bucket? bucket).map LockedConfigPairList.list

/-- The items staged in a bucket, none if there is no bucket. -/
def staged (m : LockedConfigPairMap) (bucket : ClientId) : ConfigPairList :=
  (m.getBucket bucket).getD []

/-- The bucket that opening another one ages out. -/
def victim (m : LockedConfigPairMap) : Option ClientId := m.storage.victim

variable {m : LockedConfigPairMap} {b c : ClientId} {item : ConfigPair} {items : ConfigPairList}

@[simp] theorem bucket?_new {n : Nat} : (new n).bucket? c = none := rfl

theorem isBucketLocked_of_some {l : LockedConfigPairList} (h : m.bucket? b = some l) :
    m.isBucketLocked b = l.locked := by simp [isBucketLocked, h]

theorem isBucketLocked_of_none (h : m.bucket? b = none) : m.isBucketLocked b = false := by
  simp [isBucketLocked, h]

theorem staged_of_some {l : LockedConfigPairList} (h : m.bucket? b = some l) :
    m.staged b = l.list := by simp [staged, getBucket, h]

theorem staged_of_none (h : m.bucket? b = none) : m.staged b = [] := by
  simp [staged, getBucket, h]

/-- Only a bucket that is there holds items. -/
theorem exists_of_mem_staged {item : ConfigPair} (h : item ∈ m.staged b) : m.exists b = true := by
  rcases hb : m.bucket? b with _ | l
  · rw [staged_of_none hb] at h
    cases h
  · simp [LockedConfigPairMap.exists, hb]

/-- An item comes behind those of its bucket, whether this is locked or not. -/
theorem bucket?_insert_self :
    (m.insert b item).bucket? b = some ⟨m.isBucketLocked b, m.staged b ++ [item]⟩ := by
  simp only [bucket?, insert, SizeAgeBoundMap.find?_modify, if_true]
  rcases Option.eq_none_or_eq_some (m.storage.find? b) with h | ⟨l, h⟩
  · rw [isBucketLocked_of_none h, staged_of_none h]
    simp [SizeAgeBoundMap.count_eq_isSome_find?, h, SizeAgeBoundMap.find?_insert h]
  · rw [isBucketLocked_of_some h, staged_of_some h]
    simp [SizeAgeBoundMap.count_eq_isSome_find?, h]

/-- Another bucket is only lost if a new one needs its place. -/
theorem bucket?_insert_of_ne (hc : c ≠ b) : (m.insert b item).bucket? c =
    if m.bucket? b = none ∧ m.victim = some c then none else m.bucket? c := by
  simp only [bucket?, insert, SizeAgeBoundMap.find?_modify, if_neg hc]
  rcases Option.eq_none_or_eq_some (m.storage.find? b) with h | ⟨l, h⟩
  · simp [SizeAgeBoundMap.count_eq_isSome_find?, h, SizeAgeBoundMap.find?_insert h, hc, victim]
  · simp [SizeAgeBoundMap.count_eq_isSome_find?, h]

@[simp] theorem insertAll_nil : m.insertAll b [] = m := rfl

theorem insertAll_cons :
    m.insertAll b (item :: items) = (m.insert b item).insertAll b items := rfl

/-- The bucket items are added to gets them at its end, and stays as locked as it was. -/
theorem bucket?_insertAll_self (h : items ≠ []) :
    (m.insertAll b items).bucket? b = some ⟨m.isBucketLocked b, m.staged b ++ items⟩ := by
  induction items generalizing m with
  | nil => exact absurd rfl h
  | cons item items ih =>
    rw [insertAll_cons]
    cases items with
    | nil => exact bucket?_insert_self
    | cons item' items =>
      rw [ih (by simp), isBucketLocked_of_some bucket?_insert_self,
        staged_of_some bucket?_insert_self]
      simp

/-- Of the other buckets, only the victim changes, if the bucket is opened. -/
theorem bucket?_insertAll_of_ne (hc : c ≠ b) : (m.insertAll b items).bucket? c =
    if m.bucket? b = none ∧ items ≠ [] ∧ m.victim = some c then none else m.bucket? c := by
  induction items generalizing m with
  | nil => simp
  | cons item items ih =>
    rw [insertAll_cons, ih, bucket?_insert_self, bucket?_insert_of_ne hc]
    simp

/-- Adding to an open bucket leaves the other buckets alone. -/
theorem bucket?_insertAll_of_open (hb : m.bucket? b ≠ none) (hc : c ≠ b) :
    (m.insertAll b items).bucket? c = m.bucket? c := by
  rw [bucket?_insertAll_of_ne hc, if_neg fun h => hb h.1]

theorem staged_insertAll_self : (m.insertAll b items).staged b = m.staged b ++ items := by
  by_cases h : items = []
  · simp [h]
  · rw [staged_of_some (bucket?_insertAll_self h)]

/-- Items that are staged after an insertion were there, or are inserted. -/
theorem mem_staged_insertAll (h : item ∈ (m.insertAll b items).staged c) :
    item ∈ m.staged c ∨ c = b ∧ item ∈ items := by
  by_cases hc : c = b
  · subst hc
    rw [staged_insertAll_self] at h
    exact (List.mem_append.1 h).imp_right fun hitem => ⟨rfl, hitem⟩
  · rw [staged, getBucket, bucket?_insertAll_of_ne hc] at h
    split at h
    · cases h
    · exact .inl h

theorem bucket?_drop :
    (m.drop b).bucket? c = if c = b then none else m.bucket? c := by
  simp only [drop, bucket?, SizeAgeBoundMap.count_eq_isSome_find?]
  rcases Option.eq_none_or_eq_some (m.storage.find? b) with h | ⟨l, h⟩
  · by_cases hc : c = b <;> simp [h, hc]
  · simp [h, SizeAgeBoundMap.find?_erase m.consistent]

/-- Locking changes no items. -/
theorem bucket?_lockBucket : (m.lockBucket b).bucket? c =
    if c = b then (m.bucket? b).map fun l => { l with locked := true } else m.bucket? c := by
  simp only [lockBucket, bucket?, SizeAgeBoundMap.count_eq_isSome_find?]
  rcases Option.eq_none_or_eq_some (m.storage.find? b) with h | ⟨l, h⟩
  · by_cases hc : c = b <;> simp [h, hc]
  · simp [SizeAgeBoundMap.find?_modify, h]

/-- A bucket is opened by its first item. -/
theorem list_ne_nil {l : LockedConfigPairList} (h : m.bucket? b = some l) : l.list ≠ [] :=
  m.nonempty b l h

end LockedConfigPairMap

end SysAdmin
