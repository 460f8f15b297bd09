import Mathlib.Data.List.Dedup
import Mathlib.Data.List.Sort
import SysAdmin.Foundation.Path
import SysAdmin.Foundation.Writes
import SysAdmin.LockedConfigPairMap

/-!
# The store on disk

`LocalYAMLStorage` keeps the pairs in YAML files below a root directory. All
subkeys of a key but the last one make up the path of its file, and the last one
is the name of its entry there; an entry records the type of the value beside the
value. `getAll` goes the other way, from all files back to keys and values.

Files and YAML documents give back what was written to them: a file is the
document in it, and a scalar keeps its type. Reading a node as a type it does not
have throws an exception (`none`).

The *disk* maps a key to the value that can be read back for it (`diskStore`).
For keys that survive the translation to a path and back (`RoundTrips`) and
values that survive theirs (`ValueRoundTrips`), `groupSet` writes to the disk
(`diskStore_groupSet`) and `getAll` reads it (`getAll_eq`).
-/

namespace SysAdmin

open Writes

/-! ## YAML documents -/

/-- A scalar of a document, which keeps the type it was written with. -/
inductive YamlScalar
  | int32 (v : Int32)
  | string (v : String)
  | bool (v : Bool)
  deriving DecidableEq

/-- A node holding a value. -/
inductive YamlNode
  | null
  | scalar (v : YamlScalar)
  | sequence (vs : List YamlScalar)
  deriving DecidableEq

/-- An entry of a file: the name of the type and the value. -/
structure YamlEntry where
  type : String
  value : YamlNode
  deriving DecidableEq

/-- A file: a map from names to entries. A file without entries may also be empty. -/
abbrev YamlDoc := AList fun _ : String => YamlEntry

namespace YamlScalar

/-- Reading a scalar as an int32. -/
def asInt32 : YamlScalar → Option Int32
  | int32 v => some v
  | _ => none

/-- Reading a scalar as a string. -/
def asString : YamlScalar → Option String
  | string v => some v
  | _ => none

/-- Reading a scalar as a bool. -/
def asBool : YamlScalar → Option Bool
  | bool v => some v
  | _ => none

end YamlScalar

namespace YamlNode

/-- Reading a node as a scalar. -/
def asScalar {α : Type} (as : YamlScalar → Option α) : YamlNode → Option α
  | scalar v => as v
  | _ => none

/-- Reading a node as a vector. -/
def asVector {α : Type} (as : YamlScalar → Option α) : YamlNode → Option (List α)
  | sequence vs => vs.mapM as
  | _ => none

end YamlNode

/-! ## Reading lists -/

section

variable {α β : Type} {f : α → Option β} {l : List α}

/-- Reading a list reads its elements, one by one. -/
theorem mapM_eq_some_iff {ys : List β} :
    l.mapM f = some ys ↔ List.Forall₂ (fun x y => f x = some y) l ys := by
  induction l generalizing ys with
  | nil => simp [eq_comm]
  | cons x l ih =>
    rw [List.mapM_cons, List.forall₂_cons_left_iff]
    simp only [Option.bind_eq_bind, Option.bind_eq_some_iff, Option.pure_def, Option.some.injEq]
    constructor
    · rintro ⟨y, hy, ys, hys, rfl⟩
      exact ⟨y, ys, hy, ih.1 hys, rfl⟩
    · rintro ⟨y, ys, hy, hys, rfl⟩
      exact ⟨y, hy, ys, ih.2 hys, rfl⟩

/-- Reading what was written for each element. -/
theorem mapM_map_eq_some {γ : Type} {g : γ → α} {h : γ → β} {zs : List γ}
    (hread : ∀ z ∈ zs, f (g z) = some (h z)) : (zs.map g).mapM f = some (zs.map h) := by
  rw [mapM_eq_some_iff, List.forall₂_map_left_iff, List.forall₂_map_right_iff]
  exact List.forall₂_same.2 hread

/-- Reading what was written for each element gives the elements back. -/
theorem mapM_map_self {g : β → α} {ys : List β} (h : ∀ y ∈ ys, f (g y) = some y) :
    (ys.map g).mapM f = some ys := by
  rw [mapM_map_eq_some h, List.map_id']

/-- What is read is related to the list, element by element, if this is so of each element. -/
theorem exists_mapM_forall₂_iff {R : β → α → Prop} :
    (∃ ys, l.mapM f = some ys ∧ List.Forall₂ R ys l) ↔ ∀ x ∈ l, ∃ y, f x = some y ∧ R y x := by
  simp only [mapM_eq_some_iff]
  induction l with
  | nil => simp
  | cons x l ih =>
    rw [List.forall_mem_cons, ← ih]
    constructor
    · rintro ⟨_, hread, hR⟩
      obtain ⟨y, ys, hy, hys, rfl⟩ := List.forall₂_cons_left_iff.1 hread
      rw [List.forall₂_cons] at hR
      exact ⟨⟨y, hy, hR.1⟩, ys, hys, hR.2⟩
    · rintro ⟨⟨y, hy, hRy⟩, ys, hys, hRys⟩
      exact ⟨y :: ys, .cons hy hys, .cons hRy hRys⟩

theorem isSome_mapM_iff : (l.mapM f).isSome ↔ ∀ x ∈ l, (f x).isSome := by
  induction l with
  | nil => simp
  | cons x l ih =>
    rw [List.forall_mem_cons, ← ih, List.mapM_cons]
    cases f x <;> cases l.mapM f <;> simp

/-- What is read is what the elements give. -/
theorem mem_iff_of_mapM_eq_some {ys : List β} (h : l.mapM f = some ys) {y : β} :
    y ∈ ys ↔ ∃ x ∈ l, f x = some y := by
  rw [mapM_eq_some_iff] at h
  induction h with
  | nil => simp
  | cons hx _ ih => simp [ih, hx, eq_comm]

/-- If reading throws nowhere, what is read is what the entries give. -/
theorem exists_mapM_eq_some (h : ∀ x ∈ l, ∃ y, f x = some y) :
    ∃ ys, l.mapM f = some ys ∧ ∀ y, y ∈ ys ↔ ∃ x ∈ l, f x = some y := by
  obtain ⟨ys, hys⟩ := Option.isSome_iff_exists.1
    (isSome_mapM_iff.2 fun x hx => Option.isSome_iff_exists.2 (h x hx))
  exact ⟨ys, hys, fun y => mem_iff_of_mapM_eq_some hys⟩

end

/-- The value a node holds for the type named; an unknown type loses the value. -/
def valueFromYAML (type : String) (node : YamlNode) : Option ConfigValue :=
  if type = "int32" then (node.asScalar YamlScalar.asInt32).map fun v => .ofType (.int32 v)
  else if type = "string" then (node.asScalar YamlScalar.asString).map fun v => .ofType (.string v)
  else if type = "bool" then (node.asScalar YamlScalar.asBool).map fun v => .ofType (.bool v)
  else if type = "int32list" then
    (node.asVector YamlScalar.asInt32).map fun v => .ofType (.int32list v)
  else if type = "stringlist" then
    (node.asVector YamlScalar.asString).map fun v => .ofType (.stringlist v)
  else if type = "boollist" then
    (node.asVector YamlScalar.asBool).map fun v => .ofType (.boollist v)
  else some .none

/-- The encoding of a list of bools starts from a null node, which only becomes a
    sequence with its first element. -/
def encodeBoolList (v : List Bool) : YamlNode :=
  if v = [] then .null else .sequence (v.map .bool)

/-- The node of a value, null for Empty. -/
def dynamicUnpack (v : ConfigValue) : YamlNode :=
  if v.empty then .null
  else match v.value with
    | .int32 v => .scalar (.int32 v)
    | .string v => .scalar (.string v)
    | .bool v => .scalar (.bool v)
    | .int32list v => .sequence (v.map .int32)
    | .stringlist v => .sequence (v.map .string)
    | .boollist v => encodeBoolList v

/-- The entry of a pair. -/
def unpackIntoYAML (p : ConfigPair) : YamlEntry := ⟨p.value.typeToString, dynamicUnpack p.value⟩

/-! ## Paths of keys -/

/-- The file of a key, relative to the root, and the name of its entry there. -/
def translateKeyToPathPair (key : ConfigKey) : Path × String :=
  let elems := key.subKeys
  let output : Path := elems.dropLast.foldl (fun output elem => output.append elem.toList) []
  let output := if output = [] then output.append "global".toList else output
  (output.replaceExtension ".yaml".toList, elems.getLast?.getD "")

/-- The text of the key with the entry `bottomLevelKey` in the file `valuepath`. -/
def translatePathToKey (rootpath valuepath : Path) (bottomLevelKey : String) : Option String :=
  (eraseFound rootpath (valuepath.replaceExtension [])).map fun rootStripped =>
    let elems := (rootStripped.splitOn '/').filter fun e => e ≠ [] ∧ e ≠ "global".toList
    String.ofList (elems.flatMap fun e => e ++ ['.']) ++ bottomLevelKey

/-- The file of a key below the root. -/
def fileOf (root : Path) (key : ConfigKey) : Path := root.below (translateKeyToPathPair key).1

/-- The name of the entry of a key. -/
def entryOf (key : ConfigKey) : String := (translateKeyToPathPair key).2

/-- The key found back at the place of `key` is `key`. -/
def RoundTrips (root : Path) (key : ConfigKey) : Prop :=
  (translatePathToKey root (fileOf root key) (entryOf key)).map .ofString = some key

instance (root : Path) (key : ConfigKey) : Decidable (RoundTrips root key) :=
  inferInstanceAs (Decidable (_ = _))

/-- The value found back in the entry of `value` is `value`. -/
def ValueRoundTrips (value : ConfigValue) : Prop :=
  valueFromYAML value.typeToString (dynamicUnpack value) = some value

instance (value : ConfigValue) : Decidable (ValueRoundTrips value) :=
  inferInstanceAs (Decidable (_ = _))

/-- Keys that are found back share no entry. -/
theorem RoundTrips.inj {root : Path} {k k' : ConfigKey} (h : RoundTrips root k)
    (h' : RoundTrips root k') (hf : fileOf root k = fileOf root k') (he : entryOf k = entryOf k') :
    k = k' := by
  rw [RoundTrips, hf, he, h'] at h
  exact (Option.some.inj h).symm

/-! ## The storage -/

/-- The store in the YAML files below `root`. -/
structure LocalYAMLStorage where
  root : Path
  files : AList fun _ : Path => YamlDoc
  inFlightItems : LockedConfigPairMap

namespace LocalYAMLStorage

/-- The storage on an empty directory. -/
def new (root : Path) : LocalYAMLStorage := ⟨root, ∅, .new 100⟩

/-- Stages an item. -/
def set (s : LocalYAMLStorage) (value : ConfigPair) (id : ClientId) : LocalYAMLStorage :=
  { s with inFlightItems := s.inFlightItems.insert id value }

/-- Discards what is staged. -/
def drop (s : LocalYAMLStorage) (id : ClientId) : LocalYAMLStorage :=
  { s with inFlightItems := s.inFlightItems.drop id }

/-- The document in a file, empty if there is no file. -/
def loadOrCreate (files : AList fun _ : Path => YamlDoc) (path : Path) : YamlDoc :=
  (files.lookup path).getD ∅

/-- Puts an item into a document. Erasing an entry that is not there leaves an
    entry of type `NULL`. -/
def putItem (config : YamlDoc) (item : String × ConfigPair) : YamlDoc :=
  if item.2.value.empty && (config.lookup item.1).isSome then config.erase item.1
  else config.insert item.1 (unpackIntoYAML item.2)

/-- The items that go to a file, in order, each with the name of its entry. -/
def bucketOf (items : ConfigPairList) (path : Path) : List (String × ConfigPair) :=
  (items.filter fun item => (translateKeyToPathPair item.key).1.squeeze = path).map fun item =>
    (entryOf item.key, item)

/-- The paths items go to, each once and in order. Those with the same elements are one. -/
def paths (items : ConfigPairList) : List Path :=
  ((items.map fun item => (translateKeyToPathPair item.key).1.squeeze).dedup).insertionSort
    fun p q => Path.le p q

/-- The items by the files they go to. -/
def buckets (items : ConfigPairList) : List (Path × List (String × ConfigPair)) :=
  (paths items).map fun path => (path, bucketOf items path)

/-- Reads a file, puts its items into it, and writes it back. -/
def writeBucket (root : Path) (files : AList fun _ : Path => YamlDoc)
    (bucket : Path × List (String × ConfigPair)) : AList fun _ : Path => YamlDoc :=
  let rootpath := root.below bucket.1
  files.insert rootpath (bucket.2.foldl putItem (loadOrCreate files rootpath))

/-- Writes items to the files, going through every file once. -/
def groupSet (s : LocalYAMLStorage) (items : ConfigPairList) : LocalYAMLStorage :=
  { s with files := (buckets items).foldl (writeBucket s.root) s.files }

/-- Writes what is staged. The bucket stays as it is. -/
def commit (s : LocalYAMLStorage) (id : ClientId) : LocalYAMLStorage :=
  s.groupSet ((s.inFlightItems.getBucket id).getD [])

/-- The entries of all files: the file, the name and the entry. -/
def fileEntries (s : LocalYAMLStorage) : List (Path × String × YamlEntry) :=
  s.files.entries.flatMap fun file => file.2.entries.map fun node => (file.1, node.1, node.2)

/-- The pair read from an entry. -/
def loadEntry (root : Path) (e : Path × String × YamlEntry) : Option ConfigPair := do
  let key ← translatePathToKey root e.1 e.2.1
  let value ← valueFromYAML e.2.2.type e.2.2.value
  return ⟨.ofString key, value⟩

/-- All pairs in the files that are not Empty, unless reading one throws. -/
def getAll (s : LocalYAMLStorage) : Option ConfigPairMap :=
  (s.fileEntries.mapM (loadEntry s.root)).map fun pairs =>
    ConfigPairMap.empty.emplaceAll (pairs.filter fun p => !p.value.empty)

/-! ### Entries -/

/-- The entry `name` in the file `path`. -/
def findEntry (files : AList fun _ : Path => YamlDoc) (path : Path) (name : String) :
    Option YamlEntry :=
  (loadOrCreate files path).lookup name

/-- What an entry becomes when an item is put into it. -/
def entryAfter (e : Option YamlEntry) (item : ConfigPair) : Option YamlEntry :=
  if item.value.empty && e.isSome then none else some (unpackIntoYAML item)

/-- The value an entry holds, if it is there and holds one. -/
def decode (e : Option YamlEntry) : Option ConfigValue :=
  (e.bind fun e => valueFromYAML e.type e.value).bind ConfigValue.toOption

variable {s : LocalYAMLStorage} {root : Path} {files : AList fun _ : Path => YamlDoc}
  {items : ConfigPairList} {k : ConfigKey} {v : ConfigValue}

theorem lookup_putItem {config : YamlDoc} {x : String × ConfigPair} {n : String} :
    (putItem config x).lookup n =
      if n = x.1 then entryAfter (config.lookup n) x.2 else config.lookup n := by
  rw [putItem, entryAfter]
  by_cases hn : n = x.1
  · subst hn
    by_cases h : x.2.value.empty && (config.lookup x.1).isSome <;> simp [h]
  · by_cases h : x.2.value.empty && (config.lookup x.1).isSome <;>
      simp [h, hn, AList.lookup_erase_ne, AList.lookup_insert_ne]

/-- Only the items for an entry change it, one after the other. -/
theorem lookup_foldl_putItem {config : YamlDoc} {xs : List (String × ConfigPair)} {n : String} :
    (xs.foldl putItem config).lookup n =
      ((xs.filter fun x => x.1 = n).map Prod.snd).foldl entryAfter (config.lookup n) := by
  induction xs generalizing config with
  | nil => rfl
  | cons x xs ih =>
    rw [List.foldl_cons, ih, lookup_putItem]
    by_cases hx : x.1 = n
    · simp [hx]
    · simp [hx, Ne.symm hx]

theorem findEntry_writeBucket {bucket : Path × List (String × ConfigPair)} {f : Path} {n : String} :
    findEntry (writeBucket root files bucket) f n =
      if f = root.below bucket.1 then
        ((bucket.2.filter fun x => x.1 = n).map Prod.snd).foldl entryAfter (findEntry files f n)
      else findEntry files f n := by
  simp only [writeBucket, findEntry]
  split
  · next hf =>
    subst hf
    rw [loadOrCreate, AList.lookup_insert, Option.getD_some, lookup_foldl_putItem]
  · next hf => rw [loadOrCreate, AList.lookup_insert_ne hf, loadOrCreate]

/-- The items of a bucket for the place of a key found back are those under the key. -/
theorem filter_bucketOf (hk : RoundTrips root k) (hi : ∀ p ∈ items, RoundTrips root p.key)
    {path : Path} (hp : root.below path = fileOf root k) :
    (((bucketOf items path).filter fun x => x.1 = entryOf k).map Prod.snd) =
      if path = (translateKeyToPathPair k).1.squeeze then items.filter fun item => item.key = k
      else [] := by
  have hkey : ∀ p ∈ items, (translateKeyToPathPair p.key).1.squeeze = path →
      entryOf p.key = entryOf k → p.key = k := fun p hpi hpp hpe =>
    (hi p hpi).inj hk (by rw [fileOf, ← Path.below_squeeze, hpp, hp]) hpe
  have hid : (Prod.snd ∘ fun item : ConfigPair => (entryOf item.key, item)) = id := rfl
  rw [bucketOf, List.filter_map, List.map_map, List.filter_filter, hid, List.map_id]
  split
  · next h =>
    -- In the file of `k`, sharing the entry of `k` is having the key `k`.
    refine List.filter_congr fun p hpi => ?_
    simp only [Function.comp_apply, decide_eq_decide, ← Bool.decide_and]
    exact ⟨fun h' => hkey p hpi h'.2 h'.1, fun h' => by simp [h', h, entryOf]⟩
  · next h =>
    refine List.filter_eq_nil_iff.2 fun p hpi => ?_
    simp only [Function.comp_apply, Bool.and_eq_true, decide_eq_true_eq, not_and]
    intro hpe hpp
    exact h (by rw [← hpp, hkey p hpi hpp hpe])

/-- The items under a key change its entry in the turn of its file. -/
theorem findEntry_writeBucket_bucketOf (hk : RoundTrips root k)
    (hi : ∀ p ∈ items, RoundTrips root p.key) {path : Path} :
    findEntry (writeBucket root files (path, bucketOf items path)) (fileOf root k) (entryOf k) =
      if path = (translateKeyToPathPair k).1.squeeze then
        (items.filter fun item => item.key = k).foldl entryAfter
          (findEntry files (fileOf root k) (entryOf k))
      else findEntry files (fileOf root k) (entryOf k) := by
  rw [findEntry_writeBucket]
  -- Another path may still lead to the same file; its items are not under `k`.
  by_cases hf : fileOf root k = root.below path
  · rw [if_pos hf, filter_bucketOf hk hi hf.symm]
    split <;> rfl
  · have hp : path ≠ (translateKeyToPathPair k).1.squeeze := fun h =>
      hf (by rw [h, Path.below_squeeze]; rfl)
    rw [if_neg hf, if_neg hp]

/-- Going through files once each, the file of a key has one turn at most. -/
theorem findEntry_foldl_writeBucket (hk : RoundTrips root k)
    (hi : ∀ p ∈ items, RoundTrips root p.key) {ps : List Path} (hps : ps.Nodup) :
    findEntry ((ps.map fun path => (path, bucketOf items path)).foldl (writeBucket root) files)
        (fileOf root k) (entryOf k) =
      if (translateKeyToPathPair k).1.squeeze ∈ ps then
        (items.filter fun item => item.key = k).foldl entryAfter
          (findEntry files (fileOf root k) (entryOf k))
      else findEntry files (fileOf root k) (entryOf k) := by
  induction ps generalizing files with
  | nil => rfl
  | cons path ps ih =>
    rw [List.nodup_cons] at hps
    rw [List.map_cons, List.foldl_cons, ih hps.2, findEntry_writeBucket_bucketOf hk hi]
    -- The turn of the file comes once, as the paths are distinct.
    by_cases hp : path = (translateKeyToPathPair k).1.squeeze
    · subst hp
      simp [hps.1]
    · simp [hp, Ne.symm hp]

theorem findEntry_groupSet (hk : RoundTrips s.root k) (hi : ∀ p ∈ items, RoundTrips s.root p.key) :
    findEntry (s.groupSet items).files (fileOf s.root k) (entryOf k) =
      (items.filter fun item => item.key = k).foldl entryAfter
        (findEntry s.files (fileOf s.root k) (entryOf k)) := by
  have hnodup : (paths items).Nodup :=
    (List.perm_insertionSort _ _).nodup_iff.2 (List.nodup_dedup _)
  rw [groupSet, buckets, findEntry_foldl_writeBucket hk hi hnodup]
  split
  · rfl
  · next h =>
    -- Without a bucket for its file, no item is under the key.
    have : (items.filter fun item => item.key = k) = [] :=
      List.filter_eq_nil_iff.2 fun p hp => by
        simp only [decide_eq_true_eq]
        rintro rfl
        exact h ((List.perm_insertionSort _ _).mem_iff.2
          (List.mem_dedup.2 (List.mem_map.2 ⟨p, hp, rfl⟩)))
    rw [this]
    rfl

/-! ### The disk -/

/-- The store the files stand for: the values found back at the places of the
    keys found back. -/
def diskStore (s : LocalYAMLStorage) : ConfigKey → Option ConfigValue := fun k =>
  if RoundTrips s.root k then decode (findEntry s.files (fileOf s.root k) (entryOf k)) else none

/-- A pair that can be written and found back. -/
structure Writable (root : Path) (p : ConfigPair) : Prop where
  key : RoundTrips root p.key
  value : ValueRoundTrips p.value

instance {root : Path} {p : ConfigPair} : Decidable (Writable root p) :=
  decidable_of_iff (RoundTrips root p.key ∧ ValueRoundTrips p.value)
    ⟨fun h => ⟨h.1, h.2⟩, fun h => ⟨h.1, h.2⟩⟩

theorem valueFromYAML_unpackIntoYAML {p : ConfigPair} (hp : ValueRoundTrips p.value) :
    valueFromYAML (unpackIntoYAML p).type (unpackIntoYAML p).value = some p.value := hp

theorem decode_unpackIntoYAML {p : ConfigPair} (hp : ValueRoundTrips p.value) :
    decode (some (unpackIntoYAML p)) = p.value.toOption := by
  rw [decode, Option.bind_some, valueFromYAML_unpackIntoYAML hp, Option.bind_some]

theorem decode_entryAfter {e : Option YamlEntry} {p : ConfigPair} (hp : ValueRoundTrips p.value) :
    decode (entryAfter e p) = p.value.toOption := by
  rw [entryAfter]
  split
  · next h =>
    rw [Bool.and_eq_true] at h
    rw [ConfigValue.toOption_of_empty h.1]
    rfl
  · exact decode_unpackIntoYAML hp

/-- Of the items under a key, its entry holds the value of the last one. -/
theorem decode_foldl_entryAfter (hi : ∀ p ∈ items, ValueRoundTrips p.value)
    {e : Option YamlEntry} :
    decode ((items.filter fun item => item.key = k).foldl entryAfter e) =
      (lastWrite k items.writes).getD (decode e) := by
  -- From the end of the list: the last item under the key decides.
  induction items using List.reverseRecOn with
  | nil => rfl
  | append_singleton items p ih =>
    have hp := hi p (by simp)
    have ih := ih fun q hq => hi q (by simp [hq])
    by_cases hk : p.key = k
    · have : lastWrite k (ConfigPairList.writes (items ++ [p])) = some p.value.toOption := by
        simp [ConfigPairList.writes, ConfigPair.toWrite, lastWrite_append, lastWrite, hk]
      rw [this, List.filter_append, List.filter_cons_of_pos (by simpa using hk), List.filter_nil,
        List.foldl_append, List.foldl_cons, List.foldl_nil, decode_entryAfter hp, Option.getD_some]
    · have : lastWrite k (ConfigPairList.writes (items ++ [p])) =
          lastWrite k (ConfigPairList.writes items) := by
        simp [ConfigPairList.writes, ConfigPair.toWrite, lastWrite_append, lastWrite, hk]
      rw [this, List.filter_append, List.filter_cons_of_neg (by simpa using hk), List.filter_nil,
        List.append_nil, ih]

/-- A group set writes its items to the disk. -/
theorem diskStore_groupSet (hi : ∀ p ∈ items, Writable s.root p) :
    (s.groupSet items).diskStore = overlay items.writes s.diskStore := by
  funext k
  have hroot : (s.groupSet items).root = s.root := rfl
  simp only [diskStore, hroot, overlay_apply]
  split
  · next hk =>
    rw [findEntry_groupSet hk fun p hp => (hi p hp).key,
      decode_foldl_entryAfter fun p hp => (hi p hp).value]
  · next hk =>
    -- A key that is not found back is not among the items.
    have : lastWrite k items.writes = none := lastWrite_eq_none_iff.2 fun w hw hwk => by
      obtain ⟨p, hp, rfl⟩ := List.mem_map.1 hw
      exact hk (hwk ▸ (hi p hp).key)
    rw [this, Option.getD_none]

/-! ### Reading the disk -/

/-- Every entry was written for a pair of a kind. -/
def WrittenFor (P : ConfigPair → Prop) (root : Path) (files : AList fun _ : Path => YamlDoc) :
    Prop :=
  ∀ f n e, findEntry files f n = some e →
    ∃ p, P p ∧ f = fileOf root p.key ∧ n = entryOf p.key ∧ e = unpackIntoYAML p

/-- Every entry was written for a pair that can be found back. -/
def Written (root : Path) (files : AList fun _ : Path => YamlDoc) : Prop :=
  ∀ f n e, findEntry files f n = some e → ∃ p, Writable root p ∧ f = fileOf root p.key ∧
    n = entryOf p.key ∧ e = unpackIntoYAML p

theorem written_new : Written root (new root).files := nofun

theorem lookup_foldl_putItem_eq_some {config : YamlDoc} {xs : List (String × ConfigPair)}
    {n : String} {e : YamlEntry} (h : (xs.foldl putItem config).lookup n = some e) :
    config.lookup n = some e ∨ ∃ x ∈ xs, x.1 = n ∧ e = unpackIntoYAML x.2 := by
  induction xs generalizing config with
  | nil => exact .inl h
  | cons x xs ih =>
    rcases ih h with h | ⟨y, hy, hyn⟩
    · -- The entry was there after the first item: it is that item's, or it was before.
      rw [lookup_putItem] at h
      split at h
      · next hn =>
        rw [entryAfter] at h
        split at h
        · cases h
        · exact .inr ⟨x, List.mem_cons_self, hn.symm, (Option.some.inj h).symm⟩
      · exact .inl h
    · exact .inr ⟨y, List.mem_cons_of_mem _ hy, hyn⟩

section

variable {P : ConfigPair → Prop}

theorem WrittenFor.writeBucket (h : WrittenFor P root files) (hi : ∀ p ∈ items, P p)
    (path : Path) : WrittenFor P root (writeBucket root files (path, bucketOf items path)) := by
  intro f n e he
  rw [LocalYAMLStorage.writeBucket, findEntry, loadOrCreate] at he
  by_cases hf : f = root.below path
  · subst hf
    rw [AList.lookup_insert, Option.getD_some] at he
    rcases lookup_foldl_putItem_eq_some he with he | ⟨x, hx, rfl, rfl⟩
    · exact h _ _ _ he
    · obtain ⟨p, hp, rfl⟩ := List.mem_map.1 hx
      obtain ⟨hp, hpath⟩ := List.mem_filter.1 hp
      have hpath : (translateKeyToPathPair p.key).1.squeeze = path := by simpa using hpath
      exact ⟨p, hi p hp, by rw [← hpath, Path.below_squeeze]; rfl, rfl, rfl⟩
  · rw [AList.lookup_insert_ne hf] at he
    exact h f n e he

/-- Along the files written one after the other. -/
theorem WrittenFor.writeBuckets (h : WrittenFor P root files) (hi : ∀ p ∈ items, P p)
    (ps : List Path) : WrittenFor P root
      ((ps.map fun path => (path, bucketOf items path)).foldl (LocalYAMLStorage.writeBucket root)
        files) := by
  induction ps generalizing files with
  | nil => exact h
  | cons path ps ih => exact ih (h.writeBucket hi path)

theorem WrittenFor.groupSet (h : WrittenFor P s.root s.files) (hi : ∀ p ∈ items, P p) :
    WrittenFor P s.root (s.groupSet items).files := h.writeBuckets hi (paths items)

end

theorem Written.groupSet (h : Written s.root s.files) (hi : ∀ p ∈ items, Writable s.root p) :
    Written s.root (s.groupSet items).files := WrittenFor.groupSet h hi

theorem mem_fileEntries {f : Path} {n : String} {e : YamlEntry} :
    (f, n, e) ∈ s.fileEntries ↔ findEntry s.files f n = some e := by
  simp only [fileEntries, List.mem_flatMap, List.mem_map, Prod.mk.injEq]
  constructor
  · rintro ⟨⟨f, doc⟩, hf, ⟨n, e⟩, hn, rfl, rfl, rfl⟩
    have hf : s.files.lookup f = some doc := (List.mem_dlookup_iff s.files.nodupKeys).2 hf
    rw [findEntry, loadOrCreate, hf]
    exact (List.mem_dlookup_iff doc.nodupKeys).2 hn
  · intro h
    rw [findEntry, loadOrCreate] at h
    rcases Option.eq_none_or_eq_some (s.files.lookup f) with hf | ⟨doc, hf⟩
    · rw [hf] at h
      cases h
    · rw [hf, Option.getD_some] at h
      exact ⟨⟨f, doc⟩, (List.mem_dlookup_iff s.files.nodupKeys).1 hf, ⟨n, e⟩,
        (List.mem_dlookup_iff doc.nodupKeys).1 h, rfl, rfl, rfl⟩

/-- An entry written for a pair is read as the pair. -/
theorem loadEntry_unpackIntoYAML {p : ConfigPair} (hp : Writable root p) :
    loadEntry root (fileOf root p.key, entryOf p.key, unpackIntoYAML p) = some p := by
  obtain ⟨text, ht, hk⟩ := Option.map_eq_some_iff.1 hp.key
  simp only [loadEntry, ht, valueFromYAML_unpackIntoYAML hp.value, hk, Option.bind_eq_bind,
    Option.bind_some]
  rfl

/-- The entry of a pair is at the place of its key. -/
def HasEntry (s : LocalYAMLStorage) (p : ConfigPair) : Prop :=
  Writable s.root p ∧
    findEntry s.files (fileOf s.root p.key) (entryOf p.key) = some (unpackIntoYAML p)

/-- A key has one entry. -/
theorem HasEntry.unique {p q : ConfigPair} (hp : s.HasEntry p) (hq : s.HasEntry q)
    (hk : p.key = q.key) : p = q := by
  have he : unpackIntoYAML p = unpackIntoYAML q := by
    have := hp.2
    rw [hk, hq.2] at this
    exact (Option.some.inj this).symm
  have := loadEntry_unpackIntoYAML hp.1
  rw [hk, he, loadEntry_unpackIntoYAML hq.1] at this
  exact (Option.some.inj this).symm

/-- The disk holds the values of the entries that are not Empty. -/
theorem diskStore_eq_some_iff (h : Written s.root s.files) :
    s.diskStore k = some v ↔ s.HasEntry ⟨k, v⟩ ∧ v.empty = false := by
  constructor
  · intro hv
    rw [diskStore] at hv
    split at hv
    · next hk =>
      rcases he : findEntry s.files (fileOf s.root k) (entryOf k) with _ | e
      · rw [he] at hv
        cases hv
      · -- The entry was written for some pair, and `k` is the only key with its place.
        obtain ⟨p, hp, hpf, hpn, rfl⟩ := h _ _ _ he
        obtain rfl : k = p.key := hk.inj hp.key hpf hpn
        rw [he, decode_unpackIntoYAML hp.value] at hv
        obtain ⟨rfl, hne⟩ := ConfigValue.toOption_eq_some hv
        exact ⟨⟨hp, he⟩, hne⟩
    · cases hv
  · rintro ⟨⟨hw, he⟩, hv⟩
    have hk : RoundTrips s.root k := hw.key
    simp only [diskStore, hk, if_true]
    rw [show findEntry s.files (fileOf s.root k) (entryOf k) = _ from he,
      decode_unpackIntoYAML hw.value, ConfigValue.toOption_of_not_empty hv]

/-- Reading all entries gives the pairs that have one. -/
theorem exists_mapM_loadEntry (h : Written s.root s.files) :
    ∃ ps, s.fileEntries.mapM (loadEntry s.root) = some ps ∧ ∀ p, p ∈ ps ↔ s.HasEntry p := by
  have hload : ∀ x ∈ s.fileEntries, ∃ p, loadEntry s.root x = some p := by
    rintro ⟨f, n, e⟩ hx
    obtain ⟨p, hp, rfl, rfl, rfl⟩ := h _ _ _ (mem_fileEntries.1 hx)
    exact ⟨p, loadEntry_unpackIntoYAML hp⟩
  obtain ⟨ps, hps, hmem⟩ := exists_mapM_eq_some hload
  refine ⟨ps, hps, fun p => (hmem p).trans ⟨?_, ?_⟩⟩
  · rintro ⟨⟨f, n, e⟩, hx, hp⟩
    obtain ⟨q, hq, rfl, rfl, rfl⟩ := h _ _ _ (mem_fileEntries.1 hx)
    obtain rfl : q = p := Option.some.inj ((loadEntry_unpackIntoYAML hq).symm.trans hp)
    exact ⟨hq, mem_fileEntries.1 hx⟩
  · rintro ⟨hp, he⟩
    exact ⟨_, mem_fileEntries.2 he, loadEntry_unpackIntoYAML hp⟩

/-- Reading everything reads the disk. -/
theorem getAll_eq (h : Written s.root s.files) :
    ∃ m, s.getAll = some m ∧ m.values = s.diskStore := by
  obtain ⟨ps, hps, hmem⟩ := exists_mapM_loadEntry h
  refine ⟨_, by rw [getAll, hps, Option.map_some], ?_⟩
  -- No two pairs that are read have the same key, so their order does not matter.
  have hu : ∀ p ∈ ps.filter fun p => !p.value.empty, ∀ q ∈ ps.filter fun p => !p.value.empty,
      p.key = q.key → p = q := fun p hp q hq =>
    ((hmem p).1 (List.mem_filter.1 hp).1).unique ((hmem q).1 (List.mem_filter.1 hq).1)
  funext k
  ext v
  rw [ConfigPairMap.values_eq_some_iff, ConfigPairMap.find?_emplaceAll,
    ConfigPairMap.find?_empty, Option.none_or, ConfigPairMap.find?_key_eq_some_iff hu,
    List.mem_filter, hmem, diskStore_eq_some_iff h]
  simp

/-- Reading everything gives no Empty value. -/
theorem not_empty_of_getAll {m : ConfigPairMap} (h : s.getAll = some m) {p : ConfigPair}
    (hp : m.find? k = some p) : p.value.empty = false := by
  obtain ⟨ps, _, rfl⟩ := Option.map_eq_some_iff.1 h
  rw [ConfigPairMap.find?_emplaceAll, ConfigPairMap.find?_empty, Option.none_or] at hp
  simpa using (List.mem_filter.1 (List.mem_of_find?_eq_some hp)).2

end LocalYAMLStorage

end SysAdmin
