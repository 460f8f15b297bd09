import Mathlib.Algebra.Order.BigOperators.Group.List
import Mathlib.Algebra.Order.Group.Nat
import Mathlib.Data.List.Sigma
import SysAdmin.Foundation.Occurrences
import SysAdmin.Foundation.Writes
import SysAdmin.GetRequests
import SysAdmin.Migrations

/-!
# Namespaces of the Python client

A `NamespaceFetcher` caches the values and the namespaces under a namespace. Going through it asks
the server for all keys under the namespace, cuts the namespace out of each key, and puts the value
into the fetcher for its last namespace (`Cache.insertPath`), which is made if it is not there.

* `cachedKey`: the text under which the value of a key is cached;
* `Fetched`: what has been gone through and what is cached is what the server has;
* `fetched_iff`: this is so exactly if the name of the namespace, with the dot, is nowhere else in
  the keys under it, and, for the namespace of all keys, no key starts with a dot. For where it
  is found again, it is cut out as well.
-/

namespace SysAdmin

open Occurrences Writes Machine Configurator ProtobufTranslator
open Sysadminctl (MappedField)
open Migrations (PyValue unpackFromProto)

namespace LazySysAdmin

/-! ## Fetchers -/

/-- A key in a namespace. -/
def combineFullKey (nspace key : String) : String :=
  if nspace.length = 0 then key else nspace ++ "." ++ key

/-- The caches of a fetcher: the fetchers of its namespaces, and its values. A fetcher is cached
    under its own namespace. -/
inductive Cache
  | mk (subNamespaces : List (Σ _ : String, Cache)) (namespaceItems : List (Σ _ : String, PyValue))

/-- A fetcher. -/
structure NamespaceFetcher where
  nspace : String
  cache : Cache

namespace Cache

/-- The fetchers of the namespaces. -/
def subNamespaces : Cache → List (Σ _ : String, Cache)
  | mk subNamespaces _ => subNamespaces

/-- The values. -/
def namespaceItems : Cache → List (Σ _ : String, PyValue)
  | mk _ namespaceItems => namespaceItems

/-- The caches of a new fetcher. -/
def empty : Cache := mk [] []

/-- Caches a value in the fetcher that the parts of a key lead to. -/
def insertPath (nspace : String) (cache : Cache) (path : List String) (value : PyValue) : Cache :=
  match path with
  | [] => cache
  | [skey] => mk cache.subNamespaces
      (cache.namespaceItems.kinsert (combineFullKey nspace skey) value)
  | skey :: path =>
    let runningKey := combineFullKey nspace skey
    let nested := (cache.subNamespaces.dlookup runningKey).getD empty
    mk (cache.subNamespaces.kinsert runningKey (insertPath runningKey nested path value))
      cache.namespaceItems

end Cache

/-- `str.split` at the dots. -/
def splitKeys (key : String) : List String := (key.toList.splitOn '.').map String.ofList

/-- The rest of a key: all occurrences of the namespace are cut out. -/
def cutKey (nspace key : String) : String :=
  if nspace.length > 0 then String.ofList (deleteAll (nspace ++ ".").toList key.toList) else key

/-- Goes through a field of the response. -/
def iterStep (nspace : String) (st : Cache × List String) (kvs : MappedField) :
    Cache × List String :=
  let path := splitKeys (cutKey nspace kvs.key)
  let first := path.headD ""
  (st.1.insertPath nspace path (unpackFromProto kvs),
    if first ∈ st.2 then st.2 else st.2 ++ [first])

/-- Goes through a fetcher: what is cached then, and what it has given. -/
def NamespaceFetcher.iter (get : String → Sysadminctl.Response) (fetcher : NamespaceFetcher) :
    Cache × List String :=
  (get (combineFullKey fetcher.nspace "*")).kvs.foldl (iterStep fetcher.nspace)
    (fetcher.cache, [])

/-! ## Lookups -/

/-- What is looked up: a value, or the fetcher of a namespace. -/
inductive Item
  | value (v : PyValue)
  | fetcher (f : NamespaceFetcher)

namespace Cache

/-- Looks a key up in a fetcher, whose values come first. What is not cached is asked for: a key
    that there is not, is a namespace. There is no result if a response lists no value. -/
def fetchUpdate (get : String → Sysadminctl.Response) (cache : Cache) (key : String) :
    Option Item × Cache :=
  match cache.namespaceItems.dlookup key, cache.subNamespaces.dlookup key with
  | some v, _ => (some (.value v), cache)
  | none, some nested => (some (.fetcher ⟨key, nested⟩), cache)
  | none, none =>
    let resp := get key
    if resp.status = some .keyNotFound then
      (some (.fetcher ⟨key, empty⟩),
        mk (cache.subNamespaces.kinsert key empty) cache.namespaceItems)
    else
      match resp.kvs.head? with
      | none => (none, cache)
      | some kvs => (some (.value (unpackFromProto kvs)),
          mk cache.subNamespaces (cache.namespaceItems.kinsert key (unpackFromProto kvs)))

/-- `__getitem__`, for one key after the other. A value has no keys. -/
def getItems (get : String → Sysadminctl.Response) (nspace : String) (cache : Cache) :
    List String → Option Item × Cache
  | [] => (some (.fetcher ⟨nspace, cache⟩), cache)
  | key :: keys =>
    match cache.fetchUpdate get (combineFullKey nspace key) with
    | (none, cache') => (none, cache')
    | (some (.value v), cache') => (if keys = [] then some (.value v) else none, cache')
    | (some (.fetcher f), cache') =>
      let nested := getItems get f.nspace f.cache keys
      (nested.1, mk (cache'.subNamespaces.kinsert f.nspace nested.2) cache'.namespaceItems)

end Cache

/-! ## What is cached -/

namespace Cache

/-- A value is cached under a text, in the fetcher or one of its namespaces. -/
inductive Caches : Cache → String → PyValue → Prop
  | item {cache : Cache} {text : String} {v : PyValue} :
    cache.namespaceItems.dlookup text = some v → Caches cache text v
  | sub {cache nested : Cache} {key text : String} {v : PyValue} :
    cache.subNamespaces.dlookup key = some nested → Caches nested text v → Caches cache text v

/-- A namespace is cached under a text. -/
inductive CachesSpace : Cache → String → Prop
  | here {cache nested : Cache} {text : String} :
    cache.subNamespaces.dlookup text = some nested → CachesSpace cache text
  | sub {cache nested : Cache} {key text : String} :
    cache.subNamespaces.dlookup key = some nested → CachesSpace nested text →
      CachesSpace cache text

/-- The value that looking up the parts of a key, one after the other, finds in the caches. -/
def lookup (nspace : String) (cache : Cache) : List String → Option PyValue
  | [] => none
  | [skey] => cache.namespaceItems.dlookup (combineFullKey nspace skey)
  | skey :: path =>
    (cache.subNamespaces.dlookup (combineFullKey nspace skey)).bind fun nested =>
      nested.lookup (combineFullKey nspace skey) path

end Cache

/-- The text that the parts of a key lead to. -/
def fullKey (nspace : String) (path : List String) : String := path.foldl combineFullKey nspace

variable {nspace text : String} {cache : Cache} {path path' : List String} {v w : PyValue}
  {skey : String}

/-- A path is gone down by its first part. -/
theorem fullKey_cons : fullKey nspace (skey :: path) =
    fullKey (combineFullKey nspace skey) path := rfl

/-- The parts of a namespace have keys of their own. -/
theorem combineFullKey_inj {skey' : String} :
    combineFullKey nspace skey = combineFullKey nspace skey' ↔ skey = skey' := by
  rw [combineFullKey, combineFullKey]
  split
  · rfl
  · rw [String.append_right_inj]

namespace Cache

@[simp] theorem subNamespaces_mk {subs items} : (mk subs items).subNamespaces = subs := rfl

@[simp] theorem namespaceItems_mk {subs items} : (mk subs items).namespaceItems = items := rfl

theorem insertPath_singleton (nspace : String) (cache : Cache) (skey : String) (v : PyValue) :
    cache.insertPath nspace [skey] v = mk cache.subNamespaces
      (cache.namespaceItems.kinsert (combineFullKey nspace skey) v) := rfl

theorem insertPath_cons_cons (nspace : String) (cache : Cache) (a b : String)
    (path : List String) (v : PyValue) :
    cache.insertPath nspace (a :: b :: path) v =
      mk (cache.subNamespaces.kinsert (combineFullKey nspace a)
        (((cache.subNamespaces.dlookup (combineFullKey nspace a)).getD empty).insertPath
          (combineFullKey nspace a) (b :: path) v)) cache.namespaceItems := rfl

theorem lookup_singleton (nspace : String) (cache : Cache) (skey : String) :
    cache.lookup nspace [skey] = cache.namespaceItems.dlookup (combineFullKey nspace skey) := rfl

theorem lookup_cons_cons (nspace : String) (cache : Cache) (a b : String) (path : List String) :
    cache.lookup nspace (a :: b :: path) =
      (cache.subNamespaces.dlookup (combineFullKey nspace a)).bind fun nested =>
        nested.lookup (combineFullKey nspace a) (b :: path) := rfl

theorem lookup_empty : empty.lookup nspace path = none := by
  rcases path with _ | ⟨a, _ | ⟨b, path⟩⟩ <;> rfl

/-- Looking up finds what has been cached last. -/
theorem lookup_insertPath (hpath : path ≠ []) :
    (cache.insertPath nspace path v).lookup nspace path' =
      if path = path' then some v else cache.lookup nspace path' := by
  induction path generalizing nspace cache path' with
  | nil => exact absurd rfl hpath
  | cons a path ih =>
    -- Different parts are cached under different keys.
    have hne : ∀ c, a ≠ c → combineFullKey nspace c ≠ combineFullKey nspace a := fun c h hc =>
      h (combineFullKey_inj.1 hc.symm)
    rcases path with _ | ⟨b, path⟩
    · rw [insertPath_singleton]
      rcases path' with _ | ⟨c, _ | ⟨d, path'⟩⟩
      · rfl
      · rw [lookup_singleton, lookup_singleton, namespaceItems_mk]
        by_cases h : a = c
        · rw [h, List.dlookup_kinsert, if_pos rfl]
        · rw [List.dlookup_kinsert_ne (hne c h), if_neg (by simp [h])]
      · rw [lookup_cons_cons, lookup_cons_cons, subNamespaces_mk, if_neg (by simp)]
    · rw [insertPath_cons_cons]
      rcases path' with _ | ⟨c, _ | ⟨d, path'⟩⟩
      · rfl
      · rw [lookup_singleton, lookup_singleton, namespaceItems_mk, if_neg (by simp)]
      · rw [lookup_cons_cons, lookup_cons_cons, subNamespaces_mk]
        by_cases h : a = c
        · subst h
          rw [List.dlookup_kinsert, Option.bind_some, ih (List.cons_ne_nil b path)]
          simp only [List.cons.injEq, true_and]
          rcases cache.subNamespaces.dlookup (combineFullKey nspace a) with _ | nested
          · -- A cache that has just been made has nothing else.
            rw [Option.getD_none, lookup_empty, Option.bind_none]
          · rw [Option.getD_some, Option.bind_some]
        · rw [List.dlookup_kinsert_ne (hne c h), if_neg (by simp [h])]

theorem not_caches_empty : ¬empty.Caches text w := by
  rintro (h | ⟨h, _⟩) <;> cases h

theorem not_cachesSpace_empty : ¬empty.CachesSpace text := by
  rintro (h | ⟨h, _⟩) <;> cases h

/-- Behind the first part of a path, one nested cache changes. -/
theorem subNamespaces_insertPath {a b key : String} {nested : Cache}
    (h : (cache.insertPath nspace (a :: b :: path) v).subNamespaces.dlookup key = some nested) :
    key = combineFullKey nspace a ∧
        nested = ((cache.subNamespaces.dlookup key).getD empty).insertPath key (b :: path) v ∨
      cache.subNamespaces.dlookup key = some nested := by
  rw [insertPath_cons_cons, subNamespaces_mk] at h
  by_cases hkey : key = combineFullKey nspace a
  · subst hkey
    rw [List.dlookup_kinsert] at h
    exact .inl ⟨rfl, (Option.some.inj h).symm⟩
  · rw [List.dlookup_kinsert_ne hkey] at h
    exact .inr h

/-- What is cached behind an insertion is what has been inserted, or has been cached before. -/
theorem caches_of_insertPath (hpath : path ≠ [])
    (h : (cache.insertPath nspace path v).Caches text w) :
    text = fullKey nspace path ∧ w = v ∨ cache.Caches text w := by
  induction path generalizing nspace cache with
  | nil => exact absurd rfl hpath
  | cons a path ih =>
    rcases path with _ | ⟨b, path⟩
    · rw [insertPath_singleton] at h
      rcases h with h | ⟨h, hc⟩
      · by_cases htext : text = combineFullKey nspace a
        · subst htext
          rw [namespaceItems_mk, List.dlookup_kinsert] at h
          exact .inl ⟨rfl, (Option.some.inj h).symm⟩
        · rw [namespaceItems_mk, List.dlookup_kinsert_ne htext] at h
          exact .inr (.item h)
      · exact .inr (.sub h hc)
    · rcases h with h | ⟨h, hc⟩
      · exact .inr (.item h)
      · rcases subNamespaces_insertPath h with ⟨rfl, rfl⟩ | h
        · rw [fullKey_cons]
          refine (ih (List.cons_ne_nil b path) hc).imp_right fun hc => ?_
          rcases hsub : cache.subNamespaces.dlookup (combineFullKey nspace a) with _ | nested
          · rw [hsub] at hc
            exact absurd hc not_caches_empty
          · rw [hsub] at hc
            exact .sub hsub hc
        · exact .inr (.sub h hc)

theorem caches_insertPath (hpath : path ≠ []) :
    (cache.insertPath nspace path v).Caches (fullKey nspace path) v := by
  induction path generalizing nspace cache with
  | nil => exact absurd rfl hpath
  | cons a path ih =>
    rcases path with _ | ⟨b, path⟩
    · rw [insertPath_singleton]
      exact .item (List.dlookup_kinsert _)
    · rw [insertPath_cons_cons, fullKey_cons]
      exact .sub (List.dlookup_kinsert _) (ih (List.cons_ne_nil b path))

/-- An insertion only overwrites its own key. -/
theorem Caches.insertPath (h : cache.Caches text w) (htext : text ≠ fullKey nspace path) :
    (cache.insertPath nspace path v).Caches text w := by
  induction path generalizing nspace cache with
  | nil => exact h
  | cons a path ih =>
    rw [fullKey_cons] at htext
    rcases path with _ | ⟨b, path⟩
    · rw [insertPath_singleton]
      rcases h with h | ⟨h, hc⟩
      · exact .item ((List.dlookup_kinsert_ne htext).trans h)
      · exact .sub h hc
    · rw [insertPath_cons_cons]
      rcases h with h | ⟨h, hc⟩
      · exact .item h
      · next nested key =>
        -- The nested cache on the path keeps what it has; the others are not touched.
        by_cases hkey : key = combineFullKey nspace a
        · subst hkey
          refine .sub (List.dlookup_kinsert _) (ih ?_ htext)
          rw [h]
          exact hc
        · exact .sub ((List.dlookup_kinsert_ne hkey).trans h) hc

theorem CachesSpace.insertPath (h : cache.CachesSpace text) :
    (cache.insertPath nspace path v).CachesSpace text := by
  induction path generalizing nspace cache with
  | nil => exact h
  | cons a path ih =>
    rcases path with _ | ⟨b, path⟩
    · rw [insertPath_singleton]
      rcases h with h | ⟨h, hc⟩
      · exact .here h
      · exact .sub h hc
    · rw [insertPath_cons_cons]
      rcases h with h | ⟨h, hc⟩
      · by_cases htext : text = combineFullKey nspace a
        · rw [htext]
          exact .here (List.dlookup_kinsert _)
        · exact .here ((List.dlookup_kinsert_ne htext).trans h)
      · next nested key =>
        by_cases hkey : key = combineFullKey nspace a
        · subst hkey
          refine .sub (List.dlookup_kinsert _) (ih ?_)
          rw [h]
          exact hc
        · exact .sub ((List.dlookup_kinsert_ne hkey).trans h) hc

/-- The namespaces on the path are cached. -/
theorem cachesSpace_insertPath {before after : List String} (hbefore : before ≠ []) :
    (cache.insertPath nspace (before ++ skey :: after) v).CachesSpace (fullKey nspace before) := by
  induction before generalizing nspace cache with
  | nil => exact absurd rfl hbefore
  | cons a before ih =>
    rcases before with _ | ⟨b, before⟩
    · rw [List.singleton_append, insertPath_cons_cons]
      exact .here (List.dlookup_kinsert _)
    · rw [List.cons_append, List.cons_append, insertPath_cons_cons, fullKey_cons]
      exact .sub (List.dlookup_kinsert _) (ih (List.cons_ne_nil b before))

theorem cachesSpace_of_insertPath (h : (cache.insertPath nspace path v).CachesSpace text) :
    cache.CachesSpace text ∨ ∃ before skey after, path = before ++ skey :: after ∧ before ≠ [] ∧
      text = fullKey nspace before := by
  induction path generalizing nspace cache with
  | nil => exact .inl h
  | cons a path ih =>
    rcases path with _ | ⟨b, path⟩
    · rw [insertPath_singleton] at h
      rcases h with h | ⟨h, hc⟩
      · exact .inl (.here h)
      · exact .inl (.sub h hc)
    · rw [insertPath_cons_cons] at h
      rcases h with h | ⟨h, hc⟩
      · by_cases htext : text = combineFullKey nspace a
        · exact .inr ⟨[a], b, path, rfl, List.cons_ne_nil a [], htext⟩
        · rw [subNamespaces_mk, List.dlookup_kinsert_ne htext] at h
          exact .inl (.here h)
      · rcases subNamespaces_insertPath h with ⟨rfl, rfl⟩ | h
        · obtain hc | ⟨before, skey, after, hpath, _, htext⟩ := ih hc
          · rcases hsub : cache.subNamespaces.dlookup (combineFullKey nspace a) with _ | nested
            · rw [hsub] at hc
              exact absurd hc not_cachesSpace_empty
            · rw [hsub] at hc
              exact .inl (.sub hsub hc)
          · exact .inr ⟨a :: before, skey, after, by rw [hpath]; rfl, List.cons_ne_nil a before,
              htext⟩
        · exact .inl (.sub h hc)

end Cache

/-! ## Texts of keys -/

/-- The text under which the value of a key is cached. -/
def cachedKey (nspace key : String) : String := fullKey nspace (splitKeys (cutKey nspace key))

/-- The parts of a key under the namespace do not have its name again: they do not have it with
    the dot or, for the namespace of all keys, do not start with an empty part. -/
def Clean (nspace : String) (path : List String) : Prop :=
  if nspace = "" then path.head? ≠ some ""
  else ¬(nspace ++ ".").toList <:+: (".".intercalate path).toList

instance : Decidable (Clean nspace path) := inferInstanceAs (Decidable (ite _ _ _))

theorem splitKeys_ne_nil (key : String) : splitKeys key ≠ [] := by
  rw [splitKeys, ne_eq, List.map_eq_nil_iff]
  exact List.splitOn_ne_nil '.' key.toList

theorem intercalate_splitKeys (key : String) : ".".intercalate (splitKeys key) = key := by
  have hid : (String.toList ∘ String.ofList) = id := funext fun _ => String.toList_ofList
  apply String.toList_inj.1
  rw [String.toList_intercalate, splitKeys, List.map_map, hid, List.map_id]
  exact List.intercalate_splitOn '.'

/-- Parts without dots are found again in their key. -/
theorem splitKeys_intercalate (hne : path ≠ []) (hdot : ∀ s ∈ path, '.' ∉ s.toList) :
    splitKeys (".".intercalate path) = path := by
  have hid : (String.ofList ∘ String.toList) = id := funext fun _ => String.ofList_toList
  have hsplit : (['.'].intercalate (path.map String.toList)).splitOn '.' =
      path.map String.toList := by
    rw [List.splitOn_intercalate]
    · intro l hl
      obtain ⟨s, hs, rfl⟩ := List.mem_map.1 hl
      exact hdot s hs
    · simpa using hne
  rw [splitKeys, String.toList_intercalate]
  change ((['.'].intercalate (path.map String.toList)).splitOn '.').map String.ofList = path
  rw [hsplit, List.map_map, hid, List.map_id]

theorem fullKey_of_ne (h : nspace ≠ "") (path : List String) :
    fullKey nspace path = ".".intercalate (nspace :: path) := by
  induction path generalizing nspace with
  | nil => rw [String.intercalate_singleton]; rfl
  | cons a path ih =>
    have hcombine : combineFullKey nspace a = nspace ++ ("." ++ a) := by
      rw [combineFullKey, if_neg (by simpa using h), String.append_assoc]
    have hne : nspace ++ ("." ++ a) ≠ "" := by simp [h]
    rw [fullKey, List.foldl_cons, hcombine]
    change fullKey _ path = _
    rw [ih hne, String.intercalate_cons_append, String.intercalate_cons_append,
      String.intercalate_cons_cons, String.append_assoc]

/-- In the namespace of all keys, empty parts at the start are lost. -/
theorem fullKey_empty (path : List String) :
    fullKey "" path = ".".intercalate (path.dropWhile fun s => s == "") := by
  induction path with
  | nil => rfl
  | cons a path ih =>
    have hcombine : fullKey "" (a :: path) = fullKey a path := rfl
    rw [hcombine]
    by_cases ha : a = ""
    · rw [ha, ih, List.dropWhile_cons_of_pos rfl]
    · rw [fullKey_of_ne ha, List.dropWhile_cons_of_neg (by simpa using ha)]

theorem length_intercalate_dropWhile_le (path : List String) :
    (".".intercalate (path.dropWhile fun s => s == "")).length ≤ (".".intercalate path).length := by
  induction path with
  | nil => exact le_rfl
  | cons a path ih =>
    by_cases ha : a = ""
    · rw [List.dropWhile_cons_of_pos (by simpa using ha)]
      refine ih.trans ?_
      rcases path with _ | ⟨b, path⟩
      · simp
      · rw [String.intercalate_cons_cons, String.length_append]
        omega
    · rw [List.dropWhile_cons_of_neg (by simpa using ha)]

/-! ### Keys under a namespace -/

/-- A key is under a namespace, with the parts behind it. -/
def Under (nspace : String) (k : ConfigKey) (path : List String) : Prop :=
  path ≠ [] ∧ k.subKeys = (ConfigKey.ofString nspace).subKeys ++ path

variable {k : ConfigKey}

theorem Under.toString_of_ne (h : Under nspace k path) (hns : nspace ≠ "") :
    k.toString = nspace ++ "." ++ ".".intercalate path := by
  rw [ConfigKey.toString, h.2,
    String.intercalate_append_of_ne_nil (ConfigKey.subKeys_ofString_ne_nil hns) h.1]
  exact congrArg (· ++ "." ++ ".".intercalate path) (ConfigKey.toString_ofString nspace)

theorem Under.toString_of_empty (h : Under "" k path) : k.toString = ".".intercalate path :=
  congrArg ".".intercalate h.2

theorem Under.splitKeys (h : Under nspace k path) : splitKeys (".".intercalate path) = path := by
  refine splitKeys_intercalate h.1 fun s hs => k.dotFree s ?_
  rw [h.2]
  exact List.mem_append_right _ hs

/-- Of a key under a namespace, the namespace goes, and whatever is like it in the rest. -/
theorem Under.cutKey (h : Under nspace k path) (hns : nspace ≠ "") :
    cutKey nspace k.toString =
      String.ofList (deleteAll (nspace ++ ".").toList (".".intercalate path).toList) := by
  have hlen : nspace.length > 0 := by
    rw [gt_iff_lt, Nat.pos_iff_ne_zero]
    simpa using hns
  have hword : (nspace ++ ".").toList ≠ [] := by simp
  have htext : k.toString.toList = (nspace ++ ".").toList ++ (".".intercalate path).toList := by
    rw [h.toString_of_ne hns, String.toList_append]
  rw [LazySysAdmin.cutKey, if_pos hlen, htext, deleteAll_append_self hword]

/-- Where the name of the namespace does not come again, a key is cut behind it. -/
theorem Under.splitKeys_cutKey (h : Under nspace k path) (hclean : Clean nspace path) :
    LazySysAdmin.splitKeys (LazySysAdmin.cutKey nspace k.toString) = path := by
  by_cases hns : nspace = ""
  · subst hns
    rw [LazySysAdmin.cutKey, if_neg (by decide), h.toString_of_empty, h.splitKeys]
  · rw [Clean, if_neg hns] at hclean
    rw [h.cutKey hns, deleteAll_eq_self hclean, String.ofList_toList, h.splitKeys]

/-- The parts of a clean key lead to it, and those before the last one to its namespaces. -/
theorem Clean.fullKey (h : Clean nspace path) (hpath : path ≠ []) :
    fullKey nspace path = ".".intercalate ((ConfigKey.ofString nspace).subKeys ++ path) := by
  by_cases hns : nspace = ""
  · subst hns
    rw [Clean, if_pos rfl] at h
    obtain ⟨a, path, rfl⟩ := List.exists_cons_of_ne_nil hpath
    have ha : a ≠ "" := fun ha => h (congrArg some ha)
    rw [fullKey_empty, List.dropWhile_cons_of_neg (by simpa using ha)]
    rfl
  · have htext : ".".intercalate (ConfigKey.ofString nspace).subKeys = nspace :=
      ConfigKey.toString_ofString nspace
    rw [fullKey_of_ne hns, String.intercalate_append_of_ne_nil
      (ConfigKey.subKeys_ofString_ne_nil hns) hpath, htext,
      String.intercalate_cons_of_ne_nil hpath]

/-- Such a key is cached under its own name. -/
theorem Under.cachedKey_of_clean (h : Under nspace k path) (hclean : Clean nspace path) :
    cachedKey nspace k.toString = k.toString := by
  rw [cachedKey, h.splitKeys_cutKey hclean, hclean.fullKey h.1, ConfigKey.toString, h.2]

/-- A key that is not clean is cached under a shorter text. -/
theorem Under.length_cachedKey_lt (h : Under nspace k path) (hk : k.Readable)
    (hclean : ¬Clean nspace path) :
    (cachedKey nspace k.toString).length < k.toString.length := by
  rw [cachedKey]
  by_cases hns : nspace = ""
  · subst hns
    rw [Clean, if_pos rfl, not_not] at hclean
    rw [LazySysAdmin.cutKey, if_neg (by decide), h.toString_of_empty, h.splitKeys, fullKey_empty]
    obtain ⟨a, rest, rfl⟩ := List.exists_cons_of_ne_nil h.1
    obtain rfl : a = "" := Option.some.inj hclean
    rw [List.dropWhile_cons_of_pos rfl]
    have hle := length_intercalate_dropWhile_le rest
    have hrest : rest ≠ [] := fun hnil => hk (h.2.trans (by rw [hnil]; rfl))
    rw [String.intercalate_cons_of_ne_nil hrest, String.length_append, String.length_append]
    have hdot : ".".length = 1 := rfl
    omega
  · rw [Clean, if_neg hns, not_not] at hclean
    have hlt := length_deleteAll_lt (by simp) hclean
    rw [String.length_toList] at hlt
    rw [h.cutKey hns, fullKey_of_ne hns, String.intercalate_cons_of_ne_nil (splitKeys_ne_nil _),
      intercalate_splitKeys, h.toString_of_ne hns]
    simp only [String.length_append, String.length_ofList]
    omega

/-! ## Going through a fetcher -/

/-- The parts of the rest of the key of a field. -/
def partsOf (nspace : String) (kvs : MappedField) : List String :=
  splitKeys (cutKey nspace kvs.key)

theorem cachedKey_key (nspace : String) (kvs : MappedField) :
    cachedKey nspace kvs.key = fullKey nspace (partsOf nspace kvs) := by
  rw [cachedKey, partsOf]

theorem partsOf_ne_nil (nspace : String) (kvs : MappedField) : partsOf nspace kvs ≠ [] :=
  splitKeys_ne_nil _

section

variable {fields : List MappedField} {kvs : MappedField} {st : Cache × List String}

theorem iterStep_fst : (iterStep nspace st kvs).1 =
    st.1.insertPath nspace (partsOf nspace kvs) (unpackFromProto kvs) := by
  rw [iterStep, partsOf]

/-- Each first part is given once. -/
theorem yielded_foldl (hn : st.2.Nodup) : (fields.foldl (iterStep nspace) st).2.Nodup ∧
    ∀ name, name ∈ (fields.foldl (iterStep nspace) st).2 ↔
      name ∈ st.2 ∨ ∃ kvs ∈ fields, (partsOf nspace kvs).headD "" = name := by
  induction fields generalizing st with
  | nil => exact ⟨hn, fun _ => by simp⟩
  | cons kvs fields ih =>
    have hstep : (iterStep nspace st kvs).2.Nodup ∧ ∀ name, name ∈ (iterStep nspace st kvs).2 ↔
        name ∈ st.2 ∨ (partsOf nspace kvs).headD "" = name := by
      change (ite _ _ _ : List String).Nodup ∧ ∀ name, name ∈ (ite _ _ _ : List String) ↔ _
      split
      · next h => exact ⟨hn, fun name => ⟨.inl, fun hname => hname.elim id fun he => he ▸ h⟩⟩
      · next h =>
        refine ⟨List.nodup_append.2 ⟨hn, List.nodup_singleton _, ?_⟩, fun name => ?_⟩
        · intro a ha b hb hab
          rw [List.mem_singleton.1 hb] at hab
          exact h (hab ▸ ha)
        · rw [List.mem_append, List.mem_singleton, eq_comm (a := name)]
          rfl
    obtain ⟨hnodup, hmem⟩ := ih hstep.1
    rw [List.foldl_cons]
    refine ⟨hnodup, fun name => ?_⟩
    rw [hmem, hstep.2, List.exists_mem_cons_iff, or_assoc]

/-- Looking up finds the last field whose parts are looked up. -/
theorem lookup_foldl :
    (fields.foldl (iterStep nspace) st).1.lookup nspace path =
      (lastWrite path (fields.map fun kvs => (partsOf nspace kvs, unpackFromProto kvs))).or
        (st.1.lookup nspace path) := by
  induction fields generalizing st with
  | nil => rfl
  | cons kvs fields ih =>
    have hstep : (iterStep nspace st kvs).1.lookup nspace path =
        (if partsOf nspace kvs = path then some (unpackFromProto kvs) else none).or
          (st.1.lookup nspace path) := by
      rw [iterStep_fst, Cache.lookup_insertPath (partsOf_ne_nil nspace kvs)]
      split <;> rfl
    rw [List.foldl_cons, ih, hstep, List.map_cons, lastWrite, Option.or_assoc]

theorem exists_caches_foldl : (∃ w, (fields.foldl (iterStep nspace) st).1.Caches text w) ↔
    (∃ w, st.1.Caches text w) ∨ ∃ kvs ∈ fields, text = cachedKey nspace kvs.key := by
  induction fields generalizing st with
  | nil => simp
  | cons kvs fields ih =>
    -- A field overwrites its own key at most.
    have hstep : (∃ w, (iterStep nspace st kvs).1.Caches text w) ↔
        (∃ w, st.1.Caches text w) ∨ text = cachedKey nspace kvs.key := by
      rw [iterStep_fst]
      constructor
      · rintro ⟨w, h⟩
        obtain ⟨htext, _⟩ | h := Cache.caches_of_insertPath (partsOf_ne_nil nspace kvs) h
        · exact .inr htext
        · exact .inl ⟨w, h⟩
      · intro h
        by_cases htext : text = cachedKey nspace kvs.key
        · rw [htext]
          exact ⟨_, Cache.caches_insertPath (partsOf_ne_nil nspace kvs)⟩
        · obtain ⟨w, h⟩ := h.resolve_right htext
          exact ⟨w, h.insertPath htext⟩
    rw [List.foldl_cons, ih, hstep, List.exists_mem_cons_iff, or_assoc]

/-- If all fields are cached under texts of their own, each one keeps its value. -/
theorem caches_foldl (hn : (fields.map fun kvs => cachedKey nspace kvs.key).Nodup)
    (hnew : ∀ kvs ∈ fields, ∀ w, ¬st.1.Caches (cachedKey nspace kvs.key) w) :
    (fields.foldl (iterStep nspace) st).1.Caches text w ↔
      st.1.Caches text w ∨
        ∃ kvs ∈ fields, text = cachedKey nspace kvs.key ∧ w = unpackFromProto kvs := by
  induction fields generalizing st with
  | nil => simp
  | cons kvs fields ih =>
    have hstep : ∀ text w, (iterStep nspace st kvs).1.Caches text w ↔
        st.1.Caches text w ∨ text = cachedKey nspace kvs.key ∧ w = unpackFromProto kvs := by
      intro text w
      rw [iterStep_fst]
      constructor
      · exact fun h => (Cache.caches_of_insertPath (partsOf_ne_nil nspace kvs) h).symm
      · rintro (h | ⟨htext, rfl⟩)
        · refine h.insertPath fun htext => hnew kvs List.mem_cons_self w ?_
          change st.1.Caches (fullKey nspace (partsOf nspace kvs)) w
          rw [← htext]
          exact h
        · rw [htext]
          exact Cache.caches_insertPath (partsOf_ne_nil nspace kvs)
    rw [List.map_cons, List.nodup_cons] at hn
    rw [List.foldl_cons, ih hn.2, hstep, List.exists_mem_cons_iff, or_assoc]
    intro kvs' hkvs' w' h
    obtain h | ⟨htext, _⟩ := (hstep _ _).1 h
    · exact hnew kvs' (List.mem_cons_of_mem _ hkvs') w' h
    · exact hn.1 (htext ▸ List.mem_map_of_mem hkvs')

theorem cachesSpace_foldl : (fields.foldl (iterStep nspace) st).1.CachesSpace text ↔
    st.1.CachesSpace text ∨ ∃ kvs ∈ fields, ∃ before skey after,
      partsOf nspace kvs = before ++ skey :: after ∧ before ≠ [] ∧
        text = fullKey nspace before := by
  induction fields generalizing st with
  | nil => simp
  | cons kvs fields ih =>
    have hstep : (iterStep nspace st kvs).1.CachesSpace text ↔
        st.1.CachesSpace text ∨ ∃ before skey after,
          partsOf nspace kvs = before ++ skey :: after ∧ before ≠ [] ∧
            text = fullKey nspace before := by
      rw [iterStep_fst]
      constructor
      · exact Cache.cachesSpace_of_insertPath
      · rintro (h | ⟨before, skey, after, hparts, hbefore, rfl⟩)
        · exact h.insertPath
        · rw [hparts]
          exact Cache.cachesSpace_insertPath hbefore
    rw [List.foldl_cons, ih, hstep, List.exists_mem_cons_iff, or_assoc]

end

/-! ## The keys of the server -/

/-- The field of a stored pair. -/
def fieldOf (p : ConfigPair) : MappedField := ⟨p.key.toString, some (copyConfigValue p.value)⟩

@[simp] theorem key_fieldOf (p : ConfigPair) : (fieldOf p).key = p.key.toString := rfl

variable {c : Configurator} {id : UInt32} {kvs : MappedField}

/-- A response lists the pairs of the keys that are asked for. -/
theorem kvs_getHandler (hs : ∀ k v, c.store k = some v → k.isWildcard = false) :
    (SysAdminController.getHandler c text id).kvs =
      (c.get (.ofString text)).pairs.map fieldOf := by
  have hempty : ∀ p ∈ (c.get (.ofString text)).pairs, (!p.value.empty) = true := by
    intro p hp
    rw [MemoryCache.not_empty_of_store ((Configurator.mem_pairs_get hs).1 hp).1]
    rfl
  have hkvs : addKvs (c.get (.ofString text)).pairs =
      (c.get (.ofString text)).pairs.map fieldOf := by
    rw [addKvs, List.filter_eq_self.2 hempty]
    rfl
  rw [SysAdminController.getHandler, SysAdminController.getResponse, translateFromGet, ← hkvs]
  split
  · next h =>
    rw [List.length_eq_zero_iff.1 h]
    rfl
  · rfl

/-- The server answers the stored keys that the text selects. -/
theorem mem_kvs (hs : ∀ k v, c.store k = some v → k.isWildcard = false) :
    kvs ∈ (SysAdminController.getHandler c text id).kvs ↔
      ∃ p : ConfigPair, (c.store p.key = some p.value ∧ (ConfigKey.ofString text).Selects p.key) ∧
        kvs = fieldOf p := by
  rw [kvs_getHandler hs, List.mem_map]
  refine exists_congr fun p => and_congr (Configurator.mem_pairs_get hs) ?_
  exact eq_comm

/-- The key with a part more than the namespace. -/
theorem subKeys_combineFullKey (hskey : skey ≠ "") (hdot : '.' ∉ skey.toList) :
    (ConfigKey.ofString (combineFullKey nspace skey)).subKeys =
      (ConfigKey.ofString nspace).subKeys ++ [skey] := by
  have hfree : ∀ s ∈ (ConfigKey.ofString nspace).subKeys ++ [skey], '.' ∉ s.toList := by
    intro s hs
    rcases List.mem_append.1 hs with hs | hs
    · exact (ConfigKey.ofString nspace).dotFree s hs
    · rwa [List.mem_singleton.1 hs]
  obtain ⟨k, hk⟩ : ∃ k : ConfigKey, k.subKeys = (ConfigKey.ofString nspace).subKeys ++ [skey] :=
    ⟨⟨_, hfree⟩, rfl⟩
  have hunder : Under nspace k [skey] := ⟨List.cons_ne_nil _ _, hk⟩
  have hread : k.Readable := by
    rw [ConfigKey.Readable, hk]
    intro h
    have hlast := congrArg List.getLast? h
    rw [List.getLast?_concat] at hlast
    exact hskey (Option.some.inj hlast)
  have htext : combineFullKey nspace skey = k.toString := by
    by_cases hns : nspace = ""
    · subst hns
      rw [hunder.toString_of_empty]
      rfl
    · rw [hunder.toString_of_ne hns, combineFullKey, if_neg (by simpa using hns)]
      rfl
  rw [htext, ConfigKey.ofString_toString hread, hk]

/-- Asking for `*` in a namespace gives the keys under it. -/
theorem selects_star_iff (hns : (ConfigKey.ofString nspace).isWildcard = false) :
    (ConfigKey.ofString (combineFullKey nspace "*")).Selects k ↔ ∃ path, Under nspace k path := by
  have hstar : "*" ∉ (ConfigKey.ofString nspace).subKeys := by
    simpa [ConfigKey.isWildcard] using hns
  rw [ConfigKey.Selects, subKeys_combineFullKey (by decide) (by decide), if_pos (by simp)]
  constructor
  · rintro ⟨hlen, hsub⟩
    rw [List.length_append, List.length_singleton] at hlen
    have hpre : (ConfigKey.ofString nspace).subKeys <+: k.subKeys := by
      rw [List.prefix_iff_getElem?]
      intro i hi
      refine hsub i _ ?_ fun he => hstar (he ▸ List.getElem_mem hi)
      rw [List.getElem?_append_left hi, List.getElem?_eq_getElem hi]
    obtain ⟨path, hpath⟩ := hpre
    refine ⟨path, ?_, hpath.symm⟩
    rintro rfl
    rw [← hpath, List.append_nil] at hlen
    omega
  · rintro ⟨path, hpath, hk⟩
    have hlen : 0 < path.length := List.length_pos_iff.2 hpath
    rw [hk, List.length_append, List.length_append, List.length_singleton]
    refine ⟨by omega, fun i s hi hs => ?_⟩
    rw [List.getElem?_append] at hi ⊢
    split at hi
    · next h => rw [if_pos h, hi]
    · exact absurd (List.mem_singleton.1 (List.mem_of_getElem? hi)) hs

/-! ## What a fetcher has fetched -/

/-- There is a stored key with the text and the value. -/
def Stores (c : Configurator) (text : String) (w : PyValue) : Prop :=
  ∃ p : ConfigPair, c.store p.key = some p.value ∧ text = p.key.toString ∧
    w = unpackFromProto (fieldOf p)

/-- None of the texts that are asked for along a lookup is a pattern. -/
def NoPattern (nspace : String) : List String → Prop
  | [] => True
  | key :: keys => (ConfigKey.ofString (combineFullKey nspace key)).isWildcard = false ∧
      NoPattern (combineFullKey nspace key) keys

/-- The server, as it answers requests to get keys. -/
def server (c : Configurator) (id : UInt32) (text : String) : Sysadminctl.Response :=
  SysAdminController.getHandler c text id

/-- The caches after some lookups. -/
def Cache.lookups (get : String → Sysadminctl.Response) (nspace : String) (cache : Cache)
    (lookups : List (List String)) : Cache :=
  lookups.foldl (fun cache keys => (cache.getItems get nspace keys).2) cache

/-- What a fetcher has given and cached is what the server has under its namespace. Then lookups
    find no values but those of the server. -/
structure Fetched (c : Configurator) (id : UInt32) (nspace : String)
    (fetched : Cache × List String) : Prop where
  nodup : fetched.2.Nodup
  mem_iff : ∀ name, name ∈ fetched.2 ↔ ∃ p : ConfigPair, c.store p.key = some p.value ∧
    ∃ path, Under nspace p.key (name :: path)
  caches_iff : ∀ text w, fetched.1.Caches text w ↔ ∃ p : ConfigPair,
    (c.store p.key = some p.value ∧ ∃ path, Under nspace p.key path) ∧
      text = p.key.toString ∧ w = unpackFromProto (fieldOf p)
  lookup_iff : ∀ path w, fetched.1.lookup nspace path = some w ↔ ∃ p : ConfigPair,
    (c.store p.key = some p.value ∧ Under nspace p.key path) ∧ w = unpackFromProto (fieldOf p)
  cachesSpace_iff : ∀ text, fetched.1.CachesSpace text ↔ ∃ p : ConfigPair,
    c.store p.key = some p.value ∧ ∃ before skey after,
      Under nspace p.key (before ++ skey :: after) ∧ before ≠ [] ∧
        text = ".".intercalate ((ConfigKey.ofString nspace).subKeys ++ before)
  stores_of_getItems : ∀ lookups keys w, (∀ keys ∈ lookups, NoPattern nspace keys) →
    NoPattern nspace keys →
    ((fetched.1.lookups (server c id) nspace lookups).getItems (server c id) nspace keys).1 =
      some (.value w) → Stores c (fullKey nspace keys) w

/-! ### Lookups -/

/-- All values in the caches are those of the server. -/
def Cache.Holds (c : Configurator) (cache : Cache) : Prop :=
  ∀ text w, cache.Caches text w → Stores c text w

/-- What has been looked up under a text is that of the server, or has been cached under it. -/
def Item.Holds (c : Configurator) (text : String) : Option Item → Prop
  | none => True
  | some (.value w) => Stores c text w
  | some (.fetcher f) => f.nspace = text ∧ f.cache.Holds c

theorem Cache.holds_empty : Cache.empty.Holds c := fun _ _ h => absurd h Cache.not_caches_empty

theorem Cache.Holds.of_dlookup {nested : Cache} {key : String} (h : cache.Holds c)
    (hkey : cache.subNamespaces.dlookup key = some nested) : nested.Holds c :=
  fun text w hc => h text w (.sub hkey hc)

/-- A fetcher may be cached, if its values are those of the server. -/
theorem Cache.Holds.kinsert_space {nested : Cache} {key : String} (h : cache.Holds c)
    (hnested : nested.Holds c) :
    (Cache.mk (cache.subNamespaces.kinsert key nested) cache.namespaceItems).Holds c := by
  rintro text w (hc | ⟨hkey', hc⟩)
  · exact h text w (.item hc)
  · next nested' key' =>
    by_cases hkey : key' = key
    · subst hkey
      rw [Cache.subNamespaces_mk, List.dlookup_kinsert] at hkey'
      rw [← Option.some.inj hkey'] at hc
      exact hnested text w hc
    · rw [Cache.subNamespaces_mk, List.dlookup_kinsert_ne hkey] at hkey'
      exact h text w (.sub hkey' hc)

/-- A value of the server may be cached under its text. -/
theorem Cache.Holds.kinsert_item {key : String} (h : cache.Holds c) (hv : Stores c key v) :
    (Cache.mk cache.subNamespaces (cache.namespaceItems.kinsert key v)).Holds c := by
  rintro text w (hc | ⟨hkey, hc⟩)
  · by_cases htext : text = key
    · subst htext
      rw [Cache.namespaceItems_mk, List.dlookup_kinsert] at hc
      rwa [← Option.some.inj hc]
    · rw [Cache.namespaceItems_mk, List.dlookup_kinsert_ne htext] at hc
      exact h text w (.item hc)
  · exact h text w (.sub hkey hc)

/-- The response to a request to get a key has its value. -/
theorem stores_of_mem_kvs (hs : ∀ k v, c.store k = some v → k.isWildcard = false)
    (hw : (ConfigKey.ofString text).isWildcard = false) (hkvs : kvs ∈ (server c id text).kvs) :
    Stores c text (unpackFromProto kvs) := by
  obtain ⟨p, ⟨hp, hsel⟩, rfl⟩ := (mem_kvs hs).1 hkvs
  have hstar : "*" ∉ (ConfigKey.ofString text).subKeys := by
    simpa [ConfigKey.isWildcard] using hw
  rw [ConfigKey.Selects, if_neg hstar] at hsel
  exact ⟨p, hp, by rw [hsel, ConfigKey.toString_ofString], rfl⟩

theorem holds_fetchUpdate {key : String} (hs : ∀ k v, c.store k = some v → k.isWildcard = false)
    (hw : (ConfigKey.ofString key).isWildcard = false) (h : cache.Holds c) :
    Item.Holds c key (cache.fetchUpdate (server c id) key).1 ∧
      (cache.fetchUpdate (server c id) key).2.Holds c := by
  rw [Cache.fetchUpdate]
  split
  · next v hitem => exact ⟨h key v (.item hitem), h⟩
  · next nested _ hkey => exact ⟨⟨rfl, h.of_dlookup hkey⟩, h⟩
  · dsimp only
    split
    · exact ⟨⟨rfl, Cache.holds_empty⟩, h.kinsert_space Cache.holds_empty⟩
    · rcases hkvs : (server c id key).kvs.head? with _ | kvs
      · exact ⟨trivial, h⟩
      · have hv := stores_of_mem_kvs hs hw (List.mem_of_head? hkvs)
        exact ⟨hv, h.kinsert_item hv⟩

/-- What a lookup gives is in the store, from the cache as well as from the server. -/
theorem holds_getItems {keys : List String}
    (hs : ∀ k v, c.store k = some v → k.isWildcard = false) (h : cache.Holds c)
    (hkeys : NoPattern nspace keys) :
    (∀ w, (cache.getItems (server c id) nspace keys).1 = some (.value w) →
      Stores c (fullKey nspace keys) w) ∧
      (cache.getItems (server c id) nspace keys).2.Holds c := by
  induction keys generalizing nspace cache with
  | nil => exact ⟨nofun, h⟩
  | cons key keys ih =>
    obtain ⟨hitem, hcache⟩ := @holds_fetchUpdate _ _ id _ hs hkeys.1 h
    rw [Cache.getItems]
    rcases hr : cache.fetchUpdate (server c id) (combineFullKey nspace key) with ⟨_ | item, cache'⟩
    · rw [hr] at hcache
      exact ⟨nofun, hcache⟩
    · rw [hr] at hitem hcache
      rcases item with v | f
      · refine ⟨fun w hw => ?_, hcache⟩
        dsimp only at hw
        split at hw
        · next hnil =>
          obtain rfl : v = w := Item.value.inj (Option.some.inj hw)
          subst hnil
          exact hitem
        · cases hw
      · rcases f with ⟨name, nested⟩
        obtain ⟨hname, hf⟩ := hitem
        obtain rfl : name = combineFullKey nspace key := hname
        have hnested := ih hf hkeys.2
        exact ⟨hnested.1, hcache.kinsert_space hnested.2⟩

theorem holds_lookups {lookups : List (List String)}
    (hs : ∀ k v, c.store k = some v → k.isWildcard = false) (h : cache.Holds c)
    (hkeys : ∀ keys ∈ lookups, NoPattern nspace keys) :
    (cache.lookups (server c id) nspace lookups).Holds c := by
  induction lookups generalizing cache with
  | nil => exact h
  | cons keys lookups ih =>
    exact ih (holds_getItems hs h (hkeys keys List.mem_cons_self)).2
      fun keys' h' => hkeys keys' (List.mem_cons_of_mem _ h')

/-! ### Clean keys -/

theorem Clean.of_append {before after : List String} (h : Clean nspace (before ++ after))
    (hbefore : before ≠ []) : Clean nspace before := by
  by_cases hns : nspace = ""
  · rw [Clean, if_pos hns] at h ⊢
    obtain ⟨a, before, rfl⟩ := List.exists_cons_of_ne_nil hbefore
    exact h
  · rw [Clean, if_neg hns] at h ⊢
    refine fun hin => h (hin.trans ?_)
    by_cases hafter : after = []
    · rw [hafter, List.append_nil]
    · rw [String.intercalate_append_of_ne_nil hbefore hafter, String.append_assoc,
        String.toList_append]
      exact (List.prefix_append _ _).isInfix

/-- A new fetcher, gone through. -/
def fetch (c : Configurator) (id : UInt32) (nspace : String) : Cache × List String :=
  NamespaceFetcher.iter (server c id) ⟨nspace, .empty⟩

/-- The fields that a fetcher goes through. -/
def fields (c : Configurator) (nspace : String) : List MappedField :=
  (c.get (.ofString (combineFullKey nspace "*"))).pairs.map fieldOf

/-- All keys under the namespace are clean. -/
def AllClean (c : Configurator) (nspace : String) : Prop :=
  ∀ k v path, c.store k = some v → Under nspace k path → Clean nspace path

theorem AllClean.partsOf_eq (hclean : AllClean c nspace) {p : ConfigPair}
    (hp : c.store p.key = some p.value) (hunder : Under nspace p.key path) :
    partsOf nspace (fieldOf p) = path :=
  hunder.splitKeys_cutKey (hclean _ _ _ hp hunder)

section

variable (hs : ∀ k v, c.store k = some v → k.Named)
  (hns : (ConfigKey.ofString nspace).isWildcard = false)

include hs

theorem fetch_eq : fetch c id nspace = (fields c nspace).foldl (iterStep nspace) (.empty, []) := by
  rw [fetch, NamespaceFetcher.iter, server, kvs_getHandler fun k v hv => (hs k v hv).not_wildcard]
  rfl

include hns

theorem exists_mem_fields {P : MappedField → Prop} : (∃ kvs ∈ fields c nspace, P kvs) ↔
    ∃ p : ConfigPair, (c.store p.key = some p.value ∧ ∃ path, Under nspace p.key path) ∧
      P (fieldOf p) := by
  simp only [fields, List.mem_map, exists_exists_and_eq_and,
    Configurator.mem_pairs_get fun k v hv => (hs k v hv).not_wildcard, selects_star_iff hns]

theorem exists_caches_fetch : (∃ w, (fetch c id nspace).1.Caches text w) ↔ ∃ p : ConfigPair,
    (c.store p.key = some p.value ∧ ∃ path, Under nspace p.key path) ∧
      text = cachedKey nspace p.key.toString := by
  rw [fetch_eq hs, exists_caches_foldl, or_iff_right, exists_mem_fields hs hns]
  · rfl
  · exact fun ⟨w, h⟩ => Cache.not_caches_empty h

/-- Such keys are not mixed up in the cache. -/
theorem nodup_cachedKey (hclean : AllClean c nspace) :
    ((fields c nspace).map fun kvs => cachedKey nspace kvs.key).Nodup := by
  have hmem : ∀ p ∈ (c.get (.ofString (combineFullKey nspace "*"))).pairs,
      c.store p.key = some p.value ∧ ∃ path, Under nspace p.key path := by
    intro p hp
    rwa [Configurator.mem_pairs_get fun k v hv => (hs k v hv).not_wildcard,
      selects_star_iff hns] at hp
  have htext : (fields c nspace).map (fun kvs => cachedKey nspace kvs.key) =
      ((c.get (.ofString (combineFullKey nspace "*"))).pairs.map ConfigPair.key).map
        ConfigKey.toString := by
    rw [fields, List.map_map, List.map_map]
    refine List.map_congr_left fun p hp => ?_
    obtain ⟨hv, path, hunder⟩ := hmem p hp
    rw [Function.comp_apply, Function.comp_apply, key_fieldOf]
    exact hunder.cachedKey_of_clean (hclean _ _ _ hv hunder)
  rw [htext]
  refine List.Nodup.map_on ?_ (ConfigPairMap.nodup_pairs _)
  intro k hk k' hk' he
  obtain ⟨p, hp, rfl⟩ := List.mem_map.1 hk
  obtain ⟨p', hp', rfl⟩ := List.mem_map.1 hk'
  rw [← ConfigKey.ofString_toString (hs _ _ (hmem p hp).1).readable, he,
    ConfigKey.ofString_toString (hs _ _ (hmem p' hp').1).readable]

/-! ### What is fetched of clean keys -/

/-- All of them are cached, each with its value. -/
theorem caches_fetch_iff (hclean : AllClean c nspace) (text : String) (w : PyValue) :
    (fetch c id nspace).1.Caches text w ↔ ∃ p : ConfigPair,
      (c.store p.key = some p.value ∧ ∃ path, Under nspace p.key path) ∧
        text = p.key.toString ∧ w = unpackFromProto (fieldOf p) := by
  rw [fetch_eq hs, caches_foldl (nodup_cachedKey hs hns hclean)
    fun _ _ _ => Cache.not_caches_empty, or_iff_right Cache.not_caches_empty,
    exists_mem_fields hs hns]
  refine exists_congr fun p => and_congr_right fun ⟨hp, path, hunder⟩ => ?_
  rw [key_fieldOf, hunder.cachedKey_of_clean (hclean _ _ _ hp hunder)]

/-- The names that the iteration gives are those of the parts below the namespace. -/
theorem mem_fetch_iff (hclean : AllClean c nspace) (name : String) :
    name ∈ (fetch c id nspace).2 ↔ ∃ p : ConfigPair, c.store p.key = some p.value ∧
      ∃ path, Under nspace p.key (name :: path) := by
  rw [fetch_eq hs, (yielded_foldl List.nodup_nil).2, or_iff_right List.not_mem_nil,
    exists_mem_fields hs hns]
  refine exists_congr fun p => ?_
  constructor
  · rintro ⟨⟨hp, path, hunder⟩, hname⟩
    rw [hclean.partsOf_eq hp hunder] at hname
    obtain ⟨a, path, rfl⟩ := List.exists_cons_of_ne_nil hunder.1
    obtain rfl : a = name := hname
    exact ⟨hp, path, hunder⟩
  · rintro ⟨hp, path, hunder⟩
    refine ⟨⟨hp, _, hunder⟩, ?_⟩
    rw [hclean.partsOf_eq hp hunder]
    rfl

theorem lookup_fetch_iff (hclean : AllClean c nspace) (path : List String) (w : PyValue) :
    (fetch c id nspace).1.lookup nspace path = some w ↔ ∃ p : ConfigPair,
      (c.store p.key = some p.value ∧ Under nspace p.key path) ∧
        w = unpackFromProto (fieldOf p) := by
  have hn : (((fields c nspace).map fun kvs =>
      (partsOf nspace kvs, unpackFromProto kvs)).map Prod.fst).Nodup := by
    rw [List.map_map]
    refine List.Nodup.of_map (fullKey nspace) ?_
    rw [List.map_map]
    simpa only [Function.comp_def, cachedKey_key] using nodup_cachedKey hs hns hclean
  rw [fetch_eq hs, lookup_foldl, Cache.lookup_empty, Option.or_none,
    lastWrite_eq_some_iff hn, List.mem_map, exists_mem_fields hs hns]
  refine exists_congr fun p => ?_
  constructor
  · rintro ⟨⟨hp, path', hunder⟩, he⟩
    obtain ⟨hpath, hw⟩ := Prod.mk.inj he
    rw [hclean.partsOf_eq hp hunder] at hpath
    exact ⟨⟨hp, hpath ▸ hunder⟩, hw.symm⟩
  · rintro ⟨⟨hp, hunder⟩, rfl⟩
    exact ⟨⟨hp, path, hunder⟩, by rw [hclean.partsOf_eq hp hunder]⟩

theorem cachesSpace_fetch_iff (hclean : AllClean c nspace) (text : String) :
    (fetch c id nspace).1.CachesSpace text ↔ ∃ p : ConfigPair,
      c.store p.key = some p.value ∧ ∃ before skey after,
        Under nspace p.key (before ++ skey :: after) ∧ before ≠ [] ∧
          text = ".".intercalate ((ConfigKey.ofString nspace).subKeys ++ before) := by
  rw [fetch_eq hs, cachesSpace_foldl, or_iff_right Cache.not_cachesSpace_empty,
    exists_mem_fields hs hns]
  refine exists_congr fun p => ?_
  constructor
  · rintro ⟨⟨hp, path, hunder⟩, before, skey, after, he, hbefore, rfl⟩
    rw [hclean.partsOf_eq hp hunder] at he
    subst he
    have hclean' := (hclean _ _ _ hp hunder).of_append hbefore
    exact ⟨hp, before, skey, after, hunder, hbefore, hclean'.fullKey hbefore⟩
  · rintro ⟨hp, before, skey, after, hunder, hbefore, rfl⟩
    have hclean' := (hclean _ _ _ hp hunder).of_append hbefore
    exact ⟨⟨hp, _, hunder⟩, before, skey, after, hclean.partsOf_eq hp hunder, hbefore,
      (hclean'.fullKey hbefore).symm⟩

/-- If all keys under the namespace are clean, all of them are fetched. -/
theorem fetched_of_clean (hclean : AllClean c nspace) :
    Fetched c id nspace (fetch c id nspace) where
  nodup := by
    rw [fetch_eq hs]
    exact (yielded_foldl List.nodup_nil).1
  mem_iff := mem_fetch_iff hs hns hclean
  caches_iff := caches_fetch_iff hs hns hclean
  lookup_iff := lookup_fetch_iff hs hns hclean
  cachesSpace_iff := cachesSpace_fetch_iff hs hns hclean
  stores_of_getItems lookups keys w hlookups hkeys := by
    have hw := fun k v hv => (hs k v hv).not_wildcard
    have hholds : (fetch c id nspace).1.Holds c := by
      intro text w h
      obtain ⟨p, hp, htext, hw⟩ := (caches_fetch_iff hs hns hclean text w).1 h
      exact ⟨p, hp.1, htext, hw⟩
    exact (holds_getItems hw (holds_lookups hw hholds hlookups) hkeys).1 w

/-! ### Keys that are not clean -/

/-- If a key that is not clean is fetched, there is a longer one: where its value is cached, only
    that of a longer key can be. -/
theorem exists_longer (h : Fetched c id nspace (fetch c id nspace)) {p : ConfigPair}
    (hp : c.store p.key = some p.value) (hunder : Under nspace p.key path)
    (hclean : ¬Clean nspace path) :
    ∃ (p' : ConfigPair) (path' : List String), c.store p'.key = some p'.value ∧
      Under nspace p'.key path' ∧ ¬Clean nspace path' ∧
        p.key.toString.length < p'.key.toString.length := by
  obtain ⟨p', ⟨hp', path', hunder'⟩, htext⟩ := (exists_caches_fetch hs hns).1
    ⟨_, (h.caches_iff p.key.toString _).2 ⟨p, ⟨hp, path, hunder⟩, rfl, rfl⟩⟩
  have hread := (hs _ _ hp').readable
  have hclean' : ¬Clean nspace path' := by
    intro hclean'
    rw [hunder'.cachedKey_of_clean hclean'] at htext
    have hkey : p.key = p'.key := by
      rw [← ConfigKey.ofString_toString (hs _ _ hp).readable, htext,
        ConfigKey.ofString_toString hread]
    have hpath : path = path' := by
      apply List.append_cancel_left
      rw [← hunder.2, ← hunder'.2, hkey]
    exact hclean (hpath ▸ hclean')
  refine ⟨p', path', hp', hunder', hclean', ?_⟩
  rw [htext]
  exact hunder'.length_cachedKey_lt hread hclean'

/-- Going through a new fetcher fetches the keys under its namespace exactly if all of them are
    clean. -/
theorem fetched_iff : Fetched c id nspace (fetch c id nspace) ↔ AllClean c nspace := by
  refine ⟨fun h => ?_, fetched_of_clean hs hns⟩
  -- A key that is not clean would lead to longer and longer ones, but there are only so many.
  by_contra hclean
  have hlong : ∀ n, ∃ (p : ConfigPair) (path : List String), c.store p.key = some p.value ∧
      Under nspace p.key path ∧ ¬Clean nspace path ∧ n ≤ p.key.toString.length := by
    intro n
    induction n with
    | zero =>
      rw [AllClean] at hclean
      push Not at hclean
      obtain ⟨k, v, path, hv, hunder, hclean⟩ := hclean
      exact ⟨⟨k, v⟩, path, hv, hunder, hclean, Nat.zero_le _⟩
    | succ n ih =>
      obtain ⟨p, path, hp, hunder, hclean, hn⟩ := ih
      obtain ⟨p', path', hp', hunder', hclean', hlt⟩ := exists_longer hs hns h hp hunder hclean
      exact ⟨p', path', hp', hunder', hclean', by omega⟩
  obtain ⟨p, path, hp, hunder, _, hn⟩ :=
    hlong (((fields c nspace).map fun kvs => kvs.key.length).sum + 1)
  have hmem : ∃ kvs ∈ fields c nspace, kvs.key = p.key.toString :=
    (exists_mem_fields hs hns).2 ⟨p, ⟨hp, path, hunder⟩, rfl⟩
  obtain ⟨kvs, hkvs, hkey⟩ := hmem
  have hle : kvs.key.length ≤ ((fields c nspace).map fun kvs => kvs.key.length).sum :=
    List.le_sum_of_mem (List.mem_map.2 ⟨kvs, hkvs, rfl⟩)
  rw [hkey] at hle
  omega

end

/-- No key of the store leads through another one. -/
def PrefixFree (c : Configurator) : Prop :=
  ∀ k v k' v', c.store k = some v → c.store k' = some v' → k.subKeys <+: k'.subKeys → k = k'

/-- The namespace has keys of the store. -/
def IsNamespace (c : Configurator) (nspace : String) : Prop :=
  ∃ k v path, c.store k = some v ∧ Under nspace k path

open Daemon

theorem fetched_iff_net : Fetched (run serve (onEmpty 100)
      [setCommand "net.mtu" 1, setCommand "net.vlan.id" 3, commitCommand]).conf 7 "net"
      (fetch (run serve (onEmpty 100)
        [setCommand "net.mtu" 1, setCommand "net.vlan.id" 3, commitCommand]).conf 7 "net") ↔
    AllClean (run serve (onEmpty 100)
      [setCommand "net.mtu" 1, setCommand "net.vlan.id" 3, commitCommand]).conf "net" :=
  fetched_iff (fun k v hv => keysIn_named_run.stored k v hv) (by decide)

/-- The committed key has the name of the namespace `net` again. -/
def mynet : Configurator :=
  (run serve (onEmpty 100) [setCommand "net.mynet.ip" 1, commitCommand]).conf

theorem store_mynet {v : ConfigValue} : mynet.store k = some v ↔
    k = .ofString "net.mynet.ip" ∧ v = .ofType (.int32 1) := by
  have hpairs : mynet.systemStore.values.pairs =
      [⟨.ofString "net.mynet.ip", .ofType (.int32 1)⟩] := by
    decide +kernel
  have hmem : (⟨k, v⟩ : ConfigPair) ∈ mynet.systemStore.values.pairs ↔ mynet.store k = some v :=
    ConfigPairMap.mem_pairs.trans ConfigPairMap.values_eq_some_iff.symm
  rw [← hmem, hpairs, List.mem_singleton, ConfigPair.mk.injEq]

/-- In the namespace `net`, the key `net.mynet.ip` is taken for `net.myip`. -/
theorem not_forall_fetched : ¬∀ (es : List RequestEvent) (nspace : String),
    PrefixFree (run serve (onEmpty 100) es).conf →
    IsNamespace (run serve (onEmpty 100) es).conf nspace →
      Fetched (run serve (onEmpty 100) es).conf 7 nspace
        (fetch (run serve (onEmpty 100) es).conf 7 nspace) := by
  intro h
  have hstore : mynet.store (.ofString "net.mynet.ip") = some (.ofType (.int32 1)) :=
    store_mynet.2 ⟨rfl, rfl⟩
  have hunder : Under "net" (.ofString "net.mynet.ip") ["mynet", "ip"] :=
    ⟨List.cons_ne_nil _ _, by decide⟩
  have hfetched : Fetched mynet 7 "net" (fetch mynet 7 "net") :=
    h _ "net" (fun _ _ _ _ h₁ h₂ _ => (store_mynet.1 h₁).1.trans (store_mynet.1 h₂).1.symm)
      ⟨_, _, _, hstore, hunder⟩
  have hmynet := (hfetched.mem_iff "mynet").2 ⟨⟨_, _⟩, hstore, ["ip"], hunder⟩
  revert hmynet
  decide +kernel

end LazySysAdmin

end SysAdmin
