import SysAdmin.LocalYAMLStorage

/-!
# Keys and their places on disk

A key goes to an entry of a file, and is found back from the path of the file and the
name of the entry. On the way, a subkey other than the last one becomes an element of the
path. It does not survive this if it is empty, if it is `global`, the name of the file
for keys of a single subkey, or if it contains the separator (`ConfigKey.Kept`).

* `translatePathToKey_fileOf`: what is found back at the place of a key;
* `foundBack_iff`: when this is the key, with what follows for the store on disk. Keys
  found back share no entry, and a store on disk that holds only such keys is read as it
  was written.
-/

namespace SysAdmin

open Writes LocalYAMLStorage

/-! ## Texts -/

namespace ConfigKey

/-- The subkeys of a text that is not empty are its parts between the dots. -/
theorem subKeys_ofString {text : String} (h : text ≠ "") :
    (ofString text).subKeys = (text.toList.splitOn '.').map String.ofList := by
  have hlength : text.length > 0 := by
    rw [← String.length_toList]
    exact List.length_pos_of_ne_nil (by simpa using h)
  exact if_pos hlength

/-- Reading a text as a key and writing the key gives the text. -/
theorem toString_ofString (text : String) : (ofString text).toString = text := by
  rcases eq_or_ne text "" with rfl | h
  · rfl
  · have hid : (String.toList ∘ String.ofList) = id := funext fun _ => String.toList_ofList
    apply String.ext
    rw [toList_toString, subKeys_ofString h, List.map_map, hid, List.map_id]
    exact List.intercalate_splitOn '.'

theorem ofString_inj {text text' : String} : ofString text = ofString text' ↔ text = text' := by
  refine ⟨fun h => ?_, congrArg _⟩
  rw [← toString_ofString text, h, toString_ofString]

/-- A text that is not empty has subkeys. -/
theorem subKeys_ofString_ne_nil {text : String} (h : text ≠ "") : (ofString text).subKeys ≠ [] := by
  intro hnil
  have htext := toString_ofString text
  rw [toString, hnil] at htext
  exact h htext.symm

theorem readable_ofString {text : String} (h : text ≠ "") : (ofString text).Readable :=
  readable_of_toString_ne (by rwa [toString_ofString])

/-- The subkeys that become elements of a path can be found in it. -/
def Kept (k : ConfigKey) : Prop :=
  ∀ s ∈ k.subKeys.dropLast, s ≠ "" ∧ s ≠ "global" ∧ '/' ∉ s.toList

instance (k : ConfigKey) : Decidable k.Kept :=
  inferInstanceAs (Decidable (∀ s ∈ k.subKeys.dropLast, _))

end ConfigKey

/-! ## Paths of keys -/

/-- The path that subkeys make up. -/
def subPath (subKeys : List String) : Path :=
  subKeys.foldl (fun output elem => output.append elem.toList) []

/-- The path of the file of a key, without its extension. -/
def basePath (k : ConfigKey) : Path :=
  if subPath k.subKeys.dropLast = [] then "global".toList else subPath k.subKeys.dropLast

/-- The elements of a path that stand for subkeys. -/
def pathElems (p : Path) : List Path :=
  (p.splitOn '/').filter fun e => e ≠ [] ∧ e ≠ "global".toList

variable {k : ConfigKey} {root p : Path} {subKeys : List String}

theorem subPath_concat {s : String} :
    subPath (subKeys ++ [s]) = (subPath subKeys).append s.toList := by
  rw [subPath, List.foldl_append]
  rfl

theorem dotFree_subPath (h : ∀ s ∈ subKeys, '.' ∉ s.toList) : '.' ∉ subPath subKeys := by
  induction subKeys using List.reverseRecOn with
  | nil => exact List.not_mem_nil
  | append_singleton subKeys s ih =>
    obtain ⟨sep, hsep, happend⟩ := Path.exists_append (subPath subKeys) s.toList
    have hs : '.' ∉ s.toList := h s (by simp)
    have hsubKeys := ih fun s' hs' => h s' (by simp [hs'])
    rw [subPath_concat, happend]
    rcases hsep with rfl | rfl <;> simp [hs, hsubKeys]

theorem dotFree_basePath (k : ConfigKey) : '.' ∉ basePath k := by
  rw [basePath]
  split
  · decide
  · exact dotFree_subPath fun s hs => k.dotFree s (List.mem_of_mem_dropLast hs)

theorem translateKeyToPathPair_fst (k : ConfigKey) :
    (translateKeyToPathPair k).1 = basePath k ++ ".yaml".toList := by
  have hbase : (translateKeyToPathPair k).1 = (basePath k).replaceExtension ".yaml".toList := by
    rw [translateKeyToPathPair, basePath, subPath]
    split
    · next h => rw [h]; rfl
    · rfl
  rw [hbase, Path.replaceExtension, Path.extension_of_dotFree (dotFree_basePath k)]
  simp

/-- What is behind the root comes back when the root is taken out. -/
theorem eraseFound_append (root p : Path) : eraseFound root (root ++ p) = some p := by
  cases root with
  | nil => cases p <;> rfl
  | cons c root =>
    rw [List.cons_append, eraseFound, if_pos]
    · simp
    · simp

/-- A separator in front does not matter. -/
theorem pathElems_append {sep : Path} (h : sep = [] ∨ sep = ['/']) :
    pathElems (sep ++ p) = pathElems p := by
  rcases h with rfl | rfl
  · rfl
  · rw [pathElems, List.singleton_append, ← List.nil_append ('/' :: p),
      List.splitOn_append_cons_self]
    rfl

/-- Nor do separators in a row. -/
theorem pathElems_squeeze : pathElems (p.squeeze.dropWhile (· = '/')) = pathElems p :=
  (Path.filter_splitOn_dropWhile (by simp)).trans (Path.filter_splitOn_squeeze (by simp))

/-- What is found back at the place of a key: the elements of the path, and the name of
    the entry. -/
theorem translatePathToKey_fileOf (root : Path) (k : ConfigKey) :
    translatePathToKey root (fileOf root k) (entryOf k) = some
      (String.ofList ((pathElems (basePath k)).flatMap fun e => e ++ ['.']) ++ entryOf k) := by
  have hext : "yaml".toList ≠ [] ∧ '/' ∉ "yaml".toList ∧ '.' ∉ "yaml".toList := by decide
  obtain ⟨sep, hsep, hbelow⟩ := Path.exists_below_append root (basePath k) hext.2.1
  have hfile : fileOf root k = (root ++ (sep ++ (basePath k).squeeze.dropWhile (· = '/'))) ++
      '.' :: "yaml".toList := by
    rw [fileOf, translateKeyToPathPair_fst]
    exact hbelow
  have hreplace : (fileOf root k).replaceExtension [] =
      root ++ (sep ++ (basePath k).squeeze.dropWhile (· = '/')) := by
    rw [hfile]
    exact Path.replaceExtension_nil hext.1 hext.2.1 hext.2.2
  rw [translatePathToKey, hreplace, eraseFound_append, Option.map_some]
  rw [← pathElems_squeeze, ← pathElems_append hsep, pathElems]

/-! ## Keys found back -/

/-- Elements without dots, with a dot behind each, are told apart again. -/
theorem splitOn_flatMap_append {elems : List Path} {last : Path} (h : ∀ e ∈ elems, '.' ∉ e)
    (hlast : '.' ∉ last) :
    (elems.flatMap (fun e => e ++ ['.']) ++ last).splitOn '.' = elems ++ [last] := by
  induction elems with
  | nil => exact List.splitOn_eq_singleton hlast
  | cons e elems ih =>
    rw [List.forall_mem_cons] at h
    rw [List.flatMap_cons, List.append_assoc, List.append_assoc, List.singleton_append,
      List.splitOn_append_cons_self_of_not_mem h.1, ih h.2, List.cons_append]

theorem dotFree_of_mem_pathElems {e : Path} (hp : '.' ∉ p) (he : e ∈ pathElems p) : '.' ∉ e :=
  fun h => hp (Path.subset_of_mem_splitOn (List.mem_filter.1 he).1 h)

/-- An element of a path is not empty, not `global`, and has no separator. -/
theorem kept_of_mem_pathElems {e : Path} (he : e ∈ pathElems p) :
    e ≠ [] ∧ e ≠ "global".toList ∧ '/' ∉ e := by
  obtain ⟨hsplit, hne⟩ := List.mem_filter.1 he
  rw [decide_eq_true_eq] at hne
  exact ⟨hne.1, hne.2, ConfigKey.not_mem_of_mem_splitOn '/' p e hsplit⟩

/-- A path of subkeys without separators has them as its elements. -/
theorem splitOn_subPath (hne : subKeys ≠ []) (h : ∀ s ∈ subKeys, s ≠ "" ∧ '/' ∉ s.toList) :
    (subPath subKeys).splitOn '/' = subKeys.map String.toList := by
  induction subKeys using List.reverseRecOn with
  | nil => exact absurd rfl hne
  | append_singleton subKeys s ih =>
    obtain ⟨hs, hsep⟩ := h s (by simp)
    have hs : s.toList ≠ [] := by simpa using hs
    have hhead : s.toList.head? ≠ some '/' := fun h => hsep (List.mem_of_head? h)
    rw [subPath_concat, Path.append_eq hs hhead, Path.asDir]
    rcases eq_or_ne subKeys [] with rfl | hsubKeys
    · rw [if_pos (.inl rfl)]
      simpa [subPath] using List.splitOn_eq_singleton hsep
    · have ih := ih hsubKeys fun s' hs' => h s' (by simp [hs'])
      -- A path of such elements is not empty, and does not end in a separator.
      have hlast : ¬(subPath subKeys = [] ∨ (subPath subKeys).getLast? = some '/') := by
        rintro (hnil | hend)
        · rw [hnil] at ih
          obtain ⟨s', hs', hempty⟩ : ∃ s' ∈ subKeys, s'.toList = [] := by
            have hmem : ([] : Path) ∈ subKeys.map String.toList := ih ▸ List.mem_singleton_self _
            exact List.mem_map.1 hmem
          exact (h s' (by simp [hs'])).1 (by simpa using hempty)
        · obtain ⟨p, hp⟩ := List.getLast?_eq_some_iff.1 hend
          have hmem : ([] : Path) ∈ subKeys.map String.toList := by
            rw [← ih, hp, List.splitOn_append_cons_self]
            simp
          obtain ⟨s', hs', hempty⟩ := List.mem_map.1 hmem
          exact (h s' (by simp [hs'])).1 (by simpa using hempty)
      rw [if_neg hlast, List.append_assoc, List.singleton_append, List.splitOn_append_cons_self,
        ih, List.splitOn_eq_singleton hsep, List.map_append, List.map_singleton]

/-- The elements of the path of a key are its subkeys if and only if these are kept. -/
theorem pathElems_basePath_iff :
    pathElems (basePath k) = k.subKeys.dropLast.map String.toList ↔ k.Kept := by
  constructor
  · intro h s hs
    have hmem : s.toList ∈ pathElems (basePath k) := h ▸ List.mem_map_of_mem hs
    obtain ⟨hne, hglobal, hsep⟩ := kept_of_mem_pathElems hmem
    refine ⟨fun h => hne (by rw [h]; rfl), fun h => hglobal (by rw [h]), hsep⟩
  · intro h
    rcases eq_or_ne k.subKeys.dropLast [] with hnil | hne
    · rw [basePath, hnil]
      rfl
    · have hsplit := splitOn_subPath hne fun s hs => ⟨(h s hs).1, (h s hs).2.2⟩
      -- A path without elements would come of an empty subkey.
      have hpath : subPath k.subKeys.dropLast ≠ [] := by
        intro hpath
        obtain ⟨s, hs⟩ := List.exists_mem_of_ne_nil _ hne
        have hmem : s.toList ∈ (subPath k.subKeys.dropLast).splitOn '/' :=
          hsplit ▸ List.mem_map_of_mem hs
        rw [hpath, List.splitOn_nil, List.mem_singleton] at hmem
        exact (h s hs).1 (by simpa using hmem)
      rw [basePath, if_neg hpath, pathElems, hsplit, List.filter_eq_self]
      intro e he
      obtain ⟨s, hs, rfl⟩ := List.mem_map.1 he
      have hkept := h s hs
      rw [decide_eq_true_eq]
      exact ⟨by simpa using hkept.1, fun h => hkept.2.1 (String.ext h)⟩

/-- The text found back at the place of a key is that of the key if and only if its
    subkeys are kept. -/
theorem translatePathToKey_eq_iff (root : Path) (hne : k.subKeys ≠ []) :
    translatePathToKey root (fileOf root k) (entryOf k) = some k.toString ↔ k.Kept := by
  have hentry : entryOf k = k.subKeys.getLast hne := by
    rw [entryOf, translateKeyToPathPair, List.getLast?_eq_some_getLast hne]
    rfl
  have hsubKeys : k.subKeys.map String.toList =
      k.subKeys.dropLast.map String.toList ++ [(entryOf k).toList] := by
    rw [hentry, ← List.map_singleton, ← List.map_append, List.dropLast_append_getLast hne]
  have hdot : '.' ∉ (entryOf k).toList := by
    rw [hentry]
    exact k.dotFree _ (List.getLast_mem hne)
  -- Both texts are told apart by their pieces between the dots.
  have hsplit : (String.ofList ((pathElems (basePath k)).flatMap fun e => e ++ ['.']) ++
      entryOf k).toList.splitOn '.' = pathElems (basePath k) ++ [(entryOf k).toList] := by
    rw [String.toList_append, String.toList_ofList]
    exact splitOn_flatMap_append
      (fun e => dotFree_of_mem_pathElems (dotFree_basePath k)) hdot
  have hkey : k.toString.toList.splitOn '.' =
      k.subKeys.dropLast.map String.toList ++ [(entryOf k).toList] := by
    rw [← hsubKeys, ConfigKey.toList_toString, List.splitOn_intercalate]
    · simpa using k.dotFree
    · simpa using hne
  rw [translatePathToKey_fileOf, Option.some_inj, ← pathElems_basePath_iff]
  constructor
  · intro h
    rw [h, hkey] at hsplit
    exact (List.append_cancel_right hsplit).symm
  · intro h
    rw [h, ← hkey] at hsplit
    have hjoin := congrArg (['.'].intercalate ·) hsplit
    simp only [List.intercalate_splitOn] at hjoin
    rw [← h] at hjoin
    exact String.ext hjoin

/-! ## There and back -/

/-- The text of a key is found back at the place of the key. -/
def FoundBack (root : Path) (text : String) : Prop :=
  translatePathToKey root (fileOf root (.ofString text)) (entryOf (.ofString text)) = some text

instance (root : Path) (text : String) : Decidable (FoundBack root text) :=
  inferInstanceAs (Decidable (_ = _))

theorem FoundBack.roundTrips {text : String} (h : FoundBack root text) :
    RoundTrips root (.ofString text) := by
  rw [RoundTrips, h, Option.map_some]

/-- Writing lists of items to an empty disk, one after the other. -/
def groupSets (root : Path) (batches : List ConfigPairList) : LocalYAMLStorage :=
  batches.foldl groupSet (new root)

/-- A disk that has got items found back only is read as it was written. -/
theorem getAll_groupSets {batches : List ConfigPairList}
    (h : ∀ items ∈ batches, ∀ p ∈ items, Writable root p) :
    ∃ m, (groupSets root batches).getAll = some m ∧
      m.values = overlay (ConfigPairList.writes batches.flatten) fun _ => none := by
  have hwritten : (groupSets root batches).root = root ∧
      Written (groupSets root batches).root (groupSets root batches).files ∧
      (groupSets root batches).diskStore =
        overlay (ConfigPairList.writes batches.flatten) fun _ => none := by
    induction batches using List.reverseRecOn with
    | nil =>
      refine ⟨rfl, written_new, ?_⟩
      funext k
      rw [diskStore]
      split <;> rfl
    | append_singleton batches items ih =>
      obtain ⟨hroot, hfiles, hdisk⟩ := ih fun is his => h is (by simp [his])
      have hitems : ∀ p ∈ items, Writable (groupSets root batches).root p := by
        rw [hroot]
        exact h items (by simp)
      have hstep : groupSets root (batches ++ [items]) =
          (groupSets root batches).groupSet items := by
        rw [groupSets, List.foldl_append]
        rfl
      rw [hstep]
      refine ⟨hroot, hfiles.groupSet hitems, ?_⟩
      rw [diskStore_groupSet hitems, hdisk, ← overlay_append, List.flatten_append,
        List.flatten_singleton]
      simp [ConfigPairList.writes]
  obtain ⟨_, hfiles, hdisk⟩ := hwritten
  obtain ⟨m, hm, hvalues⟩ := getAll_eq hfiles
  exact ⟨m, hm, hvalues.trans hdisk⟩

end SysAdmin
