import SysAdmin.CommitSerializer
import SysAdmin.DaemonRestarts
import SysAdmin.KeyPaths
import SysAdmin.StorageBound

/-!
# Keys on disk

A daemon that is started again has the keys that it reads at the places of the keys written before
(`ConfigKey.found`), which may be others: without the empty subkeys in front of the last one, say.
What is read at the place of the key `.` is the empty text, the key without subkeys.

* `Tame`: a key that clients may set, of which something is left on disk. What is left is such a
  key again (`Tame.found`);
* `Tidy`: a pair the key of which is tame, if it has a value, and names one entry anyway;
* `Daemon.Restartable`: all pairs are tidy, those on disk and in the records of commits included.
  Requests keep this (`Restartable.serve`), and so does a restart (`Restartable.restart`).
-/

namespace SysAdmin

/-! ## What is left of a key -/

section paths

variable {p q : Path} {k : ConfigKey}

/-- The elements of a path are those of its parts. -/
theorem pathElems_path_append : pathElems (p.append q) = pathElems p ++ pathElems q := by
  have hsep : ∀ a b : Path, pathElems (a ++ '/' :: b) = pathElems a ++ pathElems b := fun a b => by
    rw [pathElems, List.splitOn_append_cons_self, List.filter_append]
    rfl
  rw [Path.append]
  split
  · next h =>
    rcases h with rfl | rfl | h | h
    · rfl
    · rw [List.append_nil]
      exact (List.append_nil _).symm
    · -- A separator ends the one or starts the other; it has nothing on its far side.
      obtain ⟨p', rfl⟩ := List.getLast?_eq_some_iff.1 h
      rw [List.append_assoc, List.singleton_append, hsep, hsep, List.append_assoc]
      rfl
    · obtain ⟨q', rfl⟩ := List.head?_eq_some_iff.1 h
      rw [hsep]
      exact congrArg _ (hsep [] q').symm
  · exact hsep p q

theorem pathElems_subPath {subKeys : List String} :
    pathElems (subPath subKeys) = subKeys.flatMap fun s => pathElems s.toList := by
  induction subKeys using List.reverseRecOn with
  | nil => rfl
  | append_singleton subKeys s ih =>
    rw [subPath_concat, pathElems_path_append, ih, List.flatMap_append, List.flatMap_singleton]

/-- In the path of the file of a key, each subkey but the last one leaves its own elements. -/
theorem pathElems_basePath (k : ConfigKey) :
    pathElems (basePath k) = k.subKeys.dropLast.flatMap fun s => pathElems s.toList := by
  rw [basePath, ← pathElems_subPath]
  split
  · next h =>
    rw [h]
    decide
  · rfl

/-- An element of a path has itself as its only element. -/
theorem pathElems_of_mem {e : Path} (he : e ∈ pathElems p) : pathElems e = [e] := by
  obtain ⟨hne, hglobal, hsep⟩ := kept_of_mem_pathElems he
  rw [pathElems, List.splitOn_eq_singleton hsep, List.filter_cons_of_pos, List.filter_nil]
  simpa using ⟨hne, hglobal⟩

end paths

namespace ConfigKey

variable {k : ConfigKey} {text : String}

/-- The text that is read at the place of a key. -/
def found (k : ConfigKey) : String :=
  String.ofList ((pathElems (basePath k)).flatMap fun e => e ++ ['.']) ++ entryOf k

theorem found_eq_empty_iff : k.found = "" ↔ pathElems (basePath k) = [] ∧ entryOf k = "" := by
  rw [found, String.append_eq_empty_iff]
  refine and_congr_left fun _ => ?_
  rcases pathElems (basePath k) with _ | ⟨e, es⟩
  · exact iff_of_true rfl rfl
  · refine iff_of_false (fun h => ?_) (List.cons_ne_nil _ _)
    have hnil := congrArg String.toList h
    rw [String.toList_ofList] at hnil
    simp at hnil

theorem entryOf_eq (hk : k.subKeys ≠ []) : entryOf k = k.subKeys.getLast hk := by
  rw [entryOf, translateKeyToPathPair, List.getLast?_eq_some_getLast hk]
  rfl

/-- Of the key without subkeys, nothing is left. -/
theorem subKeys_ne_nil_of_found (h : k.found ≠ "") : k.subKeys ≠ [] := by
  intro hnil
  refine h (found_eq_empty_iff.2 ⟨?_, ?_⟩)
  · rw [pathElems_basePath, hnil]
    rfl
  · rw [entryOf, translateKeyToPathPair, hnil]
    rfl

/-- What is read at the place of a key, by its subkeys. -/
theorem subKeys_ofString_found (h : k.found ≠ "") : (ofString k.found).subKeys =
    (pathElems (basePath k)).map String.ofList ++ [entryOf k] := by
  have hk := subKeys_ne_nil_of_found h
  have hentry : '.' ∉ (entryOf k).toList := by
    rw [entryOf_eq hk]
    exact k.dotFree _ (List.getLast_mem hk)
  rw [subKeys_ofString h, found, String.toList_append, String.toList_ofList,
    splitOn_flatMap_append (fun e => dotFree_of_mem_pathElems (dotFree_basePath k)) hentry,
    List.map_append, List.map_singleton, String.ofList_toList]

/-- At the place of what has been read, the same is read again. -/
theorem found_ofString_found (h : k.found ≠ "") : (ofString k.found).found = k.found := by
  have hsub := subKeys_ofString_found h
  have hentry : entryOf (ofString k.found) = entryOf k := by
    rw [entryOf_eq (by rw [hsub]; simp)]
    simp only [hsub, List.getLast_append_singleton]
  have helems : pathElems (basePath (ofString k.found)) = pathElems (basePath k) := by
    rw [pathElems_basePath (ofString k.found), hsub, List.dropLast_concat, List.flatMap_map]
    have hself : ∀ e ∈ pathElems (basePath k), pathElems (String.ofList e).toList = [e] :=
      fun e he => by rw [String.toList_ofList, pathElems_of_mem he]
    rw [List.flatMap_congr hself, List.flatMap_singleton']
  rw [found, helems, hentry]
  rfl

theorem found_lastKey_ne (hk : k.subKeys ≠ []) : k.lastKey.found ≠ "" := by
  intro h
  have helems := (found_eq_empty_iff.1 h).1
  rw [pathElems_basePath, subKeys_lastKey hk, List.dropLast_cons_of_ne_nil hk,
    List.flatMap_cons] at helems
  have hlast : pathElems "last".toList ≠ [] := by decide
  exact hlast (List.append_eq_nil_iff.1 helems).1

/-- A key that clients may set, of which something is left on disk. -/
structure Tame (k : ConfigKey) : Prop where
  starless : ∀ s ∈ k.subKeys, '*' ∉ s.toList
  found_ne : k.found ≠ ""

theorem Tame.subKeys_ne_nil (h : k.Tame) : k.subKeys ≠ [] := subKeys_ne_nil_of_found h.found_ne

theorem Tame.not_wildcard (h : k.Tame) : k.isWildcard = false := by
  rw [isWildcard, List.contains_eq_mem, decide_eq_false_iff_not]
  exact fun hmem => h.starless _ hmem (by decide)

theorem Tame.lastKey (h : k.Tame) : k.lastKey.Tame where
  starless := by
    rw [subKeys_lastKey h.subKeys_ne_nil, List.forall_mem_cons]
    exact ⟨by decide, h.starless⟩
  found_ne := found_lastKey_ne h.subKeys_ne_nil

/-- What is read at the place of such a key is such a key. -/
theorem Tame.found (h : k.Tame) : (ofString k.found).Tame where
  starless := by
    rw [subKeys_ofString_found h.found_ne, List.forall_mem_append]
    refine ⟨fun s hs => ?_, List.forall_mem_singleton.2 ?_⟩
    · obtain ⟨e, he, rfl⟩ := List.mem_map.1 hs
      rw [pathElems_basePath] at he
      obtain ⟨s, hs, he⟩ := List.mem_flatMap.1 he
      rw [String.toList_ofList]
      exact fun hstar => h.starless s (List.mem_of_mem_dropLast hs)
        (Path.subset_of_mem_splitOn (List.mem_filter.1 he).1 hstar)
    · rw [entryOf_eq h.subKeys_ne_nil]
      exact h.starless _ (List.getLast_mem _)
  found_ne := by
    rw [found_ofString_found h.found_ne]
    exact h.found_ne

theorem tame_ofString (hstar : (ofString text).toString.toList.contains '*' = false)
    (h : (ofString text).found ≠ "") : (ofString text).Tame where
  starless s hs hmem := by
    have hk := subKeys_ne_nil_of_found h
    rw [← splitOn_toString hk] at hs
    obtain ⟨l, hl, rfl⟩ := List.mem_map.1 hs
    rw [String.toList_ofList] at hmem
    rw [List.contains_eq_mem, decide_eq_false_iff_not] at hstar
    exact hstar (Path.subset_of_mem_splitOn hl hmem)
  found_ne := h

end ConfigKey

/-! ## Tidy pairs -/

/-- A pair that the daemon may have: its key names one entry, and if it has a value, something is
    left of its key on disk. -/
structure ConfigPair.Tidy (p : ConfigPair) : Prop where
  nonempty : p.key.subKeys ≠ []
  named : p.key.Named
  tame : p.value.empty = false → p.key.Tame

open ConfigPair (Tidy)
open LocalYAMLStorage (WrittenFor findEntry fileEntries mem_fileEntries loadEntry)

theorem pairRule_tidy : PairRule Tidy Tidy where
  not_wildcard _ h := h.named.not_wildcard
  store _ h := h
  logged _ _ h hv := ⟨h.nonempty, h.named, fun hne => (hv hne).tame hne⟩
  last _ _ h hv := ⟨(ConfigKey.Plain.lastKey ⟨h.nonempty, h.named.not_wildcard⟩).nonempty,
    h.named.lastKey, fun hne => ((hv hne).tame hne).lastKey⟩
  erase _ h _ _ := ⟨h.nonempty, h.named, fun hne => by cases hne⟩

theorem ConfigKey.Tame.tidy {text : String} {v : ConfigValue} (h : (ofString text).Tame) :
    Tidy ⟨.ofString text, v⟩ :=
  ⟨h.subKeys_ne_nil, named_ofString h.not_wildcard, fun _ => h⟩

/-- A value is only read from an entry for a value. -/
theorem not_empty_of_valueFromYAML {p : ConfigPair} {v : ConfigValue}
    (h : valueFromYAML (unpackIntoYAML p).type (unpackIntoYAML p).value = some v)
    (hv : v.empty = false) : p.value.empty = false := by
  by_contra hne
  rw [Bool.not_eq_false] at hne
  obtain ⟨key, value⟩ := p
  obtain rfl : value = .none := ConfigValue.eq_none_of_empty hne
  obtain rfl : ConfigValue.none = v := Option.some.inj h
  cases hv

/-- From files for tidy pairs, tidy pairs are read. -/
theorem tidy_of_getAll {s : LocalYAMLStorage} {m : ConfigPairMap} {k : ConfigKey} {v : ConfigValue}
    (h : WrittenFor Tidy s.root s.files) (hm : s.getAll = some m) (hv : m.values k = some v) :
    Tidy ⟨k, v⟩ := by
  rw [ConfigPairMap.values_eq_some_iff] at hv
  obtain ⟨ps, hps, rfl⟩ := Option.map_eq_some_iff.1 hm
  rw [ConfigPairMap.find?_emplaceAll, ConfigPairMap.find?_empty, Option.none_or] at hv
  obtain ⟨hmem, hne⟩ := List.mem_filter.1 (List.mem_of_find?_eq_some hv)
  obtain ⟨⟨f, n, e⟩, hentry, hload⟩ := (mem_iff_of_mapM_eq_some hps).1 hmem
  obtain ⟨q, hq, rfl, rfl, rfl⟩ := h f n e (mem_fileEntries.1 hentry)
  -- What is read is what is left of the key, with the value of the entry.
  obtain ⟨key, hkey, hload⟩ := Option.bind_eq_some_iff.1 hload
  obtain ⟨value, hvalue, hload⟩ := Option.bind_eq_some_iff.1 hload
  obtain ⟨rfl, rfl⟩ := ConfigPair.mk.inj (Option.some.inj hload)
  rw [translatePathToKey_fileOf] at hkey
  obtain rfl : q.key.found = key := Option.some.inj hkey
  exact (hq.tame (not_empty_of_valueFromYAML hvalue (by simpa using hne))).found.tidy

/-! ## Records of commits -/

namespace LocalHistoryStorage

/-- All commits that are read from the files satisfy `R`, and so does what is read from the text of
    such a commit. -/
structure HoldsOnly (R : CommitHistory → Prop) (s : LocalHistoryStorage) : Prop where
  load : ∀ p commit, s.loadCommitAt p = some commit → R commit
  reads : ∀ commit buffer commit', R commit → s.serializer commit = some buffer →
    s.deserializer buffer = some commit' → R commit'

/-- What is read from the text of a commit has keys of the commit, and former values only where the
    commit has them, as long as the keys can be read. -/
def ReadsKeys (s : LocalHistoryStorage) : Prop :=
  ∀ commit buffer commit', (∀ d ∈ commit.items, d.1.key.Readable) →
    s.serializer commit = some buffer → s.deserializer buffer = some commit' →
    ∀ d' ∈ commit'.items, ∃ d ∈ commit.items, d'.1.key = d.1.key ∧
      (d.1.value.empty = true → d'.1.value.empty = true)

variable {R : CommitHistory → Prop} {s s' : LocalHistoryStorage} {env : Environment}
  {commit : CommitHistory}

theorem HoldsOnly.storeCommit (h : s.HoldsOnly R) (hR : R commit)
    (hs : s.storeCommit env commit = some s') : s'.HoldsOnly R := by
  rw [LocalHistoryStorage.storeCommit] at hs
  split at hs
  · rwa [← Option.some.inj hs]
  · next buffer hbuffer =>
    split at hs
    · obtain rfl := Option.some.inj hs
      refine ⟨fun p commit' hload => ?_, h.reads⟩
      by_cases hp : p = translateIdToPath s.storageDir commit.id
      · rw [hp, loadCommitAt, AList.lookup_insert, Option.bind_some] at hload
        exact h.reads commit buffer commit' hR hbuffer hload
      · rw [loadCommitAt, AList.lookup_insert_ne hp] at hload
        exact h.load p commit' hload
    · cases hs

theorem HoldsOnly.dropCommit (h : s.HoldsOnly R) (id : CommitId) :
    (s.dropCommit id).HoldsOnly R := by
  refine ⟨fun p commit hload => ?_, h.reads⟩
  rw [loadCommitAt_dropCommit] at hload
  split at hload
  · cases hload
  · exact h.load p commit hload

theorem HoldsOnly.of_mem_loadAllCommits (h : s.HoldsOnly R) {commits : List CommitHistory}
    (hs : s.loadAllCommits = some commits) (hc : commit ∈ commits) : R commit := by
  obtain ⟨paths, -, rfl⟩ := Option.map_eq_some_iff.1 hs
  obtain ⟨p, -, hload⟩ := List.mem_filterMap.1 hc
  exact h.load p commit hload

end LocalHistoryStorage

namespace TransactionManager

variable {R : CommitHistory → Prop} {t : TransactionManager} {get : ConfigKey → ConfigPairMap}
  {env : Environment} {items : ConfigPairList} {storage : LocalHistoryStorage} {n : ℕ}

theorem holdsOnly_dropExcessiveCommit (h : t.storage.HoldsOnly R) :
    t.dropExcessiveCommit.storage.HoldsOnly R := by
  rw [dropExcessiveCommit]
  split
  · split
    · exact h.dropCommit _
    · exact h
  · exact h

theorem holdsOnly_dropExcessiveCommits (h : t.storage.HoldsOnly R) :
    t.dropExcessiveCommits.storage.HoldsOnly R :=
  Function.Iterate.rec (fun t : TransactionManager => t.storage.HoldsOnly R) h
    (fun _ h => holdsOnly_dropExcessiveCommit h) _

theorem holdsOnly_logCommit (h : t.storage.HoldsOnly R) (hR : R (t.newCommit get env items)) :
    (t.logCommit get env items).1.storage.HoldsOnly R := by
  rw [logCommit]
  dsimp only
  split
  · exact h
  · next hs => exact holdsOnly_dropExcessiveCommits (h.storeCommit hR hs)

/-- A manager that is started has commits that it has read. -/
theorem holdsOnly_new (h : storage.HoldsOnly R) (ht : new storage n = some t) :
    t.storage.HoldsOnly R ∧ ∀ commit ∈ t.commitHistory.commits, R commit := by
  obtain ⟨commits, hcommits, ht⟩ := Option.bind_eq_some_iff.1 ht
  obtain ⟨commitHistory, hnew, ht⟩ := Option.bind_eq_some_iff.1 ht
  obtain ⟨sorted, hsort, rfl⟩ := Option.map_eq_some_iff.1 hnew
  obtain rfl := Option.some.inj ht
  refine ⟨holdsOnly_dropExcessiveCommits h, fun commit hc => ?_⟩
  rw [commits_dropExcessiveCommits] at hc
  obtain ⟨first, hfirst, hancestor⟩ :=
    (AllCommitHistories.mem_of_sort_eq_some hsort).1 (List.mem_of_mem_drop hc)
  exact h.of_mem_loadAllCommits hcommits
    (AllCommitHistories.mem_of_isAncestorOrSelf hfirst hancestor)

end TransactionManager

section

variable {emit : YamlTree → String} {load : String → Option YamlTree}
  {toSimpleString : Option Nat → String} {timeFromString : String → Except TimeError (Option Nat)}
  {storageDir : Path} {d d' : ConfigDelta}

/-- A delta is read with its key, and with a former value only if it has one. -/
theorem deltaOfNode_key (hk : d.1.key.Readable) (h : deltaOfNode (deltaNode d) = some d') :
    d'.1.key = d.1.key ∧ (d.1.value.empty = true → d'.1.value.empty = true) := by
  have hdelta : deltaOfNode (deltaNode d) = do
      let old ← sideValue (.ofEntry (unpackIntoYAML d.1))
      let current ← sideValue (.ofEntry (unpackIntoYAML d.2))
      return (⟨.ofString d.1.key.toString, old⟩, ⟨.ofString d.1.key.toString, current⟩) := rfl
  rw [hdelta] at h
  obtain ⟨old, hold, h⟩ := Option.bind_eq_some_iff.1 h
  obtain ⟨current, -, h⟩ := Option.bind_eq_some_iff.1 h
  obtain rfl := Option.some.inj h
  refine ⟨ConfigKey.ofString_toString hk, fun hempty => ?_⟩
  have hnone : d.1.value = .none := ConfigValue.eq_none_of_empty hempty
  rw [sideValue_ofEntry (by rw [hnone]; decide)] at hold
  rw [← Option.some.inj hold]
  exact hempty

/-- The storage of the daemon reads the keys that it has written, if nothing but the document that
    was emitted is loaded. -/
theorem LocalHistoryStorage.readsKeys_yaml
    (hload : ∀ commit node, load (emit (commitNode toSimpleString commit)) = some node →
      node = commitNode toSimpleString commit) :
    (yaml storageDir emit load toSimpleString timeFromString).ReadsKeys := by
  intro commit buffer commit' hkeys hser hdes d' hd'
  obtain rfl : emit (commitNode toSimpleString commit) = buffer := Option.some.inj hser
  obtain ⟨node, hnode, hdes⟩ := Option.bind_eq_some_iff.1 hdes
  obtain rfl := hload commit node hnode
  have hrun : (do
      let time ← timeOfNode timeFromString (some (.ofString (toSimpleString commit.time)))
      let items ← (YamlTree.ofList (commit.items.map deltaNode)).elements.mapM deltaOfNode
      return { id := commit.id, parent := commit.parent, time, items }) = some commit' := hdes
  obtain ⟨time, -, hrun⟩ := Option.bind_eq_some_iff.1 hrun
  obtain ⟨items, hread, hrun⟩ := Option.bind_eq_some_iff.1 hrun
  obtain rfl := Option.some.inj hrun
  rw [YamlTree.elements_ofList] at hread
  obtain ⟨n, hn, hd'⟩ := (mem_iff_of_mapM_eq_some hread).1 hd'
  obtain ⟨d, hd, rfl⟩ := List.mem_map.1 hn
  exact ⟨d, hd, deltaOfNode_key (hkeys d hd) hd'⟩

end

/-- The former pairs of a commit are tidy. -/
def CommitHistory.Tidy (commit : CommitHistory) : Prop := ∀ d ∈ commit.items, d.1.Tidy

/-- With a directory that has no files yet, no commit is read but from what is written. -/
theorem LocalHistoryStorage.ReadsKeys.holdsOnly {s : LocalHistoryStorage} (h : s.ReadsKeys)
    (hempty : s.files = ∅) : s.HoldsOnly CommitHistory.Tidy where
  load p commit hload := by
    rw [loadCommitAt, hempty] at hload
    cases hload
  reads commit buffer commit' htidy hser hdes d' hd' := by
    obtain ⟨d, hd, hkey, hvalue⟩ :=
      h commit buffer commit' (fun d hd => (htidy d hd).named.readable) hser hdes d' hd'
    have hd := htidy d hd
    refine ⟨hkey ▸ hd.nonempty, hkey ▸ hd.named, fun hne => hkey ▸ hd.tame ?_⟩
    by_contra hempty
    rw [hvalue (by simpa using hempty)] at hne
    cases hne

/-! ## Requests and restarts -/

namespace Configurator

variable {c : Configurator} {env : Environment} {id : ClientId} {configOpt : CommitConfig}

theorem PairsIn.writtenFor_commit (h : c.PairsIn Tidy Tidy)
    (hw : WrittenFor Tidy c.systemStore.backingStore.root c.systemStore.backingStore.files) :
    WrittenFor Tidy (c.commit env id configOpt).1.systemStore.backingStore.root
      (c.commit env id configOpt).1.systemStore.backingStore.files := by
  rw [systemStore_commit]
  split
  · next hc =>
    -- What the storage has kept is written once more, with what is applied.
    have hitems : ∀ p ∈ c.systemStore.backingStore.inFlightItems.staged id ++ c.toApply id,
        p.Tidy :=
      List.forall_mem_append.2 ⟨h.backed id, h.mem_toApply pairRule_tidy hc.1.2⟩
    rw [MemoryCache.backingStore_setAndCommit c.quiet]
    exact WrittenFor.groupSet (s := { c.systemStore.backingStore with inFlightItems := _ }) hw
      hitems
  · exact hw

theorem PairsIn.holdsOnly_commit (h : c.PairsIn Tidy Tidy) (hc : c.Committable id)
    (hs : c.commitHistory.storage.HoldsOnly CommitHistory.Tidy) :
    (c.commit env id configOpt).1.commitHistory.storage.HoldsOnly CommitHistory.Tidy := by
  have hlogged : (c.logged env id).1.commitHistory.storage.HoldsOnly CommitHistory.Tidy := by
    by_cases hchanges : c.pruneUnchangedValues id = []
    · rwa [logged_of_no_changes hchanges]
    · rw [(logged_of_changes env hchanges).2]
      exact TransactionManager.holdsOnly_logCommit hs (h.newCommit pairRule_tidy hc.2)
  obtain ⟨hnot, -⟩ | ⟨-, -, hcommit⟩ | ⟨-, commitId, -, hcommit⟩ := commit_cases c env id configOpt
  · exact absurd hc hnot
  · rwa [hcommit]
  · rw [← commitHistory_applied] at hlogged
    rw [hcommit]
    split
    · exact hlogged
    · exact hlogged

end Configurator

namespace Daemon

variable {root : Path} {history : LocalHistoryStorage} {n : ℕ} {s s' : Daemon} {e : RequestEvent}

/-- All pairs of the daemon are tidy, those in its files and those in its history included. -/
structure Restartable (s : Daemon) : Prop where
  pairs : s.conf.PairsIn Tidy Tidy
  written : WrittenFor Tidy s.conf.systemStore.backingStore.root
    s.conf.systemStore.backingStore.files
  history : s.conf.commitHistory.storage.HoldsOnly CommitHistory.Tidy

theorem Restartable.serve (h : s.Restartable) (he : s.Stages Tidy e) : (s.serve e).Restartable := by
  have hpairs := pairsIn_serve pairRule_tidy h.pairs he
  obtain ⟨-, -, hstore, hhistory⟩ | ⟨call, hcall, hc, hstore, hhistory, hconf⟩ := s.serve_cases e
  · refine ⟨hpairs, ?_, hhistory ▸ h.history⟩
    rw [hstore]
    exact h.written
  · have hcommit := pairsIn_commitCall pairRule_tidy h.pairs he hcall
    refine ⟨hpairs, ?_, ?_⟩
    · rw [hconf]
      exact hcommit.writtenFor_commit (hstore ▸ h.written)
    · rw [hconf]
      exact hcommit.holdsOnly_commit hc (hhistory ▸ h.history)

/-- A daemon that is started has what it reads from the files, and no buckets. -/
theorem Restartable.restart (h : s.Restartable) (hs : s.restart n = some s') : s'.Restartable := by
  obtain ⟨c, hload, rfl⟩ := Option.map_eq_some_iff.1 hs
  rw [Configurator.load] at hload
  split at hload
  · cases hload
  · next cache hcache =>
    obtain ⟨t, ht, rfl⟩ := Option.map_eq_some_iff.1 hload
    obtain ⟨hstorage, hcommits⟩ := TransactionManager.holdsOnly_new h.history ht
    -- The cache has been read, so that the files could be.
    obtain ⟨m, hm⟩ : ∃ m, s.conf.systemStore.backingStore.reopen.getAll = some m := by
      rcases hall : s.conf.systemStore.backingStore.reopen.getAll with _ | m
      · rw [MemoryCache.new] at hcache
        split at hcache
        · cases hcache
        · next hsome => cases hall.symm.trans hsome
      · exact ⟨m, rfl⟩
    obtain ⟨cache', hcache', hbacking, hvalues, -⟩ := MemoryCache.exists_new hm
    obtain rfl : cache' = cache := Option.some.inj (hcache'.symm.trans hcache)
    refine ⟨⟨fun id b hb => ?_, fun k v hv => ?_, fun id p hp => ?_, hcommits⟩, ?_, hstorage⟩
    · cases hb
    · rw [Configurator.store, MemoryCache.store, start, hvalues] at hv
      exact tidy_of_getAll (s := s.conf.systemStore.backingStore.reopen) h.written hm hv
    · rw [start, hbacking] at hp
      cases hp
    · rw [start, hbacking]
      exact h.written

theorem restartable_firstStart (hempty : history.files = ∅) (hreads : history.ReadsKeys) :
    (firstStart root history n).Restartable where
  pairs := Configurator.pairsIn_onEmpty
  written _ _ _ hentry := by cases hentry
  history := by
    rw [firstStart, start, Configurator.onEmpty]
    exact hreads.holdsOnly hempty

end Daemon

end SysAdmin
