import SysAdmin.HistoryRestart
import SysAdmin.SortTermination
import SysAdmin.Foundation.Machine

/-!
# How many commits are stored

`TransactionManager` limits the commits it has in memory, and removes the file of each commit
it drops. Files it has no commit for in memory are not counted and not removed: sorting the
commits keeps only the ancestors of one of them, but the files of the others stay.

* `Managed`: each file that holds a commit is the file of a commit in memory;
* `Managed.logCommit`: this stays so, whether logging a commit succeeds or throws;
* `stored_le_maxStorage`: if it is so from the start, there are never more commits
  than `maxStorage` in the storage.
-/

namespace SysAdmin

/-! ## Files with commits -/

namespace LocalHistoryStorage

variable {s s' : LocalHistoryStorage} {env : Environment} {commit : CommitHistory}
  {commits : List CommitHistory} {id : CommitId} {p : Path}

/-- The files that hold a commit. -/
def loadableFiles (s : LocalHistoryStorage) : List Path :=
  s.files.keys.filter fun p => (s.loadCommitAt p).isSome

/-- Each file that holds a commit is the file of an ancestor of the last commit without a
    child, or of this commit. -/
def Connected (s : LocalHistoryStorage) : Prop :=
  ∀ commits, s.loadAllCommits = some commits → ∀ p ∈ s.loadableFiles,
    ∃ first ∈ AllCommitHistories.findMostRecentCommit commits, ∃ commit,
      AllCommitHistories.IsAncestorOrSelf commits commit first ∧
        p = translateIdToPath s.storageDir commit.id

/-- Every commit can be written, and what is written is read as a commit. -/
def AlwaysReads (s : LocalHistoryStorage) : Prop :=
  ∀ commit, ∃ buffer, s.serializer commit = some buffer ∧ (s.deserializer buffer).isSome

/-- Each file that holds a commit is named by its id. -/
def NamedByIds (s : LocalHistoryStorage) : Prop :=
  ∀ p commit, s.loadCommitAt p = some commit → p = translateIdToPath s.storageDir commit.id

theorem mem_loadableFiles : p ∈ s.loadableFiles ↔ (s.loadCommitAt p).isSome := by
  rw [loadableFiles, List.mem_filter, and_iff_right_iff_imp]
  intro h
  obtain ⟨commit, hcommit⟩ := Option.isSome_iff_exists.1 h
  obtain ⟨text, htext, _⟩ := Option.bind_eq_some_iff.1 hcommit
  exact AList.mem_keys.1 (AList.lookup_isSome.1 (by rw [htext]; rfl))

theorem mem_loadAllCommits (h : s.loadAllCommits = some commits)
    (hp : s.loadCommitAt p = some commit) : commit ∈ commits := by
  obtain ⟨paths, hpaths, rfl⟩ := Option.map_eq_some_iff.1 h
  refine List.mem_filterMap.2 ⟨p, ?_, hp⟩
  have hkey : p ∈ s.files.keys :=
    (List.mem_filter.1 (mem_loadableFiles.2 (by rw [hp]; rfl))).1
  rw [sortedPaths] at hpaths
  split at hpaths
  · rw [← Option.some.inj hpaths]
    exact (List.perm_insertionSort _ _).mem_iff.2 hkey
  · cases hpaths

theorem nodup_loadableFiles : s.loadableFiles.Nodup := s.files.keys_nodup.filter _

theorem loadCommitAt_dropCommit : (s.dropCommit id).loadCommitAt p =
    if p = translateIdToPath s.storageDir id then none else s.loadCommitAt p := by
  rw [loadCommitAt, dropCommit]
  split
  · next hp => rw [hp, AList.lookup_erase, Option.bind_none]
  · next hp => rw [AList.lookup_erase_ne hp, loadCommitAt]

/-- Storing a commit changes its own file only. -/
theorem loadCommitAt_of_storeCommit (h : s.storeCommit env commit = some s') :
    s'.storageDir = s.storageDir ∧
      ∀ p, p ≠ translateIdToPath s.storageDir commit.id → s'.loadCommitAt p = s.loadCommitAt p := by
  rw [storeCommit] at h
  split at h
  · obtain rfl := Option.some.inj h
    exact ⟨rfl, fun _ _ => rfl⟩
  · split at h
    · obtain rfl := Option.some.inj h
      exact ⟨rfl, fun p hp => by rw [loadCommitAt, AList.lookup_insert_ne hp, loadCommitAt]⟩
    · cases h

end LocalHistoryStorage

/-! ## The files of a manager -/

namespace TransactionManager

open AllCommitHistories LocalHistoryStorage

variable {t : TransactionManager} {storage : LocalHistoryStorage} {maxStorage : Nat}
  {get : ConfigKey → ConfigPairMap} {env : Environment} {items : ConfigPairList}

/-- Each file that holds a commit is the file of a commit in memory. -/
def Managed (t : TransactionManager) : Prop :=
  ∀ p ∈ t.storage.loadableFiles, ∃ commit ∈ t.commitHistory.commits,
    p = translateIdToPath t.storage.storageDir commit.id

theorem Managed.length_loadableFiles_le (h : t.Managed) :
    t.storage.loadableFiles.length ≤ t.commitHistory.commits.length := by
  have hsubset : t.storage.loadableFiles ⊆
      t.commitHistory.commits.map fun c => translateIdToPath t.storage.storageDir c.id :=
    fun p hp => by
      obtain ⟨commit, hcommit, rfl⟩ := h p hp
      exact List.mem_map_of_mem hcommit
  simpa using (nodup_loadableFiles.subperm hsubset).length_le

/-- With a commit its file is dropped. -/
theorem Managed.dropExcessiveCommit (h : t.Managed) : t.dropExcessiveCommit.Managed := by
  rw [TransactionManager.dropExcessiveCommit]
  split
  · rcases hc : t.commitHistory.commits with _ | ⟨oldest, rest⟩
    · simpa [dropOldestCommit, hc, Managed] using h
    · simp only [dropOldestCommit, hc, List.head?_cons, List.tail_cons]
      intro p hp
      rw [mem_loadableFiles, loadCommitAt_dropCommit] at hp
      split at hp
      · cases hp
      · next hne =>
        obtain ⟨commit, hcommit, hpath⟩ := h p (mem_loadableFiles.2 hp)
        rw [hc] at hcommit
        rcases List.mem_cons.1 hcommit with rfl | hcommit
        · exact absurd hpath hne
        · exact ⟨commit, hcommit, hpath⟩
  · exact h

theorem Managed.dropExcessiveCommits (h : t.Managed) : t.dropExcessiveCommits.Managed :=
  Function.Iterate.rec Managed h (fun _ h => h.dropExcessiveCommit) _

theorem length_commits_dropExcessiveCommits :
    t.dropExcessiveCommits.commitHistory.commits.length ≤ t.maxStorage := by
  rw [commits_dropExcessiveCommits, List.length_drop]
  omega

/-- The files are managed, and not too many of them hold a commit. -/
structure Bounded (maxStorage : Nat) (t : TransactionManager) : Prop where
  limit : t.maxStorage = maxStorage
  managed : t.Managed
  stored_le : t.storage.loadableFiles.length ≤ maxStorage

theorem Managed.bounded_dropExcessiveCommits (h : t.Managed) (hm : t.maxStorage = maxStorage) :
    t.dropExcessiveCommits.Bounded maxStorage where
  limit := dropExcessiveCommits_frame.2.trans hm
  managed := h.dropExcessiveCommits
  stored_le := h.dropExcessiveCommits.length_loadableFiles_le.trans
    (length_commits_dropExcessiveCommits.trans hm.le)

/-- A manager starts from the commits of the storage, sorted. -/
theorem exists_sort_of_new_eq_some (h : TransactionManager.new storage maxStorage = some t) :
    ∃ commits sorted, storage.loadAllCommits = some commits ∧ sort commits = some sorted ∧
      t = dropExcessiveCommits ⟨storage, maxStorage, ⟨sorted, findMaxCommitId commits⟩⟩ := by
  obtain ⟨commits, hload, h⟩ := Option.bind_eq_some_iff.1 h
  obtain ⟨commitHistory, hnew, h⟩ := Option.bind_eq_some_iff.1 h
  obtain ⟨sorted, hsort, rfl⟩ := Option.map_eq_some_iff.1 hnew
  exact ⟨commits, sorted, hload, hsort, (Option.some.inj h).symm⟩

theorem bounded_of_connected (hs : storage.Connected)
    (h : TransactionManager.new storage maxStorage = some t) : t.Bounded maxStorage := by
  obtain ⟨commits, sorted, hload, hsort, rfl⟩ := exists_sort_of_new_eq_some h
  refine Managed.bounded_dropExcessiveCommits (fun p hp => ?_) rfl
  obtain ⟨first, hfirst, commit, hcommit, hpath⟩ := hs commits hload p hp
  exact ⟨commit, (mem_of_sort_eq_some hsort).2 ⟨first, hfirst, hcommit⟩, hpath⟩

/-- The file of a commit is stored with the commit in memory. If storing it throws, no
    file has changed. -/
theorem Bounded.logCommit (h : t.Bounded maxStorage) :
    (t.logCommit get env items).1.Bounded maxStorage := by
  rw [TransactionManager.logCommit]
  dsimp only
  split
  · exact ⟨h.limit, fun p hp => by
      obtain ⟨commit, hcommit, hpath⟩ := h.managed p hp
      exact ⟨commit, List.mem_append_left _ hcommit, hpath⟩, h.stored_le⟩
  · next storage hstore =>
    obtain ⟨hdir, hother⟩ := loadCommitAt_of_storeCommit hstore
    refine Managed.bounded_dropExcessiveCommits (fun p hp => ?_) h.limit
    dsimp only at hp ⊢
    rw [hdir]
    by_cases hpath : p = translateIdToPath t.storage.storageDir (t.newCommit get env items).id
    · exact ⟨_, List.mem_append_right _ List.mem_cons_self, hpath⟩
    · rw [mem_loadableFiles, hother p hpath, ← mem_loadableFiles] at hp
      obtain ⟨commit, hcommit, hpath⟩ := h.managed p hp
      exact ⟨commit, List.mem_append_left _ hcommit, hpath⟩

/-- A call of `logCommit`, with the database it reads and what the system decides. -/
structure LogCall where
  get : ConfigKey → ConfigPairMap
  env : Environment
  toBeCommitted : ConfigPairList

/-- The manager after a call of `logCommit`, also if it throws. -/
def afterCall (t : TransactionManager) (call : LogCall) : TransactionManager :=
  (t.logCommit call.get call.env call.toBeCommitted).1

theorem always_bounded_of_connected (hs : storage.Connected)
    (h : TransactionManager.new storage maxStorage = some t) (calls : List LogCall) :
    Machine.Always afterCall (Bounded maxStorage) t calls :=
  Machine.Always.of_step (G := fun _ _ => True) afterCall (bounded_of_connected hs h)
    (fun _ _ h _ => h.logCommit) (Machine.guarded_of_forall fun _ _ => trivial)

/-- If all stored commits are linked to one of them, there are at most `maxStorage` of them
    from the start of the daemon on. -/
theorem stored_le_maxStorage (storage : LocalHistoryStorage) (maxStorage : Nat)
    (t : TransactionManager) (calls : List LogCall) (hs : storage.Connected)
    (h : TransactionManager.new storage maxStorage = some t) :
    Machine.Always afterCall (fun t => t.storage.loadableFiles.length ≤ maxStorage) t calls :=
  (always_bounded_of_connected hs h calls).mono fun _ h => h.stored_le

/-- A storage of commits without items, the first of them in the file `1.commit`. -/
def linkedCommits : LocalHistoryStorage where
  storageDir := "/h".toList
  serializer commit := some (toString commit.id)
  deserializer text :=
    if text = "1" then some ⟨1, 0, [], none⟩
    else if text = "2" then some ⟨2, 1, [], none⟩
    else if text = "4" then some ⟨4, 3, [], none⟩
    else none
  files := ((∅ : AList _).insert "/h/1.commit".toList "1").insert "/h/2.commit".toList "2"

theorem connected_linkedCommits : linkedCommits.Connected := by
  intro commits hload p hp
  obtain rfl : [⟨1, 0, [], none⟩, ⟨2, 1, [], none⟩] = commits := by
    refine Option.some.inj (Eq.trans ?_ hload)
    decide
  have hfiles : linkedCommits.loadableFiles = ["/h/2.commit".toList, "/h/1.commit".toList] := by
    decide
  rw [hfiles] at hp
  refine ⟨⟨2, 1, [], none⟩, by decide, ?_⟩
  rcases List.mem_cons.1 hp with rfl | hp
  · exact ⟨⟨2, 1, [], none⟩, .refl, by decide⟩
  · rw [List.mem_singleton.1 hp]
    exact ⟨⟨1, 0, [], none⟩, .single rfl, by decide⟩

theorem stored_le_maxStorage_linkedCommits :
    Machine.Always afterCall (fun t => t.storage.loadableFiles.length ≤ 1)
      ⟨linkedCommits.dropCommit 1, 1, ⟨[⟨2, 1, [], none⟩], 2⟩⟩ [⟨fun _ => .empty, ⟨0, true⟩, []⟩] :=
  stored_le_maxStorage linkedCommits 1 _ _ connected_linkedCommits rfl

/-- A storage in which commit 3 is missing. -/
def brokenChain : LocalHistoryStorage :=
  { linkedCommits with files := linkedCommits.files.insert "/h/4.commit".toList "4" }

/-- At the start, only commit 4 is in memory, but the files of 1 and 2 stay. -/
theorem stored_gt_maxStorage_brokenChain :
    ¬∀ (storage : LocalHistoryStorage) (maxStorage : Nat) (t : TransactionManager)
      (calls : List LogCall), TransactionManager.new storage maxStorage = some t →
        Machine.Always afterCall (fun t => t.storage.loadableFiles.length ≤ maxStorage) t
          calls := by
  intro h
  have hstart := h brokenChain 2 ⟨brokenChain, 2, ⟨[⟨4, 3, [], none⟩], 4⟩⟩ [] rfl
  revert hstart
  decide

/-! ## Files that are not managed -/

/-- A file holds a commit, but is the file of no commit in memory and of none to come. The
    `count` youngest commits, with ids above `bound`, are in files that hold a commit. -/
structure Crowded (p : Path) (maxStorage bound count : Nat) (t : TransactionManager) : Prop where
  limit : t.maxStorage = maxStorage
  reads : t.storage.AlwaysReads
  holds : (t.storage.loadCommitAt p).isSome
  unmanaged : ∀ commit ∈ t.commitHistory.commits,
    p ≠ translateIdToPath t.storage.storageDir commit.id
  ahead : ∀ id, bound < id → p ≠ translateIdToPath t.storage.storageDir id
  bound_le : bound ≤ t.commitHistory.maxCommitId
  count_le : count ≤ maxStorage
  split : ∃ old fresh, t.commitHistory.commits = old ++ fresh ∧ fresh.length = count ∧
    (∀ commit ∈ old, commit.id ≤ bound) ∧ fresh.Pairwise (fun c d => c.id < d.id) ∧
      ∀ commit ∈ fresh, bound < commit.id ∧ commit.id ≤ t.commitHistory.maxCommitId ∧
        (t.storage.loadCommit commit.id).isSome

variable {p : Path} {bound count : Nat}

/-- There is a file more than the ones of the youngest commits. -/
theorem Crowded.lt_length_loadableFiles (h : t.Crowded p maxStorage bound count) :
    count < t.storage.loadableFiles.length := by
  obtain ⟨old, fresh, hcommits, hlength, _, hincreasing, hfresh⟩ := h.split
  have hnodup : (p :: fresh.map fun c => translateIdToPath t.storage.storageDir c.id).Nodup := by
    refine List.nodup_cons.2 ⟨fun hp => ?_, List.pairwise_map.2 (hincreasing.imp ?_)⟩
    · obtain ⟨commit, hcommit, hpath⟩ := List.mem_map.1 hp
      exact h.ahead _ (hfresh commit hcommit).1 hpath.symm
    · exact fun hlt heq => hlt.ne (translateIdToPath_inj heq)
  have hsubset : (p :: fresh.map fun c => translateIdToPath t.storage.storageDir c.id) ⊆
      t.storage.loadableFiles := by
    refine List.cons_subset.2 ⟨mem_loadableFiles.2 h.holds, fun q hq => ?_⟩
    obtain ⟨commit, hcommit, rfl⟩ := List.mem_map.1 hq
    exact mem_loadableFiles.2 (hfresh commit hcommit).2.2
  have hle := (hnodup.subperm hsubset).length_le
  rw [List.length_cons, List.length_map, hlength] at hle
  exact hle

/-- A commit that is dropped is none of the youngest ones, and its file is another one. -/
theorem Crowded.dropExcessiveCommit (h : t.Crowded p maxStorage bound count) :
    t.dropExcessiveCommit.Crowded p maxStorage bound count := by
  obtain ⟨old, fresh, hcommits, hlength, hold, hincreasing, hfresh⟩ := h.split
  rw [TransactionManager.dropExcessiveCommit]
  split
  · next hgt =>
    rw [getCommitCount, hcommits, List.length_append, hlength, h.limit] at hgt
    -- There is an older one to drop, as the youngest are not too many.
    rcases old with _ | ⟨oldest, old⟩
    · have := h.count_le
      rw [List.length_nil] at hgt
      omega
    · simp only [dropOldestCommit, hcommits, List.cons_append, List.head?_cons, List.tail_cons]
      have hne : p ≠ translateIdToPath t.storage.storageDir oldest.id :=
        h.unmanaged oldest (by rw [hcommits]; exact List.mem_cons_self)
      refine ⟨h.limit, h.reads, ?_, fun commit hcommit => ?_, h.ahead, h.bound_le, h.count_le,
        old, fresh, rfl, hlength,
        fun commit hcommit => hold commit (List.mem_cons_of_mem _ hcommit), hincreasing,
        fun commit hcommit => ?_⟩
      · rw [loadCommitAt_dropCommit, if_neg hne]
        exact h.holds
      · exact h.unmanaged commit (by rw [hcommits]; exact List.mem_cons_of_mem _ hcommit)
      · obtain ⟨hbound, hmax, hload⟩ := hfresh commit hcommit
        refine ⟨hbound, hmax, ?_⟩
        rwa [loadCommit_dropCommit ((hold oldest List.mem_cons_self).trans_lt hbound).ne']
  · exact h

theorem Crowded.dropExcessiveCommits (h : t.Crowded p maxStorage bound count) :
    t.dropExcessiveCommits.Crowded p maxStorage bound count :=
  Function.Iterate.rec (Crowded p maxStorage bound count) h (fun _ h => h.dropExcessiveCommit) _

/-- Each commit which is logged is one more. -/
theorem Crowded.logCommit (h : t.Crowded p maxStorage bound count) (hcount : count < maxStorage)
    (hopens : env.historyOpens = true) :
    (t.logCommit get env items).1.Crowded p maxStorage bound (count + 1) := by
  obtain ⟨buffer, hser, hdes⟩ := h.reads (t.newCommit get env items)
  obtain ⟨old, fresh, hcommits, hlength, hold, hincreasing, hfresh⟩ := h.split
  have hnew : t.commitHistory.maxCommitId < (t.newCommit get env items).id := Nat.lt_succ_self _
  have hahead := h.bound_le.trans_lt hnew
  -- The new id is the greatest, and its file is none of those there are.
  have hmax : (t.newCommit get env items).id ≤
      (t.commitHistory.storeCommit (t.newCommit get env items)).maxCommitId :=
    (le_max_right _ _).trans (le_max_left _ _)
  rw [TransactionManager.logCommit]
  simp only [LocalHistoryStorage.storeCommit, hser, hopens, if_true]
  refine Crowded.dropExcessiveCommits ⟨h.limit, h.reads, ?_, ?_, h.ahead, ?_, hcount, old,
    fresh ++ [t.newCommit get env items], ?_, ?_, hold, ?_, ?_⟩
  · dsimp only
    rw [loadCommitAt, AList.lookup_insert_ne (h.ahead _ hahead)]
    exact h.holds
  · intro commit hcommit
    rcases List.mem_append.1 hcommit with hcommit | hcommit
    · exact h.unmanaged commit hcommit
    · rw [List.mem_singleton.1 hcommit]
      exact h.ahead _ hahead
  · exact hahead.le.trans hmax
  · dsimp only [AllCommitHistories.storeCommit]
    rw [hcommits, List.append_assoc]
  · rw [List.length_append, hlength, List.length_singleton]
  · refine List.pairwise_append.2 ⟨hincreasing, List.pairwise_singleton _ _, ?_⟩
    intro commit hcommit d hd
    rw [List.mem_singleton.1 hd]
    exact (hfresh commit hcommit).2.1.trans_lt hnew
  · intro commit hcommit
    dsimp only
    rcases List.mem_append.1 hcommit with hcommit | hcommit
    · obtain ⟨hlow, hhigh, hload⟩ := hfresh commit hcommit
      refine ⟨hlow, (hhigh.trans_lt hnew).le.trans hmax, ?_⟩
      rw [loadCommit, loadCommitAt, AList.lookup_insert_ne]
      · exact hload
      · exact fun hpath => (hhigh.trans_lt hnew).ne (translateIdToPath_inj hpath)
    · rw [List.mem_singleton.1 hcommit]
      refine ⟨hahead, hmax, ?_⟩
      rw [loadCommit, loadCommitAt, AList.lookup_insert, Option.bind_some]
      exact hdes

/-- A call whose record can be written to its file. -/
def openingCall : LogCall := ⟨fun _ => .empty, ⟨0, true⟩, []⟩

theorem Crowded.run (h : t.Crowded p maxStorage bound 0) (hcount : count ≤ maxStorage) :
    (Machine.run afterCall t (List.replicate count openingCall)).Crowded p maxStorage bound
      count := by
  induction count with
  | zero => exact h
  | succ count ih =>
    rw [List.replicate_succ', Machine.run_append]
    exact (ih (by omega)).logCommit (by omega) rfl

/-- A file that is not managed stays not managed. -/
theorem crowded_of_not_connected (hreads : storage.AlwaysReads) (hnamed : storage.NamedByIds)
    (hs : ¬storage.Connected) (h : TransactionManager.new storage maxStorage = some t) :
    ∃ p bound, t.Crowded p maxStorage bound 0 := by
  obtain ⟨commits, sorted, hload, hsort, rfl⟩ := exists_sort_of_new_eq_some h
  rw [Connected] at hs
  push Not at hs
  obtain ⟨commits', hload', p, hp, hs⟩ := hs
  obtain rfl : commits = commits' := Option.some.inj (hload.symm.trans hload')
  obtain ⟨commit, hcommit⟩ := Option.isSome_iff_exists.1 (mem_loadableFiles.1 hp)
  have hsorted : ∀ c ∈ sorted, p ≠ translateIdToPath storage.storageDir c.id ∧
      c.id ≤ findMaxCommitId commits := by
    intro c hc
    obtain ⟨first, hfirst, hc⟩ := (mem_of_sort_eq_some hsort).1 hc
    exact ⟨hs first hfirst c hc, le_findMaxCommitId (mem_of_isAncestorOrSelf hfirst hc)⟩
  refine ⟨p, findMaxCommitId commits, Crowded.dropExcessiveCommits ⟨rfl, hreads,
    mem_loadableFiles.1 hp, fun c hc => (hsorted c hc).1, fun id hid hpath => ?_, le_rfl,
    Nat.zero_le _, sorted, [], (List.append_nil _).symm, rfl, fun c hc => (hsorted c hc).2,
    List.Pairwise.nil, fun c hc => absurd hc List.not_mem_nil⟩⟩
  -- The file is named by the id of a commit, and no id of a commit is so high.
  rw [hnamed p commit hcommit] at hpath
  have hle := le_findMaxCommitId (mem_loadAllCommits hload hcommit)
  exact hid.not_ge (translateIdToPath_inj hpath ▸ hle)

/-- Where commits are stored in files named by their ids, and read back, the storage is
    limited only if all stored commits are linked to one of them. -/
theorem always_stored_le_iff_connected (hreads : storage.AlwaysReads)
    (hnamed : storage.NamedByIds) (h : TransactionManager.new storage maxStorage = some t) :
    (∀ calls, Machine.Always afterCall
      (fun t => t.storage.loadableFiles.length ≤ maxStorage) t calls) ↔ storage.Connected := by
  constructor
  · intro hall
    by_contra hs
    obtain ⟨p, bound, hcrowded⟩ := crowded_of_not_connected hreads hnamed hs h
    have hlast := (hall (List.replicate maxStorage openingCall)).last
    have hgt := (hcrowded.run le_rfl).lt_length_loadableFiles
    omega
  · intro hs calls
    exact (always_bounded_of_connected hs h calls).mono fun _ h => h.stored_le

end TransactionManager

end SysAdmin
