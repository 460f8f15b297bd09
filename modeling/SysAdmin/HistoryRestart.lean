import SysAdmin.CommitChains

/-!
# Restarting with a history

When the daemon starts, `TransactionManager` reads all commit files and puts the
commits back in order, by following them from child to parent. What it lost when it
stopped, the order of the commits and the highest id, it has to find in them.

* `AllCommitHistories.Linked`: each commit has the commit before it as its parent, and
  a higher id. Sorting such commits gives them back (`Linked.new_eq`);
* `TransactionManager.Runs`: the managers reached by logging commits and restarting,
  with the commits logged on the way;
* `TransactionManager.Runs.kept`: in all of these, a restart changes nothing, ids
  increase, parents are the commits logged before, and no more than `maxStorage`
  commits are kept.
-/

namespace SysAdmin

namespace AllCommitHistories

open ParentLinks

/-! ## Linked commits -/

/-- One commit after the other: the parent of each is the one before it, and its id is
    higher. The first one has the parent given. -/
def Linked : CommitId → List CommitHistory → Prop
  | _, [] => True
  | parentId, commit :: commits =>
    commit.parent = parentId ∧ parentId < commit.id ∧ Linked commit.id commits

/-- The id of the last commit, or the parent given if there is none. -/
def lastId (parentId : CommitId) (commits : List CommitHistory) : CommitId :=
  (commits.getLast?.map CommitHistory.id).getD parentId

variable {parentId : CommitId} {commit d : CommitHistory} {commits later : List CommitHistory}

@[simp] theorem lastId_nil : lastId parentId [] = parentId := rfl

@[simp] theorem lastId_append_singleton : lastId parentId (commits ++ [commit]) = commit.id := by
  simp [lastId]

theorem lastId_cons : lastId parentId (commit :: commits) = lastId commit.id commits := by
  rw [lastId, lastId, List.getLast?_cons]
  cases commits.getLast? <;> rfl

theorem linked_append : Linked parentId (commits ++ later) ↔
    Linked parentId commits ∧ Linked (lastId parentId commits) later := by
  induction commits generalizing parentId with
  | nil => simp [Linked]
  | cons commit commits ih => simp only [List.cons_append, Linked, ih, lastId_cons, and_assoc]

theorem Linked.lt_of_mem (h : Linked parentId commits) (hc : commit ∈ commits) :
    parentId < commit.id := by
  induction commits generalizing parentId with
  | nil => exact absurd hc List.not_mem_nil
  | cons d commits ih =>
    rcases List.mem_cons.1 hc with rfl | hc
    · exact h.2.1
    · exact h.2.1.trans (ih h.2.2 hc)

/-- Ids increase. -/
theorem Linked.pairwise (h : Linked parentId commits) :
    commits.Pairwise fun c d => c.id < d.id := by
  induction commits generalizing parentId with
  | nil => exact List.Pairwise.nil
  | cons commit commits ih =>
    exact List.pairwise_cons.2 ⟨fun d hd => h.2.2.lt_of_mem hd, ih h.2.2⟩

/-- Without the oldest ones, commits are still linked. -/
theorem Linked.drop (h : Linked parentId commits) (n : Nat) :
    ∃ parentId', Linked parentId' (commits.drop n) := by
  rw [← List.take_append_drop n commits, linked_append] at h
  exact ⟨_, h.2⟩

/-! ## Sorting linked commits -/

/-- Linked commits form a chain. -/
theorem Linked.lineage (h : Linked parentId commits) :
    Lineage CommitHistory.id CommitHistory.parent commits := by
  refine ⟨List.pairwise_map.2 (h.pairwise.imp fun hlt => hlt.ne), ?_, fun oldest ho d hd => ?_⟩
  · rw [List.isChain_iff_forall_rel_of_append_cons_cons]
    rintro c d pre post rfl
    exact (linked_append.1 h).2.2.2.1
  · obtain ⟨rest, rfl⟩ := List.head?_eq_some_iff.1 ho
    rw [h.1]
    exact (h.lt_of_mem hd).ne'

theorem Linked.findMaxCommitId_eq (h : Linked parentId commits) :
    findMaxCommitId commits = lastId 0 commits := by
  induction commits using List.reverseRecOn with
  | nil => rfl
  | append_singleton commits last ih =>
    obtain ⟨hcs, hparent, hlt, _⟩ := linked_append.1 h
    rw [findMaxCommitId, List.foldl_append, List.foldl_cons, List.foldl_nil,
      ← findMaxCommitId, ih hcs, lastId_append_singleton, hparent]
    -- The ids before are at most that of the commit before, if there is one.
    have hle : lastId 0 commits ≤ lastId parentId commits := by
      rcases List.eq_nil_or_concat' commits with rfl | ⟨pre, last, rfl⟩
      · exact Nat.zero_le _
      · rw [lastId_append_singleton, lastId_append_singleton]
    rw [max_eq_right (hle.trans hlt.le), max_eq_left hlt.le]

/-- Linked commits are put back in order, and their last id is the highest. -/
theorem Linked.new_eq (h : Linked parentId commits) :
    AllCommitHistories.new commits = some ⟨commits, lastId 0 commits⟩ := by
  rw [AllCommitHistories.new_eq h.lineage (.refl _), h.findMaxCommitId_eq]

end AllCommitHistories

/-! ## Commit files -/

section files

variable {root : Path} {id id' : CommitId}

theorem isDigit_of_mem_toString {c : Char} (h : c ∈ (toString id).toList) : c.isDigit = true := by
  rw [Nat.toString_eq_repr, Nat.toList_repr] at h
  exact Nat.isDigit_of_mem_toDigits (by decide) (by decide) h

theorem not_mem_toString {c : Char} (hc : c.isDigit = false) : c ∉ (toString id).toList := by
  intro h
  rw [isDigit_of_mem_toString h] at hc
  cases hc

theorem toString_ne_nil : (toString id).toList ≠ [] := by
  rw [Nat.toString_eq_repr, Nat.toList_repr]
  exact List.ne_nil_of_length_pos Nat.length_toDigits_pos

theorem translateIdToPath_eq : translateIdToPath root id =
    root.asDir ++ (toString id).toList ++ '.' :: "commit".toList := by
  have hslash : '/' ∉ (toString id).toList := not_mem_toString (by decide)
  have hdot : '.' ∉ (toString id).toList := not_mem_toString (by decide)
  have hhead : (toString id).toList.head? ≠ some '/' := fun h => hslash (List.mem_of_head? h)
  rw [translateIdToPath, Path.append_eq toString_ne_nil hhead]
  refine Path.replaceExtension_of_not_mem ?_
  rwa [Path.filename_append toString_ne_nil hslash]

/-- The file of a commit is named by its id. -/
theorem commitNumber_translateIdToPath : commitNumber (translateIdToPath root id) = some id := by
  rw [commitNumber, translateIdToPath_eq, Path.stem_append_extension
    (not_mem_toString (by decide)) (by decide) (by decide) (by decide), lexicalCast, if_pos]
  · rw [Nat.toString_eq_repr, Nat.toList_repr, Nat.ofDigitChars_ten_toDigits]
  · exact ⟨toString_ne_nil, List.all_eq_true.2 fun c hc => isDigit_of_mem_toString hc⟩

theorem translateIdToPath_inj (h : translateIdToPath root id = translateIdToPath root id') :
    id = id' := by
  have := congrArg commitNumber h
  rwa [commitNumber_translateIdToPath, commitNumber_translateIdToPath, Option.some.injEq] at this

end files

namespace LocalHistoryStorage

variable {s : LocalHistoryStorage} {commit : CommitHistory} {commits : List CommitHistory}

/-- The files are those of the commits, and each is read back as the commit. -/
structure Holds (s : LocalHistoryStorage) (commits : List CommitHistory) : Prop where
  load : ∀ commit ∈ commits, s.loadCommit commit.id = some commit
  named : ∀ p ∈ s.files.keys, ∃ commit ∈ commits, p = translateIdToPath s.storageDir commit.id

/-- The record of a commit is stored, and read back as it was written. -/
def ReadsBack (s : LocalHistoryStorage) (env : Environment) (commit : CommitHistory) : Prop :=
  env.historyOpens = true ∧
    ∃ buffer, s.serializer commit = some buffer ∧ s.deserializer buffer = some commit

/-- A record that is stored is the one read for its id, and adds one file. -/
theorem ReadsBack.storeCommit {env : Environment} (h : s.ReadsBack env commit) :
    ∃ s', s.storeCommit env commit = some s' ∧ s'.storageDir = s.storageDir ∧
      (∀ id, s'.loadCommit id = if id = commit.id then some commit else s.loadCommit id) ∧
        ∀ p ∈ s'.files.keys, p = translateIdToPath s.storageDir commit.id ∨ p ∈ s.files.keys := by
  obtain ⟨hopens, buffer, hser, hdes⟩ := h
  refine ⟨{ s with files := s.files.insert (translateIdToPath s.storageDir commit.id) buffer },
    ?_, rfl, fun id => ?_, fun p hp => ?_⟩
  · rw [LocalHistoryStorage.storeCommit, hser]
    simp only [hopens, if_true]
  · simp only [loadCommit, loadCommitAt]
    split
    · next hid => rw [hid, AList.lookup_insert, Option.bind_some, hdes]
    · next hid => rw [AList.lookup_insert_ne fun hp => hid (translateIdToPath_inj hp)]
  · exact (AList.mem_insert _).1 (AList.mem_keys.2 hp)

theorem loadCommit_dropCommit {id id' : CommitId} (h : id' ≠ id) :
    (s.dropCommit id).loadCommit id' = s.loadCommit id' := by
  rw [loadCommit, loadCommitAt, loadCommit, loadCommitAt, dropCommit,
    AList.lookup_erase_ne fun hp => h (translateIdToPath_inj hp)]

/-- Of commits in the order of their ids, the files are read in this order. -/
theorem Holds.keys_perm (h : s.Holds commits) (hp : commits.Pairwise fun c d => c.id < d.id) :
    s.files.keys.Perm (commits.map fun commit => translateIdToPath s.storageDir commit.id) := by
  have hnodup : (commits.map fun commit => translateIdToPath s.storageDir commit.id).Nodup :=
    List.pairwise_map.2 (hp.imp fun hlt heq => hlt.ne (translateIdToPath_inj heq))
  refine (List.perm_ext_iff_of_nodup s.files.keys_nodup hnodup).2 fun p => ?_
  rw [List.mem_map]
  constructor
  · intro hmem
    obtain ⟨commit, hc, rfl⟩ := h.named p hmem
    exact ⟨commit, hc, rfl⟩
  · rintro ⟨commit, hc, rfl⟩
    have hload := h.load commit hc
    rw [loadCommit, loadCommitAt] at hload
    obtain ⟨text, htext, _⟩ := Option.bind_eq_some_iff.1 hload
    exact AList.mem_keys.1 (AList.lookup_isSome.1 (by rw [htext]; rfl))

theorem Holds.loadAllCommits_eq (h : s.Holds commits)
    (hp : commits.Pairwise fun c d => c.id < d.id) : s.loadAllCommits = some commits := by
  have hperm := h.keys_perm hp
  have hsome : ∀ p ∈ s.files.keys, (commitNumber p).isSome = true := fun p hmem => by
    obtain ⟨commit, _, rfl⟩ := h.named p hmem
    rw [commitNumber_translateIdToPath]
    rfl
  have hsorted : s.files.keys.insertionSort
      (fun p q => (commitNumber p).getD 0 ≤ (commitNumber q).getD 0) =
        commits.map fun commit => translateIdToPath s.storageDir commit.id := by
    -- Two orders of the same files, and the files have different numbers.
    refine @List.Perm.eq_of_pairwise _
      (fun p q => (commitNumber p).getD 0 ≤ (commitNumber q).getD 0) _ _ ?_ ?_ ?_
      ((List.perm_insertionSort _ _).trans hperm)
    · intro p q hpm hqm hpq hqp
      obtain ⟨c, _, rfl⟩ := h.named p ((List.perm_insertionSort _ _).mem_iff.1 hpm)
      obtain ⟨d, _, rfl⟩ := List.mem_map.1 hqm
      simp only [commitNumber_translateIdToPath, Option.getD_some] at hpq hqp
      rw [le_antisymm hpq hqp]
    · exact List.pairwise_insertionSort _ _
    · refine List.pairwise_map.2 (hp.imp fun hlt => ?_)
      simp only [commitNumber_translateIdToPath, Option.getD_some]
      exact hlt.le
  rw [loadAllCommits, sortedPaths, if_pos (.inr hsome), Option.map_some, hsorted,
    List.filterMap_map]
  congr 1
  refine (List.filterMap_congr fun commit hc => ?_).trans List.filterMap_some
  exact h.load commit hc

theorem Holds.fileCount_eq (h : s.Holds commits)
    (hp : commits.Pairwise fun c d => c.id < d.id) : s.fileCount = commits.length := by
  rw [fileCount, (h.keys_perm hp).length_eq, List.length_map]

end LocalHistoryStorage

/-- An empty directory for these commits, in which they are written as their ids. -/
def LocalHistoryStorage.ofCommits (commits : List CommitHistory) : LocalHistoryStorage where
  storageDir := "/h".toList
  serializer commit := some (toString commit.id)
  deserializer text := commits.find? fun commit => toString commit.id = text
  files := ∅

/-! ## Logging and restarting -/

namespace TransactionManager

open AllCommitHistories

/-- The managers reached from a storage by logging commits that are read back and by
    restarting, with the commits logged so far. -/
inductive Runs (storage : LocalHistoryStorage) (maxStorage : Nat) :
    TransactionManager → List CommitHistory → Prop
  | start {t : TransactionManager} :
      TransactionManager.new storage maxStorage = some t → Runs storage maxStorage t []
  | logCommit {t : TransactionManager} {log : List CommitHistory}
      {get : ConfigKey → ConfigPairMap} {env : Environment} {items : ConfigPairList} :
      Runs storage maxStorage t log → t.storage.ReadsBack env (t.newCommit get env items) →
      Runs storage maxStorage (t.logCommit get env items).1 (log ++ [t.newCommit get env items])
  | restart {t t' : TransactionManager} {log : List CommitHistory} :
      Runs storage maxStorage t log → TransactionManager.new t.storage maxStorage = some t' →
      Runs storage maxStorage t' log

/-- What holds of a manager and the commits logged so far. -/
structure Kept (maxStorage : Nat) (t : TransactionManager) (log : List CommitHistory) : Prop where
  /-- A restart finds the same commits in the same order, and the same highest id. -/
  restart : ∃ t', TransactionManager.new t.storage maxStorage = some t' ∧
    t'.commitHistory.commits = t.commitHistory.commits ∧
      t'.commitHistory.getHighestCommitId = t.commitHistory.getHighestCommitId
  /-- Ids increase and are never used again. -/
  increasing : log.Pairwise fun c d => c.id < d.id
  /-- The commits retained are the last ones logged. -/
  retained : t.commitHistory.commits <:+ log
  /-- The parent of a commit is the one logged just before it, or 0. -/
  parent : ∀ pre commit post, log = pre ++ commit :: post → commit.parent = lastId 0 pre
  commitCount : t.commitHistory.getCommitCount ≤ maxStorage
  fileCount : t.storage.fileCount ≤ maxStorage

/-- The commits retained are those logged last, and the files hold them. -/
structure Sound (maxStorage : Nat) (t : TransactionManager) (log : List CommitHistory) : Prop where
  maxStorage_eq : t.maxStorage = maxStorage
  linked : Linked 0 log
  retained : t.commitHistory.commits = log.drop (log.length - maxStorage)
  maxCommitId : t.commitHistory.maxCommitId = lastId 0 log
  holds : t.storage.Holds t.commitHistory.commits

variable {t : TransactionManager} {log : List CommitHistory} {maxStorage : Nat}
  {storage : LocalHistoryStorage} {get : ConfigKey → ConfigPairMap} {env : Environment}
  {items : ConfigPairList}

/-! ### Dropping commits -/

theorem dropExcessiveCommits_of_le (h : t.commitHistory.commits.length ≤ t.maxStorage) :
    t.dropExcessiveCommits = t := by
  have hfix : t.dropExcessiveCommit = t := by
    rw [dropExcessiveCommit, if_neg (by simpa [getCommitCount] using h)]
  rw [dropExcessiveCommits, Function.iterate_fixed hfix]

/-- The files hold the commits, whose ids increase. -/
def FilesHold (t : TransactionManager) : Prop :=
  t.storage.Holds t.commitHistory.commits ∧
    t.commitHistory.commits.Pairwise fun c d => c.id < d.id

theorem FilesHold.dropExcessiveCommit (h : t.FilesHold) : t.dropExcessiveCommit.FilesHold := by
  rw [TransactionManager.dropExcessiveCommit]
  split
  · rcases hc : t.commitHistory.commits with _ | ⟨oldest, rest⟩
    · simpa [dropOldestCommit, hc, FilesHold] using h
    · obtain ⟨hholds, hp⟩ := h
      rw [hc] at hholds hp
      obtain ⟨hlt, hrest⟩ := List.pairwise_cons.1 hp
      simp only [dropOldestCommit, hc, List.head?_cons, List.tail_cons]
      refine ⟨⟨fun commit hcommit => ?_, fun p hmem => ?_⟩, hrest⟩
      · rw [LocalHistoryStorage.loadCommit_dropCommit (hlt commit hcommit).ne']
        exact hholds.load commit (List.mem_cons_of_mem _ hcommit)
      · -- A file that stays is not the one of the oldest commit.
        rw [← AList.mem_keys, LocalHistoryStorage.dropCommit, AList.mem_erase] at hmem
        obtain ⟨commit, hcommit, hpath⟩ := hholds.named p (AList.mem_keys.1 hmem.2)
        rcases List.mem_cons.1 hcommit with rfl | hcommit
        · exact absurd hpath hmem.1
        · exact ⟨commit, hcommit, hpath⟩
  · exact h

theorem FilesHold.dropExcessiveCommits (h : t.FilesHold) : t.dropExcessiveCommits.FilesHold :=
  Function.Iterate.rec FilesHold h (fun _ h => h.dropExcessiveCommit) _

theorem maxCommitId_dropExcessiveCommit :
    t.dropExcessiveCommit.commitHistory.maxCommitId = t.commitHistory.maxCommitId := by
  rw [dropExcessiveCommit]
  split
  · cases hc : t.commitHistory.commits <;> simp [dropOldestCommit, hc]
  · rfl

/-- Dropping commits changes neither the highest id nor the limit. -/
theorem dropExcessiveCommits_frame :
    t.dropExcessiveCommits.commitHistory.maxCommitId = t.commitHistory.maxCommitId ∧
      t.dropExcessiveCommits.maxStorage = t.maxStorage :=
  Function.Iterate.rec
    (fun t' : TransactionManager => t'.commitHistory.maxCommitId = t.commitHistory.maxCommitId ∧
      t'.maxStorage = t.maxStorage)
    ⟨rfl, rfl⟩
    (fun _ h => ⟨maxCommitId_dropExcessiveCommit.trans h.1,
      maxStorage_dropExcessiveCommit.trans h.2⟩) _

/-! ### The invariant -/

/-- As long as some commits may be kept, the last one is. -/
theorem lastId_drop (hm : 1 ≤ maxStorage) :
    lastId 0 (log.drop (log.length - maxStorage)) = lastId 0 log := by
  rcases List.eq_nil_or_concat' log with rfl | ⟨pre, last, rfl⟩
  · simp
  · have hle : (pre ++ [last]).length - maxStorage ≤ pre.length := by
      rw [List.length_append, List.length_singleton]
      omega
    rw [List.drop_append_of_le_length hle, lastId_append_singleton, lastId_append_singleton]

theorem Sound.linked_retained (h : Sound maxStorage t log) :
    ∃ parentId, Linked parentId t.commitHistory.commits := by
  rw [h.retained]
  exact h.linked.drop _

theorem Sound.length_le (h : Sound maxStorage t log) :
    t.commitHistory.commits.length ≤ maxStorage := by
  rw [h.retained, List.length_drop]
  omega

/-- A restart gives the manager back. -/
theorem Sound.new_eq (h : Sound maxStorage t log) (hm : 1 ≤ maxStorage) :
    TransactionManager.new t.storage maxStorage = some t := by
  obtain ⟨parentId, hlinked⟩ := h.linked_retained
  have hmax : t.commitHistory.maxCommitId = lastId 0 t.commitHistory.commits := by
    rw [h.maxCommitId, h.retained, lastId_drop hm]
  rw [TransactionManager.new, h.holds.loadAllCommits_eq hlinked.pairwise]
  simp only [Option.bind_eq_bind, Option.bind_some, hlinked.new_eq]
  rw [← hmax, ← h.maxStorage_eq, dropExcessiveCommits_of_le]
  · rfl
  · rw [h.maxStorage_eq]
    exact h.length_le

theorem Sound.append_retained (h : Sound maxStorage t log) (commit : CommitHistory) :
    t.commitHistory.commits ++ [commit] = (log ++ [commit]).drop (log.length - maxStorage) := by
  rw [h.retained, List.drop_append_of_le_length (by omega)]

/-- A stored commit is the youngest one, and may be one too many. -/
theorem Sound.store (h : Sound maxStorage t log) {commit : CommitHistory}
    (hlinked : Linked 0 (log ++ [commit])) {storage' : LocalHistoryStorage}
    (hdir : storage'.storageDir = t.storage.storageDir)
    (hload : ∀ id, storage'.loadCommit id =
      if id = commit.id then some commit else t.storage.loadCommit id)
    (hkeys : ∀ p ∈ storage'.files.keys,
      p = translateIdToPath t.storage.storageDir commit.id ∨ p ∈ t.storage.files.keys) :
    FilesHold ⟨storage', maxStorage, t.commitHistory.storeCommit commit⟩ := by
  have hpairwise : (t.commitHistory.commits ++ [commit]).Pairwise fun c d => c.id < d.id := by
    rw [h.append_retained]
    exact hlinked.pairwise.drop
  refine ⟨⟨fun c hc => ?_, fun p hp => ?_⟩, hpairwise⟩
  · rw [hload]
    rcases List.mem_append.1 hc with hc | hc
    · -- The older commits have lower ids, so their files are not written over.
      have hlt := (List.pairwise_append.1 hpairwise).2.2 c hc commit List.mem_cons_self
      rw [if_neg hlt.ne]
      exact h.holds.load c hc
    · rw [List.mem_singleton.1 hc, if_pos rfl]
  · dsimp only
    rw [hdir]
    rcases hkeys p hp with rfl | hp
    · exact ⟨commit, by simp [storeCommit], rfl⟩
    · obtain ⟨c, hc, rfl⟩ := h.holds.named p hp
      exact ⟨c, List.mem_append_left _ hc, rfl⟩

/-- Logging a commit that is read back keeps the last commits, with this one. -/
theorem Sound.logCommit (h : Sound maxStorage t log) (hm : 1 ≤ maxStorage)
    (hr : t.storage.ReadsBack env (t.newCommit get env items)) :
    Sound maxStorage (t.logCommit get env items).1 (log ++ [t.newCommit get env items]) := by
  obtain ⟨storage', hstore, hdir, hload, hkeys⟩ := hr.storeCommit
  have hid : lastId 0 log < (t.newCommit get env items).id := by
    rw [newCommit, getHighestCommitId, h.maxCommitId]
    exact Nat.lt_succ_self _
  have hparent : (t.newCommit get env items).parent = lastId 0 log := by
    rw [newCommit, getMostRecentCommit, h.retained]
    exact lastId_drop hm
  have hlinked : Linked 0 (log ++ [t.newCommit get env items]) :=
    linked_append.2 ⟨h.linked, hparent, hid, trivial⟩
  have hlog : (t.logCommit get env items).1 = dropExcessiveCommits
      ⟨storage', maxStorage, t.commitHistory.storeCommit (t.newCommit get env items)⟩ := by
    rw [TransactionManager.logCommit]
    dsimp only
    rw [hstore, ← h.maxStorage_eq]
  rw [hlog]
  generalize t.newCommit get env items = commit at *
  have hfiles := h.store hlinked hdir hload hkeys
  refine ⟨dropExcessiveCommits_frame.2, hlinked, ?_, ?_, hfiles.dropExcessiveCommits.1⟩
  · rw [commits_dropExcessiveCommits]
    have happ : (t.commitHistory.storeCommit commit).commits =
        (log ++ [commit]).drop (log.length - maxStorage) := h.append_retained commit
    simp only [happ, List.drop_drop, List.length_drop, List.length_append, List.length_singleton]
    congr 1
    omega
  · rw [dropExcessiveCommits_frame.1, lastId_append_singleton]
    simp only [storeCommit, h.maxCommitId, hparent]
    rw [max_eq_right hid.le, max_eq_left hid.le]

theorem new_of_empty (hs : storage.files = ∅) :
    TransactionManager.new storage maxStorage = some (onEmpty storage maxStorage) := by
  rw [TransactionManager.new, LocalHistoryStorage.loadAllCommits,
    LocalHistoryStorage.sortedPaths, hs]
  rfl

theorem sound_start (hs : storage.files = ∅)
    (ht : TransactionManager.new storage maxStorage = some t) : Sound maxStorage t [] := by
  rw [new_of_empty hs] at ht
  obtain rfl := Option.some.inj ht
  refine ⟨rfl, trivial, List.drop_nil.symm, rfl, nofun, fun p hp => ?_⟩
  rw [onEmpty, hs] at hp
  exact absurd hp List.not_mem_nil

theorem Runs.sound (h : Runs storage maxStorage t log) (hs : storage.files = ∅)
    (hm : 1 ≤ maxStorage) : Sound maxStorage t log := by
  induction h with
  | start ht => exact sound_start hs ht
  | logCommit _ hr ih => exact ih.logCommit hm hr
  | restart _ ht ih =>
    rw [ih.new_eq hm] at ht
    rwa [← Option.some.inj ht]

/-- From an empty directory, with room for some commits, logging commits that are read back
    and restarting lead to managers that a restart gives back, with the last commits of all
    that were logged. -/
theorem Runs.kept (h : Runs storage maxStorage t log) (hs : storage.files = ∅)
    (hm : 1 ≤ maxStorage) : Kept maxStorage t log := by
  have hsound := h.sound hs hm
  obtain ⟨parentId, hlinked⟩ := hsound.linked_retained
  refine ⟨⟨t, hsound.new_eq hm, rfl, rfl⟩, hsound.linked.pairwise, ?_, ?_, hsound.length_le, ?_⟩
  · rw [hsound.retained]
    exact List.drop_suffix _ _
  · rintro pre commit post rfl
    exact (linked_append.1 hsound.linked).2.1
  · rw [hsound.holds.fileCount_eq hlinked.pairwise]
    exact hsound.length_le

/-- The commits that count a key up. -/
def countedUp : List CommitHistory :=
  [⟨1, 0, [(.ofKey (.ofString "net.mtu"), .ofInt32 "net.mtu" 1)], some 0⟩,
    ⟨2, 1, [(.ofInt32 "net.mtu" 1, .ofInt32 "net.mtu" 2)], some 0⟩,
    ⟨3, 2, [(.ofInt32 "net.mtu" 2, .ofInt32 "net.mtu" 3)], some 0⟩]

/-- The database once the key has been counted up `n` times. -/
def countedTo (n : Nat) (_ : ConfigKey) : ConfigPairMap :=
  if n = 0 then .empty else ConfigPairMap.empty.emplace (.ofInt32 "net.mtu" (.ofNat n))

/-- The manager once the key has been counted up `n` times, which keeps two commits. -/
def afterCounting : Nat → TransactionManager
  | 0 => onEmpty (.ofCommits countedUp) 2
  | n + 1 => ((afterCounting n).logCommit (countedTo n) ⟨0, true⟩
      [.ofInt32 "net.mtu" (.ofNat (n + 1))]).1

/-- The daemon is started again behind each commit but the first. -/
theorem runs_afterCounting : Runs (.ofCommits countedUp) 2 (afterCounting 3) countedUp := by
  have restart : ∀ {t log}, Runs (.ofCommits countedUp) 2 t log →
      Runs (.ofCommits countedUp) 2 t log :=
    fun h => .restart h ((h.sound rfl (by decide)).new_eq (by decide))
  have h₁ : Runs (.ofCommits countedUp) 2 (afterCounting 1) (countedUp.take 1) :=
    .logCommit (.start rfl) ⟨rfl, _, rfl, by decide⟩
  have h₂ : Runs (.ofCommits countedUp) 2 (afterCounting 2) (countedUp.take 2) :=
    .logCommit h₁ ⟨rfl, _, rfl, by decide⟩
  exact restart (.logCommit (restart h₂) ⟨rfl, _, rfl, by decide⟩)

theorem kept_countedUp : Kept 2 (afterCounting 3) countedUp :=
  Runs.kept runs_afterCounting rfl (by decide)

end TransactionManager

end SysAdmin
