import Mathlib.Data.List.Sort
import SysAdmin.ConfigTypes
import SysAdmin.Foundation.ParentLinks
import SysAdmin.Foundation.Path

/-!
# The history of commits

Every commit that changes something is logged with its *deltas*: for each changed
key the pair from before and the pair written. `TransactionManager` keeps the
commits in memory (`AllCommitHistories`) and one file for each in the history
storage (`LocalHistoryStorage`), the last `maxStorage` of them.

* `TransactionManager.logCommit` logs a commit, first in memory and then in the
  storage. Opening the commit file may fail, which throws an exception: the
  outcome is then `none`, in the state reached at the throw.
* `TransactionManager.new` reads the commits back when the daemon starts, sorted by
  following the commits from child to parent.
* `TransactionManager.canRollback` looks for later commits with the same keys. It
  follows the commits from parent to child, which need not end if the ids have
  cycles; the outcome is then `none`.
-/

namespace SysAdmin

/-- Commits are numbered. -/
abbrev CommitId := Nat

/-- The pair of a key before a commit, and the one written. -/
abbrev ConfigDelta := ConfigPair × ConfigPair

/-- A logged commit. The time is in seconds, `none` standing for `not_a_date_time`. -/
structure CommitHistory where
  id : CommitId
  parent : CommitId
  items : List ConfigDelta
  time : Option Nat
  deriving DecidableEq

/-- What a client learns about a commit to a key. -/
structure BlameDelta where
  commitId : CommitId
  commitTime : Option Nat
  delta : ConfigDelta
  deriving DecidableEq

/-- What the system decides about a commit: the local time, and whether the
    commit file can be opened. -/
structure Environment where
  now : Nat
  historyOpens : Bool
  deriving DecidableEq

/-! ## Commits in memory -/

/-- The commits, from oldest to youngest, and the highest id of a commit or a parent. -/
structure AllCommitHistories where
  commits : List CommitHistory
  maxCommitId : CommitId
  deriving DecidableEq

namespace AllCommitHistories

/-- No commits. -/
def empty : AllCommitHistories := ⟨[], 0⟩

/-- Adds a commit. -/
def storeCommit (h : AllCommitHistories) (commit : CommitHistory) : AllCommitHistories where
  commits := h.commits ++ [commit]
  maxCommitId := max (max h.maxCommitId commit.id) commit.parent

/-- The last commit with an id. -/
def getCommit (h : AllCommitHistories) (commitId : CommitId) : Option CommitHistory :=
  h.commits.foldl
    (fun maybeCommit commit => if commit.id = commitId then some commit else maybeCommit) none

/-- The last commit with a parent. -/
def getChild (h : AllCommitHistories) (parentId : CommitId) : Option CommitHistory :=
  h.commits.foldl
    (fun maybeCommit commit => if commit.parent = parentId then some commit else maybeCommit) none

/-- Removes the oldest commit. -/
def dropOldestCommit (h : AllCommitHistories) : Option CommitHistory × AllCommitHistories :=
  (h.commits.head?, { h with commits := h.commits.tail })

/-- The youngest commit. -/
def getMostRecentCommit (h : AllCommitHistories) : Option CommitHistory := h.commits.getLast?

/-- The highest id in use. -/
def getHighestCommitId (h : AllCommitHistories) : CommitId := h.maxCommitId

/-- The number of commits. -/
def getCommitCount (h : AllCommitHistories) : Nat := h.commits.length

/-- The delta of a commit for a key. -/
def getDelta (key : ConfigKey) (commit : CommitHistory) : Option ConfigDelta :=
  commit.items.foldl (fun maybeDelta delta => if delta.1.key = key then some delta else maybeDelta)
    none

/-- The commits to a key, from youngest to oldest. -/
def blame (h : AllCommitHistories) (key : ConfigKey) : List BlameDelta :=
  (h.commits.filterMap fun commit =>
    (getDelta key commit).map fun delta => ⟨commit.id, commit.time, delta⟩).reverse

/-! ### Sorting commits -/

/-- The highest id of a commit or a parent. -/
def findMaxCommitId (unsortedCommits : List CommitHistory) : CommitId :=
  unsortedCommits.foldl (fun id commit => max (max id commit.id) commit.parent) 0

/-- The last commit with an id. -/
def findCommit (commitId : CommitId) (unsortedCommits : List CommitHistory) :
    Option CommitHistory :=
  unsortedCommits.foldl
    (fun maybeCommit commit => if commit.id = commitId then some commit else maybeCommit) none

/-- The last commit with a parent. -/
def findChild (parentId : CommitId) (unsortedCommits : List CommitHistory) :
    Option CommitHistory :=
  unsortedCommits.foldl
    (fun maybeCommit commit => if commit.parent = parentId then some commit else maybeCommit) none

/-- The last commit without a child. -/
def findMostRecentCommit (unsortedCommits : List CommitHistory) : Option CommitHistory :=
  unsortedCommits.foldl
    (fun maybeCommit commit =>
      if (findChild commit.id unsortedCommits).isNone then some commit else maybeCommit) none

/-- The loop of `sort`, which puts a commit before its descendants and goes on with
    its parent, for some turns at most. -/
def sortFrom (unsortedCommits : List CommitHistory) :
    Nat → Option CommitHistory → List CommitHistory → Option (List CommitHistory)
  | _, none, sortedCommits => some sortedCommits
  | 0, some _, _ => none
  | n + 1, some commit, sortedCommits =>
    sortFrom unsortedCommits n (findCommit commit.parent unsortedCommits) (commit :: sortedCommits)

/-- The youngest commit behind its ancestors. A loop with more turns than there are
    commits has come back to one of them, and goes on forever. -/
def sort (unsortedCommits : List CommitHistory) : Option (List CommitHistory) :=
  sortFrom unsortedCommits unsortedCommits.length (findMostRecentCommit unsortedCommits) []

/-- The histories of commits in any order, unless sorting them does not end. -/
def new (commits : List CommitHistory) : Option AllCommitHistories :=
  (sort commits).map fun sorted => ⟨sorted, findMaxCommitId commits⟩

end AllCommitHistories

/-! ## Commits in files -/

/-- The file of a commit. -/
def translateIdToPath (root : Path) (id : CommitId) : Path :=
  (root.append (toString id).toList).replaceExtension ".commit".toList

/-- The history storage: a directory with the text of one commit in each file. -/
structure LocalHistoryStorage where
  storageDir : Path
  serializer : CommitHistory → Option String
  deserializer : String → Option CommitHistory
  files : AList fun _ : Path => String

/-- Reading a text as a number: all of it must be digits. -/
def lexicalCast (text : List Char) : Option Nat :=
  if text ≠ [] ∧ text.all Char.isDigit then some (Nat.ofDigitChars 10 text 0) else none

/-- The number a commit file is named by. -/
def commitNumber (p : Path) : Option Nat := lexicalCast p.stem

namespace LocalHistoryStorage

/-- Writes the file of a commit, unless it cannot be serialized. Throws if the
    file cannot be opened. -/
def storeCommit (s : LocalHistoryStorage) (env : Environment) (commit : CommitHistory) :
    Option LocalHistoryStorage :=
  match s.serializer commit with
  | none => some s
  | some buffer =>
    if env.historyOpens then
      some { s with files := s.files.insert (translateIdToPath s.storageDir commit.id) buffer }
    else none

/-- The commit read from a file. -/
def loadCommitAt (s : LocalHistoryStorage) (commitpath : Path) : Option CommitHistory :=
  (s.files.lookup commitpath).bind s.deserializer

/-- The commit read from the file of an id. -/
def loadCommit (s : LocalHistoryStorage) (id : CommitId) : Option CommitHistory :=
  s.loadCommitAt (translateIdToPath s.storageDir id)

/-- The commit files in the order of their numbers. Comparing two files throws if
    one of them is not named by a number. -/
def sortedPaths (s : LocalHistoryStorage) : Option (List Path) :=
  let paths := s.files.keys
  if paths.length ≤ 1 ∨ ∀ p ∈ paths, (commitNumber p).isSome then
    some (paths.insertionSort fun p q => (commitNumber p).getD 0 ≤ (commitNumber q).getD 0)
  else none

/-- The commits in all files that hold one. -/
def loadAllCommits (s : LocalHistoryStorage) : Option (List CommitHistory) :=
  s.sortedPaths.map fun paths => paths.filterMap s.loadCommitAt

/-- The number of commit files. -/
def fileCount (s : LocalHistoryStorage) : Nat := s.files.keys.length

/-- Removes the file of a commit. -/
def dropCommit (s : LocalHistoryStorage) (id : CommitId) : LocalHistoryStorage :=
  { s with files := s.files.erase (translateIdToPath s.storageDir id) }

end LocalHistoryStorage

/-- An empty history storage, whose files hold no more than the ids of the commits. -/
def LocalHistoryStorage.ofIds : LocalHistoryStorage :=
  ⟨"/h".toList, fun commit => some (toString commit.id), fun _ => none, ∅⟩

/-! ## The manager -/

/-- The commits, in memory and in the storage, and how many of them to keep. -/
structure TransactionManager where
  storage : LocalHistoryStorage
  maxStorage : Nat
  commitHistory : AllCommitHistories

namespace TransactionManager

/-- The client id under which commits are rolled back. -/
def TRANSACTION_HISTORY_ID : Nat := 5

/-- The manager of a storage without commits. -/
def onEmpty (storage : LocalHistoryStorage) (maxStorage : Nat) : TransactionManager :=
  ⟨storage, maxStorage, .empty⟩

/-- The deltas of items, in the database read with `get`. -/
def generateDeltas (get : ConfigKey → ConfigPairMap) (old : ConfigPairList) : List ConfigDelta :=
  old.map fun item => ((unwrapSinglePair (get item.key)).getD (.ofKey item.key), item)

/-- Drops a commit if there are too many. -/
def dropExcessiveCommit (t : TransactionManager) : TransactionManager :=
  if t.commitHistory.getCommitCount > t.maxStorage then
    match t.commitHistory.dropOldestCommit with
    | (some commit, commitHistory) =>
      { t with commitHistory := commitHistory, storage := t.storage.dropCommit commit.id }
    | (none, commitHistory) => { t with commitHistory := commitHistory }
  else t

/-- Drops the oldest commits until there are not too many any more, which takes at
    most one turn for each commit. -/
def dropExcessiveCommits (t : TransactionManager) : TransactionManager :=
  dropExcessiveCommit^[t.commitHistory.getCommitCount] t

/-- The manager of a storage, unless reading the storage throws or does not end. -/
def new (storage : LocalHistoryStorage) (maxStorage : Nat) : Option TransactionManager := do
  let commits ← storage.loadAllCommits
  let commitHistory ← AllCommitHistories.new commits
  return dropExcessiveCommits ⟨storage, maxStorage, commitHistory⟩

/-- The commit that `logCommit` logs. -/
def newCommit (t : TransactionManager) (get : ConfigKey → ConfigPairMap) (env : Environment)
    (toBeCommitted : ConfigPairList) : CommitHistory where
  id := t.commitHistory.getHighestCommitId + 1
  parent := (t.commitHistory.getMostRecentCommit.map CommitHistory.id).getD 0
  items := generateDeltas get toBeCommitted
  time := some env.now

/-- Logs a commit, in memory and then in the storage. -/
def logCommit (t : TransactionManager) (get : ConfigKey → ConfigPairMap) (env : Environment)
    (toBeCommitted : ConfigPairList) : TransactionManager × Option CommitId :=
  let commit := t.newCommit get env toBeCommitted
  let t := { t with commitHistory := t.commitHistory.storeCommit commit }
  match t.storage.storeCommit env commit with
  | none => (t, none)
  | some storage => (dropExcessiveCommits { t with storage := storage }, some commit.id)

/-- Whether two commits have a key in common. -/
def shareKey (commitRolledBack childCommit : CommitHistory) : Bool :=
  commitRolledBack.items.any fun delta =>
    childCommit.items.any fun laterDelta => delta.1.key = laterDelta.1.key

/-- The loop of `canRollback`, going on from a commit for some turns at most. -/
def noLaterChange (h : AllCommitHistories) (commitRolledBack : CommitHistory) :
    Nat → Option CommitHistory → Option Bool
  | _, none => some true
  | 0, some _ => none
  | n + 1, some childCommit =>
    if shareKey commitRolledBack childCommit then some false
    else noLaterChange h commitRolledBack n (h.getChild childCommit.id)

/-- Whether no later commit has a key of this one. A loop with more turns than there
    are commits has come back to one of them, and goes on forever. -/
def canRollback (t : TransactionManager) (commitRolledBack : CommitHistory) : Option Bool :=
  noLaterChange t.commitHistory commitRolledBack t.commitHistory.getCommitCount
    (t.commitHistory.getChild commitRolledBack.id)

variable {t : TransactionManager} {get : ConfigKey → ConfigPairMap} {env : Environment}
  {items : ConfigPairList}

theorem commits_dropExcessiveCommit : t.dropExcessiveCommit.commitHistory.commits =
    if t.commitHistory.commits.length > t.maxStorage then t.commitHistory.commits.tail
    else t.commitHistory.commits := by
  rw [dropExcessiveCommit, AllCommitHistories.getCommitCount]
  split
  · cases hc : t.commitHistory.commits <;> simp [AllCommitHistories.dropOldestCommit, hc]
  · rfl

theorem maxStorage_dropExcessiveCommit : t.dropExcessiveCommit.maxStorage = t.maxStorage := by
  rw [dropExcessiveCommit]
  split
  · split <;> rfl
  · rfl

theorem commits_iterate_dropExcessiveCommit (n : Nat) :
    (dropExcessiveCommit^[n] t).commitHistory.commits =
      t.commitHistory.commits.drop (min n (t.commitHistory.commits.length - t.maxStorage)) := by
  induction n generalizing t with
  | zero => simp
  | succ n ih =>
    rw [Function.iterate_succ_apply, ih, commits_dropExcessiveCommit,
      maxStorage_dropExcessiveCommit]
    split
    · rw [← List.drop_one, List.drop_drop, List.length_drop]
      congr 1
      omega
    · next h =>
      congr 1
      omega

/-- Of the commits, the youngest ones stay. -/
theorem commits_dropExcessiveCommits : t.dropExcessiveCommits.commitHistory.commits =
    t.commitHistory.commits.drop (t.commitHistory.commits.length - t.maxStorage) := by
  rw [dropExcessiveCommits, commits_iterate_dropExcessiveCommit, AllCommitHistories.getCommitCount]
  congr 1
  omega

/-- Storing a commit throws if it can be serialized, but its file cannot be opened. -/
theorem storeCommit_eq_none_iff {s : LocalHistoryStorage} {commit : CommitHistory} :
    s.storeCommit env commit = none ↔
      (s.serializer commit).isSome = true ∧ env.historyOpens = false := by
  rw [LocalHistoryStorage.storeCommit]
  rcases s.serializer commit with _ | buffer
  · simp
  · cases env.historyOpens <;> simp

/-- If logging does not throw, the commit is the youngest one now. -/
theorem commits_logCommit {id : CommitId} (h : (t.logCommit get env items).2 = some id) :
    (t.logCommit get env items).1.commitHistory.commits =
      (t.commitHistory.commits ++ [t.newCommit get env items]).drop
        (t.commitHistory.commits.length + 1 - t.maxStorage) := by
  rw [logCommit] at h ⊢
  dsimp only at h ⊢
  split at h
  · cases h
  · simp [commits_dropExcessiveCommits, AllCommitHistories.storeCommit]

/-- If logging throws, the commit is in memory all the same. -/
theorem logCommit_of_throw (h : (t.logCommit get env items).2 = none) :
    (t.logCommit get env items).1 =
      { t with commitHistory := t.commitHistory.storeCommit (t.newCommit get env items) } := by
  rw [logCommit] at h ⊢
  dsimp only at h ⊢
  split at h
  · rfl
  · cases h

/-- Logging throws exactly if storing the commit does. -/
theorem logCommit_eq_none_iff : (t.logCommit get env items).2 = none ↔
    (t.storage.serializer (t.newCommit get env items)).isSome = true ∧
      env.historyOpens = false := by
  rw [← storeCommit_eq_none_iff, logCommit]
  dsimp only
  split <;> simp [*]

end TransactionManager

/-- A commit found by its id is one of the commits, with this id. -/
theorem AllCommitHistories.mem_of_getCommit {h : AllCommitHistories} {id : CommitId}
    {commit : CommitHistory} (hc : h.getCommit id = some commit) :
    commit ∈ h.commits ∧ commit.id = id :=
  ParentLinks.of_foldl_eq_some hc

end SysAdmin
