import SysAdmin.HistoryRestart
import SysAdmin.Configurator

/-!
# When a rollback is refused

A rollback is refused with a `RollbackError` if the commit is not retained, or if a commit
logged later has a delta for one of its keys. To find such a commit, `canRollback` follows the
retained commits from parent to child. It misses none, as they form a chain, however many
commits have been logged and dropped and however often the history was read back.

* `TransactionManager.Histories`: the managers reached by logging commits, which drops old ones,
  and by restarts that read the retained commits back, in any order;
* `Configurator.rollback_refused_iff`: in all of these, a rollback is refused exactly for these
  two reasons, and then changes nothing.
-/

namespace SysAdmin

open AllCommitHistories

namespace TransactionManager

/-- The managers reached from an empty storage, with all commits logged so far. The number of
    commits to keep may be another one after a restart. -/
inductive Histories : TransactionManager → List CommitHistory → Prop
  | start {t : TransactionManager} {storage : LocalHistoryStorage} {maxStorage : Nat} :
      storage.files = ∅ → TransactionManager.new storage maxStorage = some t → Histories t []
  | logCommit {t : TransactionManager} {log : List CommitHistory}
      {get : ConfigKey → ConfigPairMap} {env : Environment} {items : ConfigPairList} :
      Histories t log →
      Histories (t.logCommit get env items).1 (log ++ [t.newCommit get env items])
  | restart {t t' : TransactionManager} {log commits : List CommitHistory} {maxStorage : Nat} :
      Histories t log → t.storage.loadAllCommits = some commits →
      commits.Perm t.commitHistory.commits →
      TransactionManager.new t.storage maxStorage = some t' → Histories t' log

/-- The retained commits are linked, and the last ones logged. -/
structure Trailing (t : TransactionManager) (log : List CommitHistory) : Prop where
  linked : ∃ parentId, Linked parentId t.commitHistory.commits
  retained : t.commitHistory.commits <:+ log
  le_maxCommitId : ∀ commit ∈ t.commitHistory.commits, commit.id ≤ t.commitHistory.maxCommitId

variable {t t' : TransactionManager} {log commits : List CommitHistory} {maxStorage : Nat}
  {storage : LocalHistoryStorage} {get : ConfigKey → ConfigPairMap} {env : Environment}
  {items : ConfigPairList}

theorem Trailing.lineage (h : Trailing t log) :
    ParentLinks.Lineage CommitHistory.id CommitHistory.parent t.commitHistory.commits := by
  obtain ⟨_, hlinked⟩ := h.linked
  exact hlinked.lineage

theorem Trailing.dropExcessiveCommits (h : Trailing t log) :
    Trailing t.dropExcessiveCommits log := by
  obtain ⟨parentId, hlinked⟩ := h.linked
  refine ⟨?_, ?_, fun commit hc => ?_⟩
  · rw [commits_dropExcessiveCommits]
    exact hlinked.drop _
  · rw [commits_dropExcessiveCommits]
    exact (List.drop_suffix _ _).trans h.retained
  · rw [commits_dropExcessiveCommits] at hc
    rw [dropExcessiveCommits_frame.1]
    exact h.le_maxCommitId commit (List.mem_of_mem_drop hc)

/-- The commit logged is the child of the youngest one retained, and has a new id. -/
theorem Trailing.linked_newCommit (h : Trailing t log) :
    ∃ parentId, Linked parentId (t.commitHistory.commits ++ [t.newCommit get env items]) := by
  obtain ⟨parentId, hlinked⟩ := h.linked
  rcases List.eq_nil_or_concat' t.commitHistory.commits with hnil | ⟨pre, last, hlast⟩
  · refine ⟨0, ?_⟩
    rw [hnil]
    refine ⟨?_, Nat.succ_pos _, trivial⟩
    rw [newCommit, getMostRecentCommit, hnil]
    rfl
  · refine ⟨parentId, linked_append.2 ⟨hlinked, ?_, ?_, trivial⟩⟩
    · rw [newCommit, getMostRecentCommit, hlast, lastId_append_singleton, List.getLast?_concat]
      rfl
    · have hle := h.le_maxCommitId last (by rw [hlast]; simp)
      rw [hlast, lastId_append_singleton]
      exact Nat.lt_succ_of_le hle

/-- In memory the commit is logged in any case. -/
theorem Trailing.storeCommit (h : Trailing t log) : Trailing
    ⟨storage, t.maxStorage, t.commitHistory.storeCommit (t.newCommit get env items)⟩
      (log ++ [t.newCommit get env items]) := by
  refine ⟨h.linked_newCommit, ?_, fun commit hc => ?_⟩
  · obtain ⟨dropped, hdropped⟩ := h.retained
    exact ⟨dropped, by rw [← hdropped, AllCommitHistories.storeCommit, List.append_assoc]⟩
  · rcases List.mem_append.1 hc with hc | hc
    · exact (h.le_maxCommitId commit hc).trans ((le_max_left _ _).trans (le_max_left _ _))
    · rw [List.mem_singleton.1 hc]
      exact (le_max_right _ _).trans (le_max_left _ _)

theorem Trailing.logCommit (h : Trailing t log) :
    Trailing (t.logCommit get env items).1 (log ++ [t.newCommit get env items]) := by
  rw [TransactionManager.logCommit]
  dsimp only
  cases t.storage.storeCommit env (t.newCommit get env items) with
  | none => exact h.storeCommit
  | some storage => exact h.storeCommit.dropExcessiveCommits

/-- A restart sorts the commits that it reads back. -/
theorem Trailing.restart (h : Trailing t log) (hload : t.storage.loadAllCommits = some commits)
    (hp : commits.Perm t.commitHistory.commits)
    (ht : TransactionManager.new t.storage maxStorage = some t') : Trailing t' log := by
  rw [TransactionManager.new, hload, Option.bind_eq_bind, Option.bind_some,
    AllCommitHistories.new_eq h.lineage hp] at ht
  obtain rfl := Option.some.inj ht
  refine Trailing.dropExcessiveCommits ⟨h.linked, h.retained, fun commit hc => ?_⟩
  exact le_findMaxCommitId (hp.mem_iff.2 hc)

theorem trailing_of_empty (hs : storage.files = ∅)
    (ht : TransactionManager.new storage maxStorage = some t) : Trailing t [] := by
  rw [new_of_empty hs] at ht
  obtain rfl := Option.some.inj ht
  exact ⟨⟨0, trivial⟩, List.nil_suffix, nofun⟩

theorem Histories.trailing (h : Histories t log) : Trailing t log := by
  induction h with
  | start hs ht => exact trailing_of_empty hs ht
  | logCommit _ ih => exact ih.logCommit
  | restart _ hload hp ht ih => exact ih.restart hload hp ht

/-- A storage that reads its commits back lets every restart read the retained ones back. -/
theorem Runs.histories (h : Runs storage maxStorage t log) (hs : storage.files = ∅)
    (hm : 1 ≤ maxStorage) : Histories t log := by
  induction h with
  | start ht => exact .start hs ht
  | logCommit _ _ ih => exact ih.logCommit
  | restart h ht ih =>
    have hsound := h.sound hs hm
    obtain ⟨_, hlinked⟩ := hsound.linked_retained
    exact ih.restart (hsound.holds.loadAllCommits_eq hlinked.pairwise) (.refl _) ht

end TransactionManager

namespace Configurator

open TransactionManager

variable {c : Configurator} {env : Environment} {commitId : CommitId} {commit : CommitHistory}
  {log : List CommitHistory}

/-- Of the commits logged, one with this id is still retained, with those after it, and one of
    these has a delta for one of its keys. -/
def ChangedLater (t : TransactionManager) (log : List CommitHistory) (commitId : CommitId) : Prop :=
  ∃ commit laterCommits, commit :: laterCommits <:+ log ∧
    commit :: laterCommits <:+ t.commitHistory.commits ∧ commit.id = commitId ∧
      ∃ later ∈ laterCommits, ∃ d ∈ commit.items, ∃ d' ∈ later.items, d.1.key = d'.1.key

/-- A retained commit can be rolled back unless it was changed later. -/
theorem canRollback_of_mem {t : TransactionManager} (h : Trailing t log)
    (hc : commit ∈ t.commitHistory.commits) : ∃ b, t.canRollback commit = some b ∧
      (b = false ↔ ChangedLater t log commit.id) := by
  obtain ⟨pre, post, hsplit⟩ := List.append_of_mem hc
  refine ⟨_, canRollback_eq h.lineage hsplit, ?_⟩
  have hshare : (post.all fun later => !shareKey commit later) = false ↔
      ∃ later ∈ post, ∃ d ∈ commit.items, ∃ d' ∈ later.items, d.1.key = d'.1.key := by
    simp [shareKey]
  rw [hshare]
  constructor
  · intro hlater
    have hsuffix : commit :: post <:+ t.commitHistory.commits := ⟨pre, hsplit.symm⟩
    exact ⟨commit, post, hsuffix.trans h.retained, hsuffix, rfl, hlater⟩
  · rintro ⟨commit', post', _, ⟨pre', hsplit'⟩, hid, hlater⟩
    have hl := h.lineage
    rw [hsplit] at hl hsplit'
    obtain ⟨_, rfl, rfl⟩ := hl.split_unique hsplit'.symm hid
    exact hlater

/-- Over a history that logging, dropping and restarting lead to, a rollback comes to an
    end, and is refused exactly if the commit is not retained or a commit logged later has
    one of its keys. Then nothing is changed. -/
theorem rollback_refused_iff (h : Histories c.commitHistory log) :
    (c.rollback env commitId).2 ≠ .diverges ∧
    ((∃ what, (c.rollback env commitId).2 = .rollbackError what) ↔
      (∀ commit ∈ c.commitHistory.commitHistory.commits, commit.id ≠ commitId) ∨
        ChangedLater c.commitHistory log commitId) ∧
    ∀ what, (c.rollback env commitId).2 = .rollbackError what →
      (c.rollback env commitId).1 = c := by
  by_cases hid : ∀ commit ∈ c.commitHistory.commitHistory.commits, commit.id ≠ commitId
  · rw [rollback, getCommit_eq_none hid]
    exact ⟨nofun, ⟨fun _ => .inl hid, fun _ => ⟨_, rfl⟩⟩, fun _ _ => rfl⟩
  · obtain ⟨commit, hc, rfl⟩ :
        ∃ commit ∈ c.commitHistory.commitHistory.commits, commit.id = commitId := by
      simpa using hid
    -- The walk over the later commits ends, and finds a common key if there is one.
    obtain ⟨b, hcan, hiff⟩ := canRollback_of_mem h.trailing hc
    have hretained : ¬∀ d ∈ c.commitHistory.commitHistory.commits, d.id ≠ commit.id :=
      fun hne => hne commit hc rfl
    rw [rollback, getCommit_eq h.trailing.lineage hc]
    simp only [hcan, ← hiff, hretained, false_or]
    cases b with
    | false => simp
    | true => simp

/-- A storage that reads the first commit back if it sets `a` to 1. -/
def setsA : LocalHistoryStorage :=
  { LocalHistoryStorage.ofIds with
    deserializer := fun text =>
      if text = "1" then some ⟨1, 0, [(.ofKey (.ofString "a"), .ofInt32 "a" 1)], some 0⟩
      else none }

/-- The manager that has logged this commit. -/
def afterFirst : TransactionManager :=
  ((TransactionManager.onEmpty setsA 2).logCommit (fun _ => .empty) ⟨0, true⟩
    [.ofInt32 "a" 1]).1

/-- The configurator after a restart and a second commit, which sets `a` to 2. -/
def afterSecond : Configurator :=
  { Configurator.onEmpty "/".toList setsA 2 with
    commitHistory := (afterFirst.logCommit (fun _ => .empty) ⟨0, true⟩ [.ofInt32 "a" 2]).1 }

theorem rollback_refused_iff_setTwice :
    ∃ what, (afterSecond.rollback ⟨0, true⟩ 1).2 = .rollbackError what := by
  have hfirst : Runs setsA 2 afterFirst
      [⟨1, 0, [(.ofKey (.ofString "a"), .ofInt32 "a" 1)], some 0⟩] :=
    .logCommit (.start rfl) ⟨rfl, _, rfl, by decide⟩
  have hrestart := Runs.restart hfirst ((hfirst.sound rfl (by decide)).new_eq (by decide))
  have hsecond : Histories afterSecond.commitHistory _ :=
    (hrestart.histories rfl (by decide)).logCommit
  refine (rollback_refused_iff hsecond).2.1.2 (.inr ?_)
  exact ⟨⟨1, 0, [(.ofKey (.ofString "a"), .ofInt32 "a" 1)], some 0⟩,
    [⟨2, 1, [(.ofKey (.ofString "a"), .ofInt32 "a" 2)], some 0⟩], by decide, by decide, rfl,
    by decide⟩

end Configurator

end SysAdmin
