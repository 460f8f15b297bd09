import SysAdmin.TransactionManager
import SysAdmin.Foundation.ParentLinks

/-!
# Chains of commits

The commits of a history form a chain: they are a `Lineage`, each with the commit before
it as its parent. Their ids need not increase along the chain.

* `AllCommitHistories.new` puts the commits of a chain in order, whatever the order it is
  given them in (`new_eq_of_lineage`);
* `noLaterChange` follows a chain from a commit to the youngest one, through all commits
  in between (`noLaterChange_eq_all`).
-/

namespace SysAdmin

namespace AllCommitHistories

open ParentLinks

variable {commit : CommitHistory} {chain unsorted pre post : List CommitHistory}

/-! ## Sorting a chain -/

/-- Before the oldest commit there is none, and before another one its parent. -/
theorem findCommit_parent
    (h : Lineage CommitHistory.id CommitHistory.parent (pre ++ commit :: post))
    (hp : unsorted.Perm (pre ++ commit :: post)) :
    findCommit commit.parent unsorted = pre.getLast? :=
  h.foldl_parent hp

theorem findMostRecentCommit_eq (h : Lineage CommitHistory.id CommitHistory.parent chain)
    (hp : unsorted.Perm chain) : findMostRecentCommit unsorted = chain.getLast? :=
  h.foldl_youngest hp

/-- The loop goes back through the commits before those it has sorted. -/
theorem sortFrom_eq {n : Nat} (h : Lineage CommitHistory.id CommitHistory.parent (pre ++ post))
    (hp : unsorted.Perm (pre ++ post)) (hn : pre.length ≤ n) :
    sortFrom unsorted n pre.getLast? post = some (pre ++ post) := by
  induction n generalizing pre post with
  | zero =>
    obtain rfl : pre = [] := List.length_eq_zero_iff.1 (by omega)
    rfl
  | succ n ih =>
    rcases List.eq_nil_or_concat' pre with rfl | ⟨pre, last, rfl⟩
    · rfl
    · have hsplit : pre ++ [last] ++ post = pre ++ last :: post := by simp
      rw [List.length_append, List.length_singleton] at hn
      rw [hsplit] at h hp ⊢
      rw [List.getLast?_concat, sortFrom, findCommit_parent h hp]
      exact ih h hp (by omega)

theorem sort_eq (h : Lineage CommitHistory.id CommitHistory.parent chain)
    (hp : unsorted.Perm chain) : sort unsorted = some chain := by
  rw [sort, findMostRecentCommit_eq h hp]
  have hsort : sortFrom unsorted unsorted.length chain.getLast? [] = some (chain ++ []) :=
    sortFrom_eq (by simpa using h) (by simpa using hp) hp.length_eq.ge
  simpa using hsort

/-- The ids that commits have or refer to. -/
def usedIds (commits : List CommitHistory) : List CommitId :=
  commits.flatMap fun commit => [commit.id, commit.parent]

theorem findMaxCommitId_eq_foldl (commits : List CommitHistory) :
    findMaxCommitId commits = (usedIds commits).foldl max 0 := by
  rw [findMaxCommitId, usedIds, List.foldl_flatMap]
  rfl

theorem findMaxCommitId_eq (commits : List CommitHistory) :
    findMaxCommitId commits = (usedIds commits).max?.getD 0 := by
  rw [findMaxCommitId_eq_foldl]
  cases usedIds commits with
  | nil => rfl
  | cons id ids => rw [List.max?_cons', List.foldl_cons, Nat.zero_max, Option.getD_some]

theorem findMaxCommitId_perm (hp : unsorted.Perm chain) :
    findMaxCommitId unsorted = findMaxCommitId chain := by
  rw [findMaxCommitId_eq_foldl, findMaxCommitId_eq_foldl]
  refine (hp.flatMap_right _).foldl_eq' (fun id _ id' _ highest => ?_) 0
  rw [max_assoc, max_comm id, ← max_assoc]

theorem le_findMaxCommitId {commits : List CommitHistory} (hc : commit ∈ commits) :
    commit.id ≤ findMaxCommitId commits := by
  induction commits using List.reverseRecOn with
  | nil => exact absurd hc List.not_mem_nil
  | append_singleton commits last ih =>
    rw [findMaxCommitId, List.foldl_append, List.foldl_cons, List.foldl_nil, ← findMaxCommitId]
    rcases List.mem_append.1 hc with hc | hc
    · exact (ih hc).trans ((le_max_left _ _).trans (le_max_left _ _))
    · rw [List.mem_singleton.1 hc]
      exact (le_max_right _ _).trans (le_max_left _ _)

theorem new_eq (h : Lineage CommitHistory.id CommitHistory.parent chain)
    (hp : unsorted.Perm chain) :
    AllCommitHistories.new unsorted = some ⟨chain, findMaxCommitId unsorted⟩ := by
  rw [AllCommitHistories.new, sort_eq h hp, Option.map_some]

/-- Of the commits of a chain in any order, the chain is stored, and the highest id is the
    highest one in use. -/
theorem new_eq_of_lineage (h : Lineage CommitHistory.id CommitHistory.parent chain)
    (hp : unsorted.Perm chain) :
    AllCommitHistories.new unsorted = some ⟨chain, (usedIds chain).max?.getD 0⟩ := by
  rw [new_eq h hp, findMaxCommitId_perm hp, findMaxCommitId_eq]

/-- The youngest commit is 2, its parent 3, and the parent of that one 1. -/
theorem new_eq_of_lineage_threeCommits :
    AllCommitHistories.new [⟨1, 4, [], none⟩, ⟨2, 3, [], none⟩, ⟨3, 1, [], none⟩] =
      some ⟨[⟨1, 4, [], none⟩, ⟨3, 1, [], none⟩, ⟨2, 3, [], none⟩], 4⟩ := by
  refine new_eq_of_lineage ⟨by decide, ?_, by decide⟩ (by decide)
  exact .cons_cons rfl (.cons_cons rfl (.singleton _))

/-! ## Following a chain -/

section

variable {h : AllCommitHistories}

theorem getCommit_eq (hl : Lineage CommitHistory.id CommitHistory.parent h.commits)
    (hc : commit ∈ h.commits) : h.getCommit commit.id = some commit :=
  foldl_eq_some hc rfl fun _ hd hid => hl.eq_of_id_eq hd hc hid

theorem getCommit_eq_none {id : CommitId} (hid : ∀ commit ∈ h.commits, commit.id ≠ id) :
    h.getCommit id = none :=
  foldl_eq_none hid

theorem getChild_eq (hl : Lineage CommitHistory.id CommitHistory.parent h.commits)
    (hc : h.commits = pre ++ commit :: post) : h.getChild commit.id = post.head? := by
  rw [hc] at hl
  rw [getChild, hc]
  exact hl.foldl_child (.refl _)

/-- Going on with the commit after `pre`, the loop looks at all commits that are left. -/
theorem noLaterChange_eq_all {n : Nat} {rolledBack : CommitHistory}
    (hl : Lineage CommitHistory.id CommitHistory.parent h.commits)
    (hc : h.commits = pre ++ post) (hn : post.length ≤ n) :
    TransactionManager.noLaterChange h rolledBack n post.head? =
      some (post.all fun later => !TransactionManager.shareKey rolledBack later) := by
  induction post generalizing pre n with
  -- There is no child to look at, whatever the fuel.
  | nil => cases n <;> rfl
  | cons later post ih =>
    obtain ⟨n, rfl⟩ : ∃ m, n = m + 1 := Nat.exists_eq_succ_of_ne_zero (by
      rw [List.length_cons] at hn
      omega)
    rw [List.head?_cons, TransactionManager.noLaterChange, List.all_cons]
    cases TransactionManager.shareKey rolledBack later with
    | true => rfl
    | false =>
      rw [getChild_eq hl hc]
      rw [← List.singleton_append, ← List.append_assoc] at hc
      exact ih hc (by simpa using hn)

end

end AllCommitHistories

/-- A commit can be rolled back if none of the commits after it has a key of it. -/
theorem TransactionManager.canRollback_eq {t : TransactionManager} {commit : CommitHistory}
    {pre post : List CommitHistory}
    (hl : ParentLinks.Lineage CommitHistory.id CommitHistory.parent t.commitHistory.commits)
    (hc : t.commitHistory.commits = pre ++ commit :: post) :
    t.canRollback commit = some (post.all fun later => !shareKey commit later) := by
  have hn : post.length ≤ t.commitHistory.getCommitCount := by
    rw [AllCommitHistories.getCommitCount, hc, List.length_append, List.length_cons]
    omega
  rw [canRollback, AllCommitHistories.getChild_eq hl hc]
  rw [← List.singleton_append, ← List.append_assoc] at hc
  exact AllCommitHistories.noLaterChange_eq_all hl hc hn

end SysAdmin
