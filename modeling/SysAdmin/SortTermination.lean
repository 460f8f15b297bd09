import SysAdmin.CommitChains
import SysAdmin.Foundation.Walks

/-!
# The end of sorting commits

`AllCommitHistories.sort` starts with the last commit that no commit has as its parent, and
goes on from each commit to its parent, the last commit with that id. Nothing keeps the
ids read from the commit files from forming a cycle behind the commit it starts with.

* `sortFrom_eq_walk`: the loop is a walk from child to parent;
* `exists_sortFrom_isSome_iff`: it ends exactly if none of the commits it comes to is an
  ancestor of itself;
* `exists_sortFrom_isSome_iff_isSome_sort`: then `sort` is given turns enough, as a walk among the
  commits given takes no more turns than there are commits.
-/

namespace SysAdmin.AllCommitHistories

open Relation Walks

/-- The parent of a commit. -/
def findParent (unsortedCommits : List CommitHistory) (commit : CommitHistory) :
    Option CommitHistory :=
  findCommit commit.parent unsortedCommits

/-- One commit is the other, or its parent, or the parent of its parent, and so on. -/
def IsAncestorOrSelf (unsortedCommits : List CommitHistory) (ancestor commit : CommitHistory) :
    Prop :=
  ReflTransGen (Link (findParent unsortedCommits)) commit ancestor

/-- One commit is the parent of the other, or the parent of its parent, and so on. -/
def IsAncestor (unsortedCommits : List CommitHistory) (ancestor commit : CommitHistory) : Prop :=
  TransGen (Link (findParent unsortedCommits)) commit ancestor

/-- The last commit without a child has an ancestor which is an ancestor of itself. -/
def HasCyclicAncestry (unsortedCommits : List CommitHistory) : Prop :=
  ∃ first ∈ findMostRecentCommit unsortedCommits, ∃ commit,
    IsAncestorOrSelf unsortedCommits commit first ∧ IsAncestor unsortedCommits commit commit

variable {unsorted sorted : List CommitHistory} {commit : CommitHistory}

theorem mem_of_findCommit {id : CommitId} (h : findCommit id unsorted = some commit) :
    commit ∈ unsorted ∧ commit.id = id :=
  ParentLinks.of_foldl_eq_some h

theorem mem_of_findMostRecentCommit (h : findMostRecentCommit unsorted = some commit) :
    commit ∈ unsorted ∧ (findChild commit.id unsorted).isNone :=
  ParentLinks.of_foldl_eq_some h

theorem mem_of_link_findParent {child : CommitHistory}
    (h : Link (findParent unsorted) child commit) : commit ∈ unsorted :=
  (mem_of_findCommit h).1

theorem mem_of_isAncestorOrSelf {first : CommitHistory}
    (hfirst : first ∈ findMostRecentCommit unsorted)
    (h : IsAncestorOrSelf unsorted commit first) : commit ∈ unsorted :=
  mem_of_link (fun _ h => (mem_of_findMostRecentCommit h).1) (fun _ _ => mem_of_link_findParent)
    hfirst h

/-- The loop takes the walk from child to parent, and puts each commit before the ones
    it has come from. -/
theorem sortFrom_eq_walk (n : Nat) (start : Option CommitHistory) :
    sortFrom unsorted n start sorted =
      (walk (findParent unsorted) n start).map fun visited => visited.reverse ++ sorted := by
  induction n generalizing start sorted with
  | zero => cases start <;> rfl
  | succ n ih =>
    cases start with
    | none => rfl
    | some commit =>
      rw [sortFrom, walk, ih, Option.map_map, findParent]
      congr 1
      funext visited
      simp

theorem isSome_sortFrom (n : Nat) (start : Option CommitHistory) :
    (sortFrom unsorted n start sorted).isSome = (walk (findParent unsorted) n start).isSome := by
  rw [sortFrom_eq_walk, Option.isSome_map]

theorem not_hasCyclicAncestry_iff : ¬HasCyclicAncestry unsorted ↔
    ∀ first ∈ findMostRecentCommit unsorted, ∀ commit,
      ReflTransGen (Link (findParent unsorted)) first commit →
        ¬TransGen (Link (findParent unsorted)) commit commit := by
  simp only [HasCyclicAncestry, IsAncestorOrSelf, IsAncestor]
  push Not
  rfl

/-- The loop comes to an end after no more turns than there are commits, or not at all. -/
theorem exists_sortFrom_isSome_iff_isSome_sort :
    (∃ n, (sortFrom unsorted n (findMostRecentCommit unsorted) []).isSome) ↔
      (sort unsorted).isSome := by
  simp only [sort, isSome_sortFrom]
  exact exists_walk_isSome_iff_length (fun _ h => (mem_of_findMostRecentCommit h).1)
    fun _ _ => mem_of_link_findParent

/-- Commit 3 has no child. Its parent is 2, and 2 and 1 are the parents of each other. -/
theorem sortFrom_two_cycle :
    ¬∀ unsorted : List CommitHistory,
      ∃ n, (sortFrom unsorted n (findMostRecentCommit unsorted) []).isSome := by
  intro h
  have hsort := exists_sortFrom_isSome_iff_isSome_sort.1
    (h [⟨1, 2, [], none⟩, ⟨2, 1, [], none⟩, ⟨3, 2, [], none⟩])
  revert hsort
  decide

/-- The loop comes to an end exactly if none of the ancestors of the last commit without a
    child is an ancestor of itself. -/
theorem exists_sortFrom_isSome_iff (unsorted : List CommitHistory) :
    (∃ n, (sortFrom unsorted n (findMostRecentCommit unsorted) []).isSome) ↔
      ¬HasCyclicAncestry unsorted := by
  simp only [isSome_sortFrom, not_hasCyclicAncestry_iff]
  exact exists_walk_isSome_iff (fun _ h => (mem_of_findMostRecentCommit h).1)
    fun _ _ => mem_of_link_findParent

/-- Sorting keeps the commits that are linked to the last commit without a child. -/
theorem mem_of_sort_eq_some (h : sort unsorted = some sorted) :
    commit ∈ sorted ↔ ∃ first ∈ findMostRecentCommit unsorted,
      IsAncestorOrSelf unsorted commit first := by
  rw [sort, sortFrom_eq_walk] at h
  obtain ⟨visited, hvisited, rfl⟩ := Option.map_eq_some_iff.1 h
  rw [List.append_nil, List.mem_reverse]
  cases hfirst : findMostRecentCommit unsorted with
  | none =>
    rw [hfirst] at hvisited
    have hnil : visited = [] := by
      cases hlength : unsorted.length <;> rw [hlength] at hvisited <;> cases hvisited <;> rfl
    simp [hnil]
  | some first =>
    rw [hfirst] at hvisited
    simp [mem_walk_iff hvisited, IsAncestorOrSelf]

end SysAdmin.AllCommitHistories
