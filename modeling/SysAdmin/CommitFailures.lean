import SysAdmin.Configurator

/-!
# Commits that cannot be logged

A commit is logged before it is applied. If the file of the commit cannot be opened,
the call throws halfway: the bucket is locked and the commit is in the memory of the
history, while the live store and the files are as before.

* `commit_threw_iff`: when a commit throws;
* `not_untouched_of_threw`: such a commit always leaves traces. It is in the
  history (`commits_of_threw`) and has locked the bucket (`bucket?_of_threw`), so that
  a second attempt is refused (`commit_commit`).
-/

namespace SysAdmin

namespace Configurator

variable {c : Configurator} {env env' : Environment} {id : ClientId}
  {configOpt configOpt' : CommitConfig}

/-- A failed commit has not happened: store and history are as before, in memory and
    in files, and the bucket is as before, so that it can be committed again. -/
structure Untouched (c c' : Configurator) (id : ClientId) : Prop where
  store : c'.store = c.store
  commits : c'.commits = c.commits
  highestCommitId : c'.commitHistory.commitHistory.getHighestCommitId =
    c.commitHistory.commitHistory.getHighestCommitId
  blame : ∀ key, c'.commitHistory.commitHistory.blame key = c.commitHistory.commitHistory.blame key
  stored : c'.commitHistory.storage = c.commitHistory.storage
  bucket : c'.inFlightItems.bucket? id = c.inFlightItems.bucket? id

theorem eq_logged_of_threw (h : (c.commit env id configOpt).2 = .threw) :
    c.Committable id ∧ (c.logged env id).2 = none ∧
      (c.commit env id configOpt).1 = (c.logged env id).1 := by
  obtain ⟨_, hcommit⟩ | ⟨hc, hl, hcommit⟩ | ⟨_, commitId, _, hcommit⟩ :=
    commit_cases c env id configOpt
  · rw [hcommit] at h
    cases h
  · exact ⟨hc, hl, by rw [hcommit]⟩
  · rw [hcommit] at h
    split at h <;> cases h

/-- A commit throws if it has changes to log and the file for them cannot be opened. -/
theorem commit_threw_iff : (c.commit env id configOpt).2 = .threw ↔
    c.Committable id ∧ c.pruneUnchangedValues id ≠ [] ∧
      (c.commitHistory.storage.serializer (c.newCommit env id)).isSome = true ∧
        env.historyOpens = false := by
  rw [← logged_eq_none_iff]
  refine ⟨fun h => ⟨(eq_logged_of_threw h).1, (eq_logged_of_threw h).2.1⟩, fun ⟨hc, hl⟩ => ?_⟩
  obtain ⟨hn, _⟩ | ⟨_, _, hcommit⟩ | ⟨_, commitId, hs, _⟩ := commit_cases c env id configOpt
  · exact absurd hc hn
  · rw [hcommit]
  · rw [hl] at hs
    cases hs

/-! ## What is left behind -/

theorem commitHistory_of_threw (h : (c.commit env id configOpt).2 = .threw) :
    (c.commit env id configOpt).1.commitHistory = { c.commitHistory with
      commitHistory := c.commitHistory.commitHistory.storeCommit (c.newCommit env id) } := by
  obtain ⟨_, hl, heq⟩ := eq_logged_of_threw h
  rw [heq]
  rw [logged, logChanged] at hl ⊢
  split
  · next hpos =>
    rw [if_pos hpos] at hl
    exact TransactionManager.logCommit_of_throw hl
  · next hpos =>
    rw [if_neg hpos] at hl
    cases hl

/-- The live store is as before. -/
theorem store_of_threw (h : (c.commit env id configOpt).2 = .threw) :
    (c.commit env id configOpt).1.store = c.store := by
  rw [(eq_logged_of_threw h).2.2, store_logged]

/-- The stored commits are as before. -/
theorem storage_of_threw (h : (c.commit env id configOpt).2 = .threw) :
    (c.commit env id configOpt).1.commitHistory.storage = c.commitHistory.storage := by
  rw [commitHistory_of_threw h]

/-- The commit is in the memory of the history. -/
theorem commits_of_threw (h : (c.commit env id configOpt).2 = .threw) :
    (c.commit env id configOpt).1.commits = c.commits ++ [c.newCommit env id] := by
  rw [commits, commitHistory_of_threw h]
  rfl

/-- The bucket has its items, and is locked. -/
theorem bucket?_of_threw (h : (c.commit env id configOpt).2 = .threw) :
    (c.commit env id configOpt).1.inFlightItems.bucket? id =
      some ⟨true, c.inFlightItems.staged id⟩ := by
  obtain ⟨hc, _, heq⟩ := eq_logged_of_threw h
  rw [heq, hc.bucket?_logged]

/-- A second attempt does nothing. -/
theorem commit_commit : (c.commit env id configOpt).1.commit env' id configOpt' =
    ((c.commit env id configOpt).1, .ready 0) := by
  have hc : ¬(c.commit env id configOpt).1.Committable id := not_committable_commit
  obtain ⟨_, hcommit⟩ | ⟨h, _⟩ | ⟨h, _⟩ :=
    commit_cases (c.commit env id configOpt).1 env' id configOpt'
  · exact hcommit
  · exact absurd h hc
  · exact absurd h hc

/-- No commit that throws leaves things as they were. -/
theorem not_untouched_of_threw (h : (c.commit env id configOpt).2 = .threw) :
    ¬c.Untouched (c.commit env id configOpt).1 id := by
  intro hu
  -- One more commit is retained than before.
  have hlen := congrArg List.length ((commits_of_threw h).symm.trans hu.commits)
  simp at hlen

/-- A client sets a pair; its commit cannot be logged. -/
def unloggedCommit : Configurator × CommitOutcome :=
  ((onEmpty "/s".toList .ofIds 100).set (.ofInt32 "net.mtu" 1) 1).1.commit ⟨0, false⟩ 1 .default

theorem not_untouched_unloggedCommit :
    ¬((onEmpty "/s".toList .ofIds 100).set (.ofInt32 "net.mtu" 1) 1).1.Untouched
      unloggedCommit.1 1 :=
  not_untouched_of_threw (by decide)

theorem not_forall_untouched : ¬∀ (c : Configurator) (env : Environment) (id : ClientId)
    (configOpt : CommitConfig), (c.commit env id configOpt).2 = .threw →
      c.Untouched (c.commit env id configOpt).1 id := by
  intro h
  have hu := h ((onEmpty "/s".toList .ofIds 100).set (.ofInt32 "net.mtu" 1) 1).1 ⟨0, false⟩ 1
    .default (by decide)
  exact absurd hu.bucket (by decide)

end Configurator

end SysAdmin
