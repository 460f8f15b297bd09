import SysAdmin.Configurator
import SysAdmin.Foundation.Machine

/-!
# Runs of the daemon

The daemon handles one call after another, in the order in which they arrive, and
between any two of them the hooks of an earlier commit may complete. Its state is
the configurator with the commits whose hooks are running (`PendingCommit`), each
under a ticket of its own.

* `Daemon.step` handles a call of a client or the completion of hooks (`Event`);
* `Daemon.rollback` handles a rollback. It does what the calls `rollbackEvents` do,
  one after the other (`rollback_eq_run`), so that what holds over all runs of
  events holds over runs with rollbacks, too.

For the buckets, setting and erasing are the same: they stage items
(`Event.staging`). A bucket that did not exist is opened by them (`Event.opened`),
which is what may age out another one.
-/

namespace SysAdmin

open Machine

/-- A commit whose hooks are running. -/
structure PendingCommit where
  ticket : Nat
  clientId : ClientId
  commitId : CommitId
  deriving DecidableEq

/-- The configurator, with the commits whose hooks are running. -/
structure Daemon where
  conf : Configurator
  pending : List PendingCommit
  nextTicket : Nat

/-- A call of a client, or the completion of hooks. -/
inductive Event
  | set (item : ConfigPair) (clientId : ClientId)
  | erase (key : ConfigKey) (clientId : ClientId)
  | drop (clientId : ClientId)
  | commit (env : Environment) (clientId : ClientId) (configOpt : CommitConfig)
  | complete (ticket : Nat) (result : HookResult)

/-- What an event stages for whom. -/
def Event.staging (c : Configurator) : Event → Option (ClientId × ConfigPairList)
  | set item clientId => some (clientId, c.setItems item clientId)
  | erase key clientId => some (clientId, c.eraseItems key)
  | drop _ | commit .. | complete .. => none

/-- The client whose bucket an event opens: it has none yet, and there is something
    to stage, a pair of the right type or the erasing of some key. -/
def Event.opened (c : Configurator) : Event → Option ClientId
  | set item clientId =>
    if c.inFlightItems.bucket? clientId = none ∧ c.systemStore.typeCheck item = true then
      some clientId
    else none
  | erase key clientId =>
    if c.inFlightItems.bucket? clientId = none ∧
        LockedConfigPairMap.erasedKeys c.getAllKeys key ≠ [] then
      some clientId
    else none
  | drop _ | commit .. | complete .. => none

namespace Daemon

/-- The daemon when it starts to handle calls. -/
def start (conf : Configurator) : Daemon := ⟨conf, [], 0⟩

/-- A daemon without data, with room for some buckets. -/
def onEmpty (maxTransactions : Nat) : Daemon := start (.onEmpty "/s".toList .ofIds maxTransactions)

/-- Waits for the hooks of a commit, if it has started any. -/
def await (s : Daemon) (clientId : ClientId) (c : Configurator) : CommitOutcome → Daemon
  | .hooks _ _ commitId =>
    ⟨c, s.pending ++ [⟨s.nextTicket, clientId, commitId⟩], s.nextTicket + 1⟩
  | .ready _ | .threw => { s with conf := c }

/-- The commit waiting under a ticket. -/
def waiting (s : Daemon) (ticket : Nat) : Option PendingCommit :=
  s.pending.find? fun p => p.ticket = ticket

/-- Handles an event. -/
def step (s : Daemon) : Event → Daemon
  | .set item clientId => { s with conf := (s.conf.set item clientId).1 }
  | .erase key clientId => { s with conf := s.conf.erase key clientId }
  | .drop clientId => { s with conf := s.conf.drop clientId }
  | .commit env clientId configOpt =>
    let (c, outcome) := s.conf.commit env clientId configOpt
    s.await clientId c outcome
  | .complete ticket result =>
    match s.waiting ticket with
    | none => s
    | some p =>
      { s with
        conf := (s.conf.completeHooks p.clientId p.commitId result).1
        pending := s.pending.erase p }

/-- Handles a rollback. -/
def rollback (s : Daemon) (env : Environment) (commitId : CommitId) : Daemon :=
  match s.conf.rollback env commitId with
  | (c, .commit outcome) => s.await TransactionManager.TRANSACTION_HISTORY_ID c outcome
  | (c, _) => { s with conf := c }

variable {s : Daemon} {e : Event} {id x : ClientId} {env : Environment} {items : ConfigPairList}

/-! ## What an event does -/

/-- Stages items. -/
def stage (s : Daemon) (clientId : ClientId) (items : ConfigPairList) : Daemon :=
  { s with conf := s.conf.stage clientId items }

theorem conf_stage : (s.stage id items).conf = s.conf.stage id items := rfl

theorem step_of_staging (h : e.staging s.conf = some (id, items)) :
    s.step e = s.stage id items := by
  cases e with
  | set item clientId =>
    cases h
    rw [step, Configurator.set_fst]
    rfl
  | erase key clientId =>
    cases h
    rfl
  | drop | commit | complete => cases h

/-- The bucket is opened by staging at least one item. -/
theorem opened_of_staging {c : Configurator} (h : e.staging c = some (id, items)) :
    e.opened c = if c.Opens id items then some id else none := by
  cases e with
  | set item clientId =>
    cases h
    -- A bucket that is not there is not locked, so the type alone decides.
    have hiff : c.Opens id (c.setItems item id) ↔
        c.inFlightItems.bucket? id = none ∧ c.systemStore.typeCheck item = true := by
      rw [Configurator.Opens, and_comm]
      refine and_congr_right fun hb => ?_
      have hl := LockedConfigPairMap.isBucketLocked_of_none hb
      rw [Configurator.setItems]
      split
      · next hacc => exact iff_of_true (by simp) (Configurator.accepted_set.1 hacc).1
      · next hacc =>
        exact iff_of_false (by simp) fun ht => hacc (Configurator.accepted_set.2 ⟨ht, hl⟩)
    simp only [Event.opened, hiff]
  | erase key clientId =>
    cases h
    simp only [Event.opened, Configurator.Opens, Configurator.eraseItems, ne_eq,
      List.map_eq_nil_iff]
    simp only [and_comm]
  | drop | commit | complete => cases h

/-- An event stages something, or is one of the other three. -/
theorem event_cases (c : Configurator) (e : Event) :
    (∃ id items, e.staging c = some (id, items)) ∨ (∃ id, e = .drop id) ∨
      (∃ env id configOpt, e = .commit env id configOpt) ∨ ∃ t result, e = .complete t result := by
  cases e with
  | set item clientId => exact .inl ⟨_, _, rfl⟩
  | erase key clientId => exact .inl ⟨_, _, rfl⟩
  | drop clientId => exact .inr (.inl ⟨_, rfl⟩)
  | commit env clientId configOpt => exact .inr (.inr (.inl ⟨_, _, _, rfl⟩))
  | complete t result => exact .inr (.inr (.inr ⟨_, _, rfl⟩))

theorem conf_commit {configOpt : CommitConfig} :
    (s.step (.commit env id configOpt)).conf = (s.conf.commit env id configOpt).1 := by
  rw [step]
  rcases s.conf.commit env id configOpt with ⟨c, _ | _ | _⟩ <;> rfl

/-- A commit waits for hooks exactly if it has applied its bucket and runs some. -/
theorem pending_commit (s : Daemon) (env : Environment) (id : ClientId) (configOpt : CommitConfig) :
    (s.step (.commit env id configOpt)).pending = s.pending ∧
        ¬(s.conf.Committable id ∧ (s.conf.logged env id).2 ≠ none ∧ configOpt ≠ .noHooks) ∨
      s.conf.Committable id ∧ (s.conf.logged env id).2 ≠ none ∧ configOpt ≠ .noHooks ∧
        ∃ commitId, (s.step (.commit env id configOpt)).pending =
          s.pending ++ [⟨s.nextTicket, id, commitId⟩] := by
  rw [step]
  obtain ⟨hc, h⟩ | ⟨hc, hl, h⟩ | ⟨hc, commitId, hl, h⟩ :=
    Configurator.commit_cases s.conf env id configOpt
  · simp only [h, await]
    exact .inl ⟨trivial, fun h => hc h.1⟩
  · simp only [h, await]
    exact .inl ⟨trivial, fun h => h.2.1 hl⟩
  · -- The bucket has been applied: hooks run unless the client wants none.
    by_cases ho : configOpt = .noHooks
    · simp only [h, if_pos ho, await]
      exact .inl ⟨trivial, fun h => h.2.2 ho⟩
    · simp only [h, if_neg ho, await]
      exact .inr ⟨hc, by simp [hl], ho, commitId, rfl⟩

/-! ## Completions -/

theorem mem_of_waiting {t : Nat} {p : PendingCommit} (h : s.waiting t = some p) : p ∈ s.pending :=
  List.mem_of_find?_eq_some h

theorem ticket_of_waiting {t : Nat} {p : PendingCommit} (h : s.waiting t = some p) :
    p.ticket = t := by simpa using List.find?_some h

theorem step_complete_of_none {t : Nat} {result : HookResult} (h : s.waiting t = none) :
    s.step (.complete t result) = s := by
  rw [step, h]

theorem pending_complete {t : Nat} {result : HookResult} {p : PendingCommit}
    (h : s.waiting t = some p) : (s.step (.complete t result)).pending = s.pending.erase p := by
  rw [step, h]

/-- With a value or an `ExternalRunnerError` the bucket goes; otherwise it stays. -/
theorem conf_complete {t : Nat} {result : HookResult} {p : PendingCommit}
    (h : s.waiting t = some p) : (s.step (.complete t result)).conf =
      if result = .otherException then s.conf else s.conf.drop p.clientId := by
  rw [step, h]
  cases result <;> rfl

/-- When hooks complete, a bucket goes at most. -/
theorem conf_complete_cases (s : Daemon) (t : Nat) (result : HookResult) :
    (s.step (.complete t result)).conf = s.conf ∨
      ∃ clientId, (s.step (.complete t result)).conf = s.conf.drop clientId := by
  rcases hw : s.waiting t with _ | p
  · rw [step_complete_of_none hw]
    exact .inl rfl
  · rw [conf_complete hw]
    split
    · exact .inl rfl
    · exact .inr ⟨p.clientId, rfl⟩

/-! ## Rollbacks as runs -/

/-- The call that restores the former pair of a key. -/
def restoreEvent (item : ConfigDelta) : Event :=
  if item.1.value.empty then .erase item.1.key TransactionManager.TRANSACTION_HISTORY_ID
  else .set item.1 TransactionManager.TRANSACTION_HISTORY_ID

/-- The calls a rollback makes. -/
def rollbackEvents (c : Configurator) (env : Environment) (commitId : CommitId) : List Event :=
  match c.commitHistory.commitHistory.getCommit commitId with
  | none => []
  | some commit =>
    if c.commitHistory.canRollback commit = some true then
      commit.items.map restoreEvent ++
        [.commit env TransactionManager.TRANSACTION_HISTORY_ID .default]
    else []

theorem step_restoreEvent {item : ConfigDelta} :
    s.step (restoreEvent item) = { s with conf := s.conf.restoreItem item } := by
  rw [restoreEvent, Configurator.restoreItem]
  split <;> rfl

theorem run_restoreEvent {ds : List ConfigDelta} : run step s (ds.map restoreEvent) =
    { s with conf := ds.foldl Configurator.restoreItem s.conf } := by
  induction ds generalizing s with
  | nil => rfl
  | cons d ds ih => rw [List.map_cons, run_cons, ih, step_restoreEvent, List.foldl_cons]

/-- A rollback does what its calls do. -/
theorem rollback_eq_run {commitId : CommitId} :
    s.rollback env commitId = run step s (rollbackEvents s.conf env commitId) := by
  rw [rollback, Configurator.rollback, rollbackEvents]
  rcases s.conf.commitHistory.commitHistory.getCommit commitId with _ | commit
  · rfl
  · dsimp only
    rcases s.conf.commitHistory.canRollback commit with _ | _ | _
    · rfl
    · rfl
    · rw [if_pos rfl, run_append, run_restoreEvent]
      rfl

end Daemon

end SysAdmin
