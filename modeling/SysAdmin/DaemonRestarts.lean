import SysAdmin.CacheAgreement
import SysAdmin.Foundation.Simulations
import SysAdmin.HistoryRestart
import SysAdmin.Requests

/-!
# The daemon and its restarts

A daemon that is started again has the files of the store and of the history, and nothing else: what
has been staged is gone, and so are the hooks that commits wait for. What has been committed should
stay, with the commits that have been logged.

Here the daemon handles requests, and may be started again between any two of them
(`Daemon.live`). A commit needs that its items can be found back in the files, as can the commit
itself (`Lasting`), and that the storage does not write once more what has changed since (`Fresh`).

* `Daemon.recovers_iff`: in all states, a restart brings back the store and the history, exactly if
  all commits are fresh;
* `Daemon.keeps_run`: then the store is what the commits of all lives of the daemon have written,
  one after the other, and the history has the last of them.
-/

namespace SysAdmin

open Machine Writes
open LocalYAMLStorage (Writable)

/-! ## What is to be kept -/

/-- A store that keeps what is written to it, with a log. -/
structure LoggedStore (κ ν γ : Type*) where
  values : κ → Option ν
  log : List γ

/-- Writes at several keys, which may be logged. -/
def LoggedStore.step {κ ν γ : Type*} [DecidableEq κ] (s : LoggedStore κ ν γ)
    (e : List (κ × Option ν) × Option γ) : LoggedStore κ ν γ :=
  ⟨overlay e.1 s.values, s.log ++ e.2.toList⟩

/-! ## Loading -/

/-- The storage on the files of another one, with nothing staged. -/
def LocalYAMLStorage.reopen (s : LocalYAMLStorage) : LocalYAMLStorage :=
  { s with inFlightItems := .new 100 }

namespace MemoryCache

variable {storage : LocalYAMLStorage} {c c' : MemoryCache} {root : Path}

/-- A cache is loaded if the storage can be read. -/
theorem exists_new {m : ConfigPairMap} (h : storage.getAll = some m) :
    ∃ c, new storage = some c ∧ c.backingStore = storage ∧ c.values = m ∧ c.Quiet := by
  rw [new]
  split
  · next hnone => cases hnone.symm.trans h
  · next m' hm =>
    obtain rfl : m' = m := Option.some.inj (hm.symm.trans h)
    exact ⟨_, rfl, rfl, rfl, fun _ => rfl⟩

theorem quiet_of_new (h : new storage = some c) : c.Quiet := by
  rcases hm : storage.getAll with _ | m
  · rw [new] at h
    split at h
    · cases h
    · next hsome => cases hm.symm.trans hsome
  · obtain ⟨c', hc', -, -, hquiet⟩ := exists_new hm
    rwa [← Option.some.inj (hc'.symm.trans h)]

/-- What has been loaded is settled again, and is read from the files. -/
theorem Settled.exists_new (h : c.Settled root) :
    ∃ c', new c.backingStore.reopen = some c' ∧ c'.Settled root ∧ c'.Agrees ∧
      c'.store = c.backingStore.diskStore := by
  have hwritten : LocalYAMLStorage.Written c.backingStore.root c.backingStore.files :=
    h.root_eq.symm ▸ h.written
  obtain ⟨m, hm, hvalues⟩ := LocalYAMLStorage.getAll_eq hwritten
  -- The files are the same, and they are all that is read.
  have hget : c.backingStore.reopen.getAll = some m := hm
  obtain ⟨c', hc', hstorage, hm', hquiet⟩ := MemoryCache.exists_new hget
  have hstore : c'.store = c.backingStore.diskStore := by rw [store, hm', hvalues]
  have hsettled : c'.Settled root := by
    refine ⟨?_, ?_, hquiet, fun id p hp => ?_⟩
    · rw [hstorage]
      exact h.root_eq
    · rw [hstorage]
      exact h.written
    · rw [hstorage] at hp
      cases hp
  refine ⟨c', hc', hsettled, (agrees_iff hsettled).2 ?_, hstore⟩
  rw [hstore, hstorage]
  rfl

end MemoryCache

/-- The configurator on the files of a storage and a history, unless loading them throws. -/
def Configurator.load (storage : LocalYAMLStorage) (history : LocalHistoryStorage)
    (maxTransactions : ℕ) : Option Configurator :=
  match h : MemoryCache.new storage with
  | none => none
  | some cache => (TransactionManager.new history 100).map fun commitHistory =>
    ⟨cache, commitHistory, .new maxTransactions, MemoryCache.quiet_of_new h⟩

/-- A configurator is loaded with no bucket open. -/
theorem Configurator.load_eq {storage : LocalYAMLStorage} {history : LocalHistoryStorage}
    {n : ℕ} {cache : MemoryCache} {t : TransactionManager}
    (h : MemoryCache.new storage = some cache) (ht : TransactionManager.new history 100 = some t) :
    ∃ quiet, load storage history n = some ⟨cache, t, .new n, quiet⟩ := by
  refine ⟨MemoryCache.quiet_of_new h, ?_⟩
  rw [load]
  split
  · next hnone => cases hnone.symm.trans h
  · next cache' hcache =>
    obtain rfl : cache' = cache := Option.some.inj (hcache.symm.trans h)
    rw [ht]
    rfl

/-! ## Commits that last -/

namespace CommitCall

variable (root : Path) (call : CommitCall)

/-- What a commit applies can be found back in the files, and the commit is read back, if there is
    one to log. -/
structure Lasting : Prop where
  writable : ∀ p ∈ call.conf.toApply call.clientId, Writable root p
  readsBack : call.conf.pruneUnchangedValues call.clientId ≠ [] →
    call.conf.commitHistory.storage.ReadsBack call.env (call.conf.newCommit call.env call.clientId)

instance : Decidable (call.Lasting root) :=
  decidable_of_iff ((∀ p ∈ call.conf.toApply call.clientId, Writable root p) ∧
    (call.conf.pruneUnchangedValues call.clientId ≠ [] → call.env.historyOpens = true ∧
      (call.conf.commitHistory.storage.serializer (call.conf.newCommit call.env call.clientId)).bind
        call.conf.commitHistory.storage.deserializer =
          some (call.conf.newCommit call.env call.clientId)))
    ⟨fun h => ⟨h.1, fun hne => (h.2 hne).imp_right Option.bind_eq_some_iff.1⟩,
      fun h => ⟨h.1, fun hne => (h.2 hne).imp_right Option.bind_eq_some_iff.2⟩⟩

/-- What the storage kept from the last commits of the client is rewritten by this one, or is
    still in the store. -/
def Fresh : Prop :=
  ∀ k v, lastWrite k (call.conf.toApply call.clientId).writes = none →
    lastWrite k (ConfigPairList.writes
      (call.conf.systemStore.backingStore.inFlightItems.staged call.clientId)) = some v →
    call.conf.store k = v

/-- A commit with nothing left over in the storage writes its own items only. -/
theorem fresh_of_nil {call : CommitCall}
    (h : call.conf.systemStore.backingStore.inFlightItems.staged call.clientId = []) :
    call.Fresh := by
  intro k v _ hv
  rw [h] at hv
  cases hv

/-- The commit that is logged. -/
def logs : Option CommitHistory :=
  if call.conf.pruneUnchangedValues call.clientId = [] then none
  else some (call.conf.newCommit call.env call.clientId)

/-- What a commit does that applies its bucket, and can log it. -/
structure Applied (c : Configurator) : Prop where
  systemStore_eq : c.systemStore =
    call.conf.systemStore.setAndCommit call.clientId (call.conf.toApply call.clientId)
  commitHistory_eq : c.commitHistory = if call.conf.pruneUnchangedValues call.clientId = [] then
    call.conf.commitHistory
  else (call.conf.commitHistory.logCommit call.conf.get call.env
    (call.conf.pruneUnchangedValues call.clientId)).1

variable {root call}

theorem Lasting.logged_ne_none (h : call.Lasting root) :
    (call.conf.logged call.env call.clientId).2 ≠ none := by
  intro hnone
  obtain ⟨hchanges, -, hopens⟩ := Configurator.logged_eq_none_iff.1 hnone
  rw [(h.readsBack hchanges).1] at hopens
  cases hopens

/-- A commit that can be read back is applied as a whole. -/
theorem Lasting.applied (h : call.Lasting root) (hc : call.conf.Committable call.clientId) :
    call.Applied call.after := by
  have hstore : (call.conf.applied call.env call.clientId).systemStore =
      call.conf.systemStore.setAndCommit call.clientId (call.conf.toApply call.clientId) :=
    hc.systemStore_applied
  have hhistory : (call.conf.applied call.env call.clientId).commitHistory =
      if call.conf.pruneUnchangedValues call.clientId = [] then call.conf.commitHistory
      else (call.conf.commitHistory.logCommit call.conf.get call.env
        (call.conf.pruneUnchangedValues call.clientId)).1 := by
    rw [Configurator.commitHistory_applied]
    split
    · next hnil => rw [Configurator.logged_of_no_changes hnil]
    · next hne => exact (Configurator.logged_of_changes call.env hne).2
  obtain ⟨hnot, -⟩ | ⟨-, hnone, -⟩ | ⟨-, commitId, -, hcommit⟩ :=
    Configurator.commit_cases call.conf call.env call.clientId call.configOpt
  · exact absurd hc hnot
  · exact absurd hnone h.logged_ne_none
  · rw [after, hcommit]
    generalize call.conf.applied call.env call.clientId = c at hstore hhistory
    split
    · exact ⟨hstore, hhistory⟩
    · exact ⟨hstore, hhistory⟩

/-- What a commit keeps, if it applies its bucket. -/
def entries (call : CommitCall) :
    List (List (ConfigKey × Option ConfigValue) × Option CommitHistory) :=
  if call.conf.Committable call.clientId ∧ (call.conf.logged call.env call.clientId).2 ≠ none then
    [((call.conf.toApply call.clientId).writes, call.logs)]
  else []

end CommitCall

/-! ## Lives of the daemon -/

/-- A request, or the completion of hooks, or a new start of the daemon. -/
inductive LifeEvent
  | handle (e : RequestEvent)
  | restart

namespace Daemon

/-- The daemon that is started on the files of this one, unless loading them throws. -/
def restart (maxTransactions : ℕ) (s : Daemon) : Option Daemon :=
  (Configurator.load s.conf.systemStore.backingStore.reopen s.conf.commitHistory.storage
    maxTransactions).map .start

/-- Handles an event. -/
def live (maxTransactions : ℕ) (s : Daemon) : LifeEvent → Option Daemon
  | .handle e => some (s.serve e)
  | .restart => s.restart maxTransactions

/-- What an event is to keep. -/
def entries (s : Daemon) :
    LifeEvent → List (List (ConfigKey × Option ConfigValue) × Option CommitHistory)
  | .handle e =>
    match s.commitCall e with
    | none => []
    | some call => call.entries
  | .restart => []

/-- If an event makes a commit that finds its bucket, `P` holds of the call. -/
def Commits (P : CommitCall → Prop) (s : Daemon) : LifeEvent → Prop
  | .handle e =>
    ∀ call, s.commitCall e = some call → call.conf.Committable call.clientId → P call
  | .restart => True

instance {P : CommitCall → Prop} [DecidablePred P] (s : Daemon) :
    ∀ e, Decidable (s.Commits P e)
  | .handle e =>
    match h : s.commitCall e with
    | none => .isTrue fun _ hcall => by cases h.symm.trans hcall
    | some call => decidable_of_iff (call.conf.Committable call.clientId → P call)
        ⟨fun hp _ hcall => Option.some.inj (h.symm.trans hcall) ▸ hp, fun hp => hp call h⟩
  | .restart => .isTrue trivial

/-- A restart brings back the store and the history. -/
def Recovers (maxTransactions : ℕ) (s : Daemon) : Prop :=
  ∃ s', s.restart maxTransactions = some s' ∧ s'.conf.store = s.conf.store ∧
    s'.conf.commitHistory = s.conf.commitHistory

/-- What holds of a daemon whose commits last, and of what they keep. -/
structure Durable (root : Path) (s : Daemon)
    (t : LoggedStore ConfigKey ConfigValue CommitHistory) : Prop where
  settled : s.conf.systemStore.Settled root
  store_eq : s.conf.store = t.values
  sound : TransactionManager.Sound 100 s.conf.commitHistory t.log

variable {root : Path} {history : LocalHistoryStorage} {n : ℕ} {s s' : Daemon} {e : RequestEvent}
  {t : LoggedStore ConfigKey ConfigValue CommitHistory}

/-- The daemon that is started has the history, and what is in the files of the store. -/
theorem Durable.exists_start (h : s.Durable root t) :
    ∃ s', s.restart n = some s' ∧ s'.conf.systemStore.Settled root ∧ s'.conf.systemStore.Agrees ∧
      s'.conf.store = s.conf.systemStore.backingStore.diskStore ∧
        s'.conf.commitHistory = s.conf.commitHistory := by
  obtain ⟨c', hc', hsettled, hagrees, hstore⟩ := h.settled.exists_new
  obtain ⟨quiet, hload⟩ := Configurator.load_eq (n := n) hc' (h.sound.new_eq (by decide))
  refine ⟨.start ⟨c', s.conf.commitHistory, .new n, quiet⟩, ?_, hsettled, hagrees, hstore, rfl⟩
  rw [restart, hload]
  rfl

/-- A restart brings back the store where the storage agrees with the cache. -/
theorem Durable.recovers_iff_agrees (h : s.Durable root t) :
    s.Recovers n ↔ s.conf.systemStore.Agrees := by
  obtain ⟨s', hrestart, -, -, hstore, hhistory⟩ := h.exists_start (n := n)
  rw [MemoryCache.agrees_iff h.settled, ← hstore]
  constructor
  · rintro ⟨s₁, hs₁, heq, -⟩
    obtain rfl : s' = s₁ := Option.some.inj (hrestart.symm.trans hs₁)
    exact heq
  · exact fun heq => ⟨s', hrestart, heq, hhistory⟩

/-- Then it can be started again, and agrees. -/
theorem Durable.exists_restart (h : s.Durable root t) (hagrees : s.conf.systemStore.Agrees) :
    ∃ s', s.restart n = some s' ∧ s'.Durable root t ∧ s'.conf.systemStore.Agrees := by
  obtain ⟨s', hrestart, hsettled, hagrees', hstore, hhistory⟩ := h.exists_start (n := n)
  have hsame := (MemoryCache.agrees_iff h.settled).1 hagrees
  refine ⟨s', hrestart, ⟨hsettled, ?_, hhistory ▸ h.sound⟩, hagrees'⟩
  exact hstore.trans (hsame.trans h.store_eq)

/-- A request makes a commit that finds its bucket, or changes neither the store nor the history. -/
theorem serve_cases (s : Daemon) (e : RequestEvent) :
    ((∀ P, s.Commits P (.handle e)) ∧ s.entries (.handle e) = [] ∧
        (s.serve e).conf.systemStore = s.conf.systemStore ∧
          (s.serve e).conf.commitHistory = s.conf.commitHistory) ∨
      ∃ call, s.commitCall e = some call ∧ call.conf.Committable call.clientId ∧
        call.conf.systemStore = s.conf.systemStore ∧
          call.conf.commitHistory = s.conf.commitHistory ∧ (s.serve e).conf = call.after := by
  rcases hcall : s.commitCall e with _ | call
  · obtain ⟨m, hm⟩ := conf_serve_of_none hcall
    refine .inl ⟨fun P call h => ?_, ?_, by rw [hm], by rw [hm]⟩
    · rw [hcall] at h
      cases h
    · rw [entries, hcall]
  · obtain ⟨m, hm⟩ := conf_commitCall hcall
    have hconf := conf_serve_of_commitCall hcall
    by_cases hc : call.conf.Committable call.clientId
    · exact .inr ⟨call, rfl, hc, by rw [hm], by rw [hm], hconf⟩
    · -- Without an open bucket, the commit is refused.
      obtain ⟨-, hcommit⟩ | ⟨h, -⟩ | ⟨h, -⟩ :=
        Configurator.commit_cases call.conf call.env call.clientId call.configOpt
      · refine .inl ⟨fun P call' h h' => ?_, ?_, ?_, ?_⟩
        · rw [hcall, Option.some.injEq] at h
          exact absurd (h ▸ h') hc
        · rw [entries, hcall]
          exact if_neg fun h => hc h.1
        · rw [hconf, CommitCall.after, hcommit, hm]
        · rw [hconf, CommitCall.after, hcommit, hm]
      · exact absurd h hc
      · exact absurd h hc

/-- What a commit applies, as it reaches the cache. -/
def cacheCommit {call : CommitCall} (h : call.Lasting root)
    (hc : call.conf.Committable call.clientId) : CacheCommit root where
  id := call.clientId
  items := call.conf.toApply call.clientId
  nonempty := List.append_ne_nil_of_left_ne_nil hc.staged_ne_nil _
  writable := h.writable

theorem Durable.serve (h : s.Durable root t)
    (hw : s.Commits (CommitCall.Lasting root) (.handle e)) :
    (s.serve e).Durable root (run LoggedStore.step t (s.entries (.handle e))) := by
  obtain ⟨-, hentries, hstore, hhistory⟩ | ⟨call, hcall, hc, hstore, hhistory, hconf⟩ :=
    s.serve_cases e
  · rw [hentries]
    refine ⟨hstore ▸ h.settled, ?_, hhistory ▸ h.sound⟩
    rw [Configurator.store, hstore]
    exact h.store_eq
  · -- The commit applies its bucket, which is one entry.
    have hlasting := hw call hcall hc
    have happlied := hlasting.applied hc
    have hentries : s.entries (.handle e) =
        [((call.conf.toApply call.clientId).writes, call.logs)] := by
      rw [entries, hcall]
      exact if_pos ⟨hc, hlasting.logged_ne_none⟩
    rw [hentries]
    refine ⟨?_, ?_, ?_⟩
    · rw [hconf, happlied.systemStore_eq, hstore]
      exact h.settled.step (e := cacheCommit hlasting hc)
    · rw [Configurator.store, hconf, happlied.systemStore_eq, hstore,
        MemoryCache.store_setAndCommit h.settled.quiet]
      exact congrArg (overlay _) h.store_eq
    · rw [hconf, happlied.commitHistory_eq]
      change TransactionManager.Sound 100 _ (t.log ++ call.logs.toList)
      rw [CommitCall.logs]
      split
      · rw [hhistory, Option.toList_none, List.append_nil]
        exact h.sound
      · next hchanges =>
        -- What is read back is the commit that is logged.
        have hreads := hlasting.readsBack hchanges
        rw [Configurator.newCommit, hhistory] at hreads
        rw [Configurator.newCommit, hhistory]
        exact h.sound.logCommit (by decide) hreads

/-- They stay in agreement if and only if nothing stale is written. -/
theorem Durable.agrees_serve_iff (h : s.Durable root t)
    (hw : s.Commits (CommitCall.Lasting root) (.handle e)) (hagrees : s.conf.systemStore.Agrees) :
    (s.serve e).conf.systemStore.Agrees ↔ s.Commits CommitCall.Fresh (.handle e) := by
  obtain ⟨hall, -, hstore, -⟩ | ⟨call, hcall, hc, hstore, -, hconf⟩ := s.serve_cases e
  · rw [hstore]
    exact iff_of_true hagrees (hall _)
  · have hlasting := hw call hcall hc
    rw [hconf, (hlasting.applied hc).systemStore_eq, hstore]
    refine (MemoryCache.agrees_step_iff h.settled hagrees (e := cacheCommit hlasting hc)).trans ?_
    have hfresh : s.conf.systemStore.NoStale (cacheCommit hlasting hc) ↔ call.Fresh := by
      rw [CommitCall.Fresh, Configurator.store, hstore]
      rfl
    rw [hfresh]
    refine ⟨fun h call' hcall' _ => ?_, fun h => h call hcall hc⟩
    rwa [← Option.some.inj (hcall.symm.trans hcall')]

variable (root history n) in
/-- A daemon that is started for the first time. -/
def firstStart : Daemon := start (.onEmpty root history n)

theorem durable_firstStart (hempty : history.files = ∅) :
    (firstStart root history n).Durable root ⟨fun _ => none, []⟩ where
  settled := MemoryCache.settled_onEmpty
  store_eq := rfl
  sound := TransactionManager.sound_start hempty (TransactionManager.new_of_empty hempty)

/-- As long as the commits last, a restart brings back the store and the history in all states,
    exactly if no commit writes something once more that has changed since. -/
theorem recovers_iff (hempty : history.files = ∅) {es : List LifeEvent}
    (hlasting : GuardedPartial (live n) (Commits (CommitCall.Lasting root))
      (firstStart root history n) es) :
    AlwaysPartial (live n) (Recovers n) (firstStart root history n) es ↔
      GuardedPartial (live n) (Commits CommitCall.Fresh) (firstStart root history n) es := by
  have hstart : (firstStart root history n).Durable root ⟨fun _ => none, []⟩ :=
    durable_firstStart hempty
  refine alwaysPartial_iff_guardedPartial (J := fun s => ∃ t, s.Durable root t) hlasting
    ⟨_, hstart⟩ (hstart.recovers_iff_agrees.2 MemoryCache.agrees_onEmpty)
    fun s e hdurable hw hrecovers => ?_
  obtain ⟨t, h⟩ := hdurable
  have hagrees := h.recovers_iff_agrees.1 hrecovers
  cases e with
  | handle e =>
    have h' := h.serve hw
    refine ⟨_, rfl, ⟨_, h'⟩, ?_⟩
    -- A restart from the next state recovers if files and store agree there.
    rw [h'.recovers_iff_agrees, h.agrees_serve_iff hw hagrees]
  | restart =>
    obtain ⟨s', hs', h', hagrees'⟩ := h.exists_restart (n := n) hagrees
    exact ⟨s', hs', ⟨_, h'⟩, iff_of_true (h'.recovers_iff_agrees.2 hagrees') trivial⟩

/-- The commits of two lives to one key. -/
def twoCommits : List CommitHistory :=
  [⟨1, 0, [(.ofKey (.ofString "net.mtu"), .ofInt32 "net.mtu" 1)], some 0⟩,
    ⟨2, 1, [(.ofInt32 "net.mtu" 1, .ofInt32 "net.mtu" 2)], some 0⟩]

/-- A directory for these commits. -/
def directory : LocalHistoryStorage := .ofCommits twoCommits

/-- Commits a key, is started again, and commits it again. -/
def twoLives : List LifeEvent :=
  [.handle (setCommand "net.mtu" 1), .handle commitCommand, .restart,
    .handle (setCommand "net.mtu" 2), .handle commitCommand]

theorem lasting_twoLives : GuardedPartial (live 3) (Commits (CommitCall.Lasting "/s".toList))
    (firstStart "/s".toList directory 3) twoLives := by
  decide +kernel

/-- In each life, the storage has kept nothing yet when the commit comes. -/
theorem fresh_twoLives : GuardedPartial (live 3) (Commits CommitCall.Fresh)
    (firstStart "/s".toList directory 3) twoLives := by
  have hnil : GuardedPartial (live 3) (Commits fun call =>
      call.conf.systemStore.backingStore.inFlightItems.staged call.clientId = [])
      (firstStart "/s".toList directory 3) twoLives := by
    decide +kernel
  refine hnil.mono fun s e h => ?_
  cases e with
  | handle e => exact fun call hcall hc => CommitCall.fresh_of_nil (h call hcall hc)
  | restart => trivial

theorem recovers_iff_twoLives :
    AlwaysPartial (live 3) (Recovers 3) (firstStart "/s".toList directory 3) twoLives :=
  (recovers_iff rfl lasting_twoLives).2 fresh_twoLives

/-- If all commits last and are fresh, a restart never fails, the store is what the commits of all
    lives of the daemon have written, one after the other, and the history has the last hundred of
    those that have been logged. Each of these has the one before it as its parent, and a higher
    id. -/
theorem keeps_run (hempty : history.files = ∅) {es : List LifeEvent}
    (hlasting : GuardedPartial (live n) (Commits (CommitCall.Lasting root))
      (firstStart root history n) es)
    (hfresh : GuardedPartial (live n) (Commits CommitCall.Fresh) (firstStart root history n) es) :
    let t := run LoggedStore.step ⟨fun _ => none, []⟩
      (Machine.trace (live n) entries (firstStart root history n) es)
    ∃ s, runPartial (live n) (firstStart root history n) es = some s ∧ s.Recovers n ∧
      s.conf.store = t.values ∧ AllCommitHistories.Linked 0 t.log ∧
        s.conf.commits = t.log.drop (t.log.length - 100) := by
  have hstep : ∀ (s : Daemon) t e, s.Durable root t ∧ s.conf.systemStore.Agrees →
      s.Commits (CommitCall.Lasting root) e ∧ s.Commits CommitCall.Fresh e →
        ∃ s', s.live n e = some s' ∧ s'.Durable root (run LoggedStore.step t (s.entries e)) ∧
          s'.conf.systemStore.Agrees := by
    rintro s t e ⟨h, hagrees⟩ hg
    cases e with
    | handle e => exact ⟨_, rfl, h.serve hg.1, (h.agrees_serve_iff hg.1 hagrees).2 hg.2⟩
    | restart =>
      exact h.exists_restart hagrees
  have hstart : (firstStart root history n).Durable root ⟨fun _ => none, []⟩ :=
    durable_firstStart hempty
  obtain ⟨s, hs, h, hagrees⟩ := exists_run_of_guarded hstep ⟨hstart, MemoryCache.agrees_onEmpty⟩
    (hlasting.and hfresh)
  exact ⟨s, hs, h.recovers_iff_agrees.2 hagrees, h.store_eq, h.sound.linked, h.sound.retained⟩

theorem keeps_run_twoLives :
    let t := run LoggedStore.step ⟨fun _ => none, []⟩
      (Machine.trace (live 3) entries (firstStart "/s".toList directory 3) twoLives)
    ∃ s, runPartial (live 3) (firstStart "/s".toList directory 3) twoLives = some s ∧
      s.Recovers 3 ∧ s.conf.store = t.values ∧ AllCommitHistories.Linked 0 t.log ∧
        s.conf.commits = t.log.drop (t.log.length - 100) :=
  keeps_run rfl lasting_twoLives fresh_twoLives

end Daemon

end SysAdmin
