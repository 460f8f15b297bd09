import SysAdmin.ClientCalls
import SysAdmin.Foundation.DeltaLog

/-!
# The audit trail

The retained commits should tell how the store came about: replaying their deltas on
the store before the oldest one gives the current store, and each delta starts from
the value its key had before the commit (`Audit.Replays`). To say so, an `Audit`
remembers the store before each commit that was logged.

A commit is `Audit.Sound` unless

* it erases a key which holds the int32 `0`: this is not taken for a change, since
  Empty holds the int32 `0`, too;
* it throws, with its deltas in the history and not in the store.

In a run without such commits, the history replays in all states
(`Audit.always_replays`).
-/

namespace SysAdmin

open Machine Writes DeltaLog Configurator

/-- The writes a commit was logged with. -/
def CommitHistory.writes (commit : CommitHistory) : List (ConfigKey × Option ConfigValue) :=
  commit.items.map fun d => d.2.toWrite

/-- A logged commit, with the store before it. -/
structure LoggedCommit where
  before : ConfigKey → Option ConfigValue
  commit : CommitHistory

/-- A logged commit as a change to the store. -/
def LoggedCommit.toDelta (e : LoggedCommit) : Delta ConfigKey ConfigValue :=
  ⟨e.before, e.commit.writes⟩

/-- Each delta starts from the value of its key before the commit, or from Empty. -/
def LoggedCommit.Faithful (e : LoggedCommit) : Prop :=
  ∀ d ∈ e.commit.items, d.1 = ⟨d.2.key, (e.before d.2.key).getD .none⟩

/-- The keys outside `last.*`. -/
def outsideLast : Set ConfigKey := {k | k.inLast = false}

/-! ## One commit -/

namespace Configurator

variable {c : Configurator} {id : ClientId} {env : Environment} {k : ConfigKey}

/-- The commit erases no key that holds the int32 `0`. -/
def ErasesNoZero (c : Configurator) (clientId : ClientId) : Prop :=
  ∀ p, lastItem p.key (c.inFlightItems.staged clientId) = some p → p.key.inLast = false →
    p.value.empty = true → c.store p.key ≠ some (.ofType (.int32 0))

theorem erasesNoZero_of_forall_mem (h : ∀ p ∈ c.inFlightItems.staged id, p.value.empty = true →
    c.store p.key ≠ some (.ofType (.int32 0))) : c.ErasesNoZero id :=
  fun p hp _ => h p (mem_of_lastItem hp).1

theorem WellKeyed.writes_newCommit (h : c.WellKeyed) :
    (c.newCommit env id).writes = (c.pruneUnchangedValues id).writes := by
  rw [CommitHistory.writes, h.items_newCommit, List.map_map]
  rfl

/-- The first component of a delta is what the store has then. -/
theorem WellKeyed.faithful_newCommit (h : c.WellKeyed) :
    LoggedCommit.Faithful ⟨c.store, c.newCommit env id⟩ := by
  intro d hd
  rw [h.items_newCommit] at hd
  obtain ⟨p, _, rfl⟩ := List.mem_map.1 hd
  rfl

/-- Only the last items of the keys are logged. -/
theorem lastWrite_prune_of_not_staged (hk : ∀ p, lastItem k (c.inFlightItems.staged id) = some p →
    c.isChange p = false) : lastWrite k (c.pruneUnchangedValues id).writes = none := by
  refine lastWrite_eq_none_iff.2 fun w hw hwk => ?_
  obtain ⟨p, hp, rfl⟩ := List.mem_map.1 hw
  obtain ⟨hlast, _, hchange⟩ := mem_pruneUnchangedValues.1 hp
  have hpk : p.key = k := hwk
  rw [hk p (hpk ▸ hlast)] at hchange
  cases hchange

theorem lastWrite_prune_of_change {p : ConfigPair} (hk : k.inLast = false)
    (hp : lastItem k (c.inFlightItems.staged id) = some p) (hchange : c.isChange p = true) :
    lastWrite k (c.pruneUnchangedValues id).writes = some p.value.toOption := by
  obtain rfl := (mem_of_lastItem hp).2
  refine lastWrite_of_mem ?_ (List.mem_map.2 ⟨p, mem_pruneUnchangedValues.2 ⟨hp, hk, hchange⟩, rfl⟩)
  rw [ConfigPairList.writes, List.map_map]
  exact nodup_pruneUnchangedValues

/-- What is not taken for a change is none, unless an int32 `0` is erased. -/
theorem WellKeyed.toOption_of_not_change {p : ConfigPair} (h : c.WellKeyed) (hk : p.key.Plain)
    (hzero : p.value.empty = true → c.store p.key ≠ some (.ofType (.int32 0)))
    (hchange : c.isChange p = false) : p.value.toOption = c.store p.key := by
  -- A key that is not read back from its text always counts as a change.
  have hempty : c.store (.ofString "") = none := by
    rcases hv : c.store (.ofString "") with _ | v
    · rfl
    · exact absurd (h.stored _ v hv).nonempty (by decide)
  have hread : p.key.Readable := by
    by_contra hread
    rw [isChange_of_not_readable hread hempty] at hchange
    cases hchange
  have hn := mt (isChange_iff (c := c) hk.not_wildcard hread).2 (by simp [hchange])
  push Not at hn
  obtain ⟨v, hv, heq⟩ := hn
  have hne := MemoryCache.not_empty_of_store hv
  rcases (ConfigValue.eqOp_iff_of_not_empty hne).1 (by simpa using heq) with rfl | ⟨hempty, rfl⟩
  · rw [ConfigValue.toOption_of_not_empty hne, hv]
  · exact absurd hv (hzero hempty)

/-- Outside `last.*`, what a commit logs is what it does to the store. -/
theorem WellKeyed.overlay_prune_eqOn (h : c.WellKeyed) (hzero : c.ErasesNoZero id) :
    Set.EqOn (Writes.overlay (c.pruneUnchangedValues id).writes c.store)
      (Writes.overlay (c.toApply id).writes c.store) outsideLast := by
  intro k hk
  have hk : k.inLast = false := hk
  have happly : lastWrite k (c.toApply id).writes = _ := lastWrite_writes
  rw [overlay_apply, overlay_apply, happly,
    lastItem_toApply (fun p hp => (h.plain_staged p hp).nonempty) hk]
  rcases hp : lastItem k (c.inFlightItems.staged id) with _ | p
  · rw [lastWrite_prune_of_not_staged (by simp [hp])]
    rfl
  · obtain ⟨hmem, rfl⟩ := mem_of_lastItem hp
    rcases hchange : c.isChange p with _ | _
    · rw [lastWrite_prune_of_not_staged (by simp [hp, hchange])]
      exact (h.toOption_of_not_change (h.staged id p hmem) (hzero p hp hk) hchange).symm
    · rw [lastWrite_prune_of_change hk hp hchange]
      rfl

end Configurator

/-! ## Runs -/

/-- The daemon, with the commits that have been logged, from oldest to youngest. -/
structure Audit where
  daemon : Daemon
  log : List LoggedCommit

namespace Audit

/-- The log after an event: a commit adds the changes it logs. -/
def logAfter (a : Audit) : Event → List LoggedCommit
  | .commit env id _ =>
    if a.daemon.conf.Committable id ∧ a.daemon.conf.pruneUnchangedValues id ≠ [] ∧
        (a.daemon.conf.logged env id).2 ≠ none then
      a.log ++ [⟨a.daemon.conf.store, a.daemon.conf.newCommit env id⟩]
    else a.log
  | .set .. | .erase .. | .drop _ | .complete .. => a.log

/-- Handles an event. -/
def step (a : Audit) (e : Event) : Audit := ⟨a.daemon.step e, a.logAfter e⟩

/-- Handles a command, event by event. -/
def handle (a : Audit) (c : Command) : Audit := run step a (c.events a.daemon.conf)

/-- Nothing has been logged yet. -/
def start (conf : Configurator) : Audit := ⟨.start conf, []⟩

/-- The logged commits that are retained: the youngest ones. -/
def retained (a : Audit) : List LoggedCommit :=
  a.log.drop (a.log.length - a.daemon.conf.commits.length)

/-- The store before the oldest retained commit. -/
def origin (a : Audit) : ConfigKey → Option ConfigValue :=
  DeltaLog.origin (a.retained.map LoggedCommit.toDelta) a.daemon.conf.store

/-- The history tells how the store came about, outside `last.*`. -/
structure Replays (a : Audit) : Prop where
  commits_eq : a.daemon.conf.commits = a.retained.map LoggedCommit.commit
  replay : ∀ k, k.inLast = false →
    overlay (a.daemon.conf.commits.flatMap CommitHistory.writes) a.origin k = a.daemon.conf.store k
  former : ∀ e ∈ a.retained, e.Faithful

/-- A commit that can be logged, if it has changes, and erases no int32 `0`. -/
def SoundEvent (a : Audit) : Event → Prop
  | .commit env id _ => a.daemon.conf.Committable id →
      a.daemon.conf.ErasesNoZero id ∧ a.daemon.conf.CanLog env id
  | .set .. | .erase .. | .drop _ | .complete .. => True

/-- All commits of a command are sound. -/
def SoundCommand (a : Audit) (c : Command) : Prop :=
  Guarded step SoundEvent a (c.events a.daemon.conf)

/-- The log is chained up to the store, and the retained commits are its youngest ones. -/
structure Sound (a : Audit) : Prop where
  wellKeyed : a.daemon.conf.WellKeyed
  suffix : a.daemon.conf.commits <:+ a.log.map LoggedCommit.commit
  chained : Chained outsideLast (a.log.map LoggedCommit.toDelta) a.daemon.conf.store
  faithful : ∀ e ∈ a.log, e.Faithful

variable {a : Audit} {e : Event} {c : Command} {id : ClientId} {env : Environment}
  {configOpt : CommitConfig}

/-- In a sound state, the log is replayed to the store. -/
theorem Sound.replays (h : a.Sound) : a.Replays := by
  have hcommits : a.daemon.conf.commits = a.retained.map LoggedCommit.commit := by
    have := List.suffix_iff_eq_drop.1 h.suffix
    rwa [List.length_map, ← List.map_drop] at this
  refine ⟨hcommits, fun k hk => ?_, fun e he => h.faithful e (List.mem_of_mem_drop he)⟩
  -- The retained commits are a suffix of the log, and chains pass to suffixes.
  have hdrop := h.chained.drop (a.log.length - a.daemon.conf.commits.length)
  rw [← List.map_drop] at hdrop
  have hreplay := hdrop.replay hk
  rw [hcommits, List.flatMap_map]
  rwa [List.flatMap_map] at hreplay

/-- A step that logs nothing and leaves the store outside `last.*` alone is sound. -/
theorem Sound.of_log_eq (h : a.Sound) {a' : Audit} (hw : a'.daemon.conf.WellKeyed)
    (hlog : a'.log = a.log) (hcommits : a'.daemon.conf.commits = a.daemon.conf.commits)
    (hstore : Set.EqOn a.daemon.conf.store a'.daemon.conf.store outsideLast) : a'.Sound where
  wellKeyed := hw
  suffix := by
    rw [hcommits, hlog]
    exact h.suffix
  chained := by
    rw [hlog]
    exact h.chained.congr hstore
  faithful := hlog ▸ h.faithful

/-- A commit with changes extends the log by one that starts from the store. -/
theorem Sound.commit_of_changes (h : a.Sound) (hc : a.daemon.conf.Committable id)
    (hzero : a.daemon.conf.ErasesNoZero id) (hl : (a.daemon.conf.logged env id).2 ≠ none)
    (hne : a.daemon.conf.pruneUnchangedValues id ≠ []) :
    (a.step (.commit env id configOpt)).Sound := by
  have hlog : a.logAfter (.commit env id configOpt) =
      a.log ++ [⟨a.daemon.conf.store, a.daemon.conf.newCommit env id⟩] := if_pos ⟨hc, hne, hl⟩
  refine ⟨Daemon.wellKeyed_step h.wellKeyed trivial, ?_, ?_, ?_⟩
  · rw [step, hlog, Daemon.conf_commit, commits_commit, if_pos hc, commits_logged, if_neg hne,
      if_neg hl, List.map_append]
    -- Dropping the oldest commits leaves a suffix of what was a suffix.
    refine (List.drop_suffix _ _).trans ?_
    obtain ⟨dropped, hdropped⟩ := h.suffix
    rw [← hdropped, List.append_assoc]
    exact List.suffix_append dropped _
  · rw [step, hlog, Daemon.conf_commit, store_commit, if_pos ⟨hc, hl⟩, List.map_append]
    refine Chained.append h.chained ?_
    rw [LoggedCommit.toDelta, h.wellKeyed.writes_newCommit]
    exact h.wellKeyed.overlay_prune_eqOn hzero
  · rw [step, hlog]
    intro e he
    rcases List.mem_append.1 he with he | he
    · exact h.faithful e he
    · rw [List.mem_singleton.1 he]
      exact h.wellKeyed.faithful_newCommit

/-- A sound commit keeps the log sound: it leads from the store before to the one after. -/
theorem Sound.commit (h : a.Sound) (hs : a.SoundEvent (.commit env id configOpt)) :
    (a.step (.commit env id configOpt)).Sound := by
  have hw : (a.daemon.step (.commit env id configOpt)).conf.WellKeyed :=
    Daemon.wellKeyed_step h.wellKeyed trivial
  by_cases hc : a.daemon.conf.Committable id
  · obtain ⟨hzero, hlog⟩ := hs hc
    have hl : (a.daemon.conf.logged env id).2 ≠ none := logged_ne_none_iff.2 hlog
    by_cases hne : a.daemon.conf.pruneUnchangedValues id = []
    · -- Without changes, the store outside `last.*` is as before.
      have heqOn := h.wellKeyed.overlay_prune_eqOn hzero
      rw [hne] at heqOn
      refine h.of_log_eq hw (if_neg fun hn => hn.2.1 hne) ?_ ?_
      · rw [step, Daemon.conf_commit, commits_commit, if_pos hc, commits_logged, if_pos hne]
      · rw [step, Daemon.conf_commit, store_commit, if_pos ⟨hc, hl⟩]
        exact heqOn
    · exact h.commit_of_changes hc hzero hl hne
  · -- A refused commit is neither logged nor applied.
    have hconf : (a.daemon.step (.commit env id configOpt)).conf = a.daemon.conf := by
      obtain ⟨_, hcommit⟩ | ⟨h, _⟩ | ⟨h, _⟩ := commit_cases a.daemon.conf env id configOpt
      · rw [Daemon.conf_commit, hcommit]
      · exact absurd h hc
      · exact absurd h hc
    refine h.of_log_eq hw (if_neg fun hn => hc hn.1) ?_ ?_
    · rw [step, hconf]
    · rw [step, hconf]
      exact Set.eqOn_refl _ _

/-- So does every call: the others change neither the store nor the log. -/
theorem Sound.step (h : a.Sound) (he : e.Admissible) (hs : a.SoundEvent e) : (a.step e).Sound := by
  have hw : (a.step e).daemon.conf.WellKeyed := Daemon.wellKeyed_step h.wellKeyed he
  cases e with
  | commit env id configOpt => exact h.commit hs
  | set item id =>
    have hconf : (a.daemon.step (.set item id)).conf =
        a.daemon.conf.stage id (a.daemon.conf.setItems item id) := set_fst
    refine h.of_log_eq hw rfl ?_ ?_
    · rw [Audit.step, hconf]
      rfl
    · rw [Audit.step, hconf]
      exact Set.eqOn_refl _ _
  | erase key id => exact h.of_log_eq hw rfl rfl (Set.eqOn_refl _ _)
  | drop id => exact h.of_log_eq hw rfl rfl (Set.eqOn_refl _ _)
  | complete t result =>
    rcases hwait : a.daemon.waiting t with _ | p
    · rw [Audit.step, Daemon.step_complete_of_none hwait]
      exact h
    · -- Completing hooks drops the bucket at most.
      have hconf : (a.daemon.step (.complete t result)).conf = _ := Daemon.conf_complete hwait
      refine h.of_log_eq hw rfl ?_ ?_
      · rw [Audit.step, hconf]
        split <;> rfl
      · rw [Audit.step, hconf]
        split <;> exact Set.eqOn_refl _ _

/-- The audit only watches the daemon. -/
theorem daemon_run {es : List Event} :
    (run Audit.step a es).daemon = run Daemon.step a.daemon es := by
  induction es generalizing a with
  | nil => rfl
  | cons e es ih => exact ih

theorem daemon_handle : (a.handle c).daemon = a.daemon.handle c := by
  rw [handle, daemon_run, Daemon.handle_eq_run]

theorem Sound.handle (h : a.Sound) (hc : c.Admissible) (hs : a.SoundCommand c) :
    (a.handle c).Sound :=
  (Always.of_step Audit.step (I := Sound) h (fun _ _ ha he => ha.step he.1 he.2)
    ((guarded_iff_forall_mem.2 (Daemon.admissible_events h.wellKeyed hc)).and hs)).last

theorem sound_start {root : Path} {history : LocalHistoryStorage} {n : Nat} :
    (start (.onEmpty root history n)).Sound :=
  ⟨wellKeyed_onEmpty, List.suffix_rfl, trivial, nofun⟩

/-- From an empty store and an empty history, the history replays in all states of a run of
    client calls whose commits are all sound. -/
theorem always_replays (root : Path) (history : LocalHistoryStorage) (maxTransactions : Nat)
    (cs : List Command) (hcs : ∀ c ∈ cs, c.Admissible)
    (hsound : Guarded handle SoundCommand (start (.onEmpty root history maxTransactions)) cs) :
    Always handle Replays (start (.onEmpty root history maxTransactions)) cs :=
  (Always.of_step handle (I := Sound) sound_start
    (fun _ _ ha hc => ha.handle hc.1 hc.2)
    ((guarded_iff_forall_mem.2 hcs).and hsound)).mono fun _ h => h.replays

/-- A pair is set and committed, and the commit is rolled back. -/
def setAndRollback : List Command :=
  [.event (.set (.ofInt32 "net.mtu" 1) 1), .event (.commit ⟨0, true⟩ 1 .default),
    .event (.complete 0 .value), .rollback ⟨0, true⟩ 1]

theorem always_replays_setAndRollback :
    Always handle Replays (start (Daemon.onEmpty 100).conf) setAndRollback :=
  always_replays "/s".toList .ofIds 100 setAndRollback
    (by decide)
    ⟨⟨trivial, trivial⟩,
      ⟨fun _ => ⟨erasesNoZero_of_forall_mem (by decide), fun _ _ => rfl⟩, trivial⟩,
      ⟨trivial, trivial⟩,
      ⟨trivial, fun _ => ⟨erasesNoZero_of_forall_mem (by decide), fun _ _ => rfl⟩, trivial⟩,
      trivial⟩

/-- A key is set to `0` and erased again. -/
def eraseZero : List Command :=
  [.event (.set (.ofInt32 "net.mtu" 0) 1), .event (.commit ⟨0, true⟩ 1 .noHooks),
    .event (.erase (.ofString "net.mtu") 1), .event (.commit ⟨0, true⟩ 1 .noHooks)]

theorem not_always_replays : ¬∀ cs : List Command, (∀ c ∈ cs, c.Admissible) →
    Always handle Replays (start (Daemon.onEmpty 100).conf) cs := by
  intro h
  have hreplay := (h eraseZero (by decide)).last.replay (.ofString "net.mtu") (by decide)
  exact absurd hreplay (by decide)

end Audit

end SysAdmin
