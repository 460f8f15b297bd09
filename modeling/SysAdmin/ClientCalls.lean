import SysAdmin.Daemon

/-!
# Calls of clients

What clients may call, and what holds of the keys in all states their calls reach.

A client names a key by its text, and only sets a key that is neither empty nor a
pattern (`ConfigKey.Plain`); it may also erase the keys of a pattern (`Event.Admissible`).
A rollback is a call, too (`Command`).

In the states reached (`Reached`), all keys that are staged, stored or logged are
such keys, and a logged commit changes distinct keys outside `last.*`
(`Configurator.WellKeyed`).
-/

namespace SysAdmin

open Machine Writes Configurator

/-- A call that reaches the configurator: the controller refuses to set patterns. -/
def Event.Admissible : Event → Prop
  | set item _ => item.key.Plain
  | erase key _ => key.isWildcard = true ∨ key.Plain
  | drop _ | commit .. | complete .. => True

instance : DecidablePred Event.Admissible
  | .set item _ => inferInstanceAs (Decidable (item.key.Plain))
  | .erase _ _ => inferInstanceAs (Decidable (_ ∨ _))
  | .drop _ | .commit .. | .complete .. => .isTrue trivial

/-- A call of a client or a completion of hooks, or a rollback. -/
inductive Command
  | event (e : Event)
  | rollback (env : Environment) (commitId : CommitId)

/-- A command whose event reaches the configurator. -/
def Command.Admissible : Command → Prop
  | event e => e.Admissible
  | rollback .. => True

instance : DecidablePred Command.Admissible
  | .event e => inferInstanceAs (Decidable e.Admissible)
  | .rollback .. => .isTrue trivial

/-- The events a command consists of. -/
def Command.events (c : Configurator) : Command → List Event
  | event e => [e]
  | rollback env commitId => Daemon.rollbackEvents c env commitId

namespace Daemon

/-- Handles a command. -/
def handle (s : Daemon) : Command → Daemon
  | .event e => s.step e
  | .rollback env commitId => s.rollback env commitId

/-- A command is handled as its events, one after the other. -/
theorem handle_eq_run {s : Daemon} {c : Command} : s.handle c = run step s (c.events s.conf) := by
  cases c with
  | event e => rfl
  | rollback env commitId => exact rollback_eq_run

/-- The events of commands, one command after the other. -/
def trace : Daemon → List Command → List Event
  | _, [] => []
  | s, c :: cs => c.events s.conf ++ trace (s.handle c) cs

/-- Handling commands is handling their events. -/
theorem run_handle_eq_run_trace {s : Daemon} {cs : List Command} :
    run handle s cs = run step s (trace s cs) := by
  induction cs generalizing s with
  | nil => rfl
  | cons c cs ih => rw [trace, run_append, ← handle_eq_run, run_cons, ih]

end Daemon

/-! ## Keys -/

/-- A logged commit changes distinct keys outside `last.*`. -/
structure CommitHistory.WellKeyed (commit : CommitHistory) : Prop where
  key_eq : ∀ d ∈ commit.items, d.1.key = d.2.key
  plain : ∀ d ∈ commit.items, d.2.key.Plain
  not_last : ∀ d ∈ commit.items, d.2.key.inLast = false
  nodup : (commit.items.map fun d => d.2.key).Nodup

namespace Configurator

variable {c c' : Configurator} {env : Environment} {id x : ClientId} {items : ConfigPairList}
  {configOpt : CommitConfig} {k : ConfigKey}

/-- All keys in the daemon are keys that clients write. -/
structure WellKeyed (c : Configurator) : Prop where
  staged : ∀ id, ∀ p ∈ c.inFlightItems.staged id, p.key.Plain
  stored : ∀ k v, c.store k = some v → k.Plain
  logged : ∀ commit ∈ c.commits, commit.WellKeyed

theorem wellKeyed_onEmpty {root : Path} {history : LocalHistoryStorage} {n : Nat} :
    (onEmpty root history n).WellKeyed where
  staged _ _ hp := by cases hp
  stored _ _ hv := by cases hv
  logged _ hcommit := by cases hcommit

theorem WellKeyed.plain_staged (h : c.WellKeyed) :
    ∀ p ∈ c.inFlightItems.staged id, p.key.Plain := h.staged id

/-- Erasing stages the key, or stored keys. -/
theorem WellKeyed.eraseItems (h : c.WellKeyed) (hk : k.isWildcard = true ∨ k.Plain) :
    ∀ p ∈ c.eraseItems k, p.key.Plain := by
  intro p hp
  obtain ⟨k', hk', rfl⟩ := List.mem_map.1 hp
  rw [LockedConfigPairMap.erasedKeys] at hk'
  split at hk'
  · obtain ⟨⟨v, hv⟩, _⟩ := MemoryCache.mem_getAllKeys.1 (List.mem_filter.1 hk').1
    exact h.stored k' v hv
  · next hw =>
    obtain rfl := List.mem_singleton.1 hk'
    exact hk.resolve_left hw

theorem mem_setItems {item p : ConfigPair} (hp : p ∈ c.setItems item id) : p = item := by
  rw [setItems] at hp
  split at hp
  · exact List.mem_singleton.1 hp
  · cases hp

/-- A commit applies what is staged, and pairs of `last.*` for it. -/
theorem WellKeyed.mem_toApply (h : c.WellKeyed) :
    ∀ p ∈ c.toApply id, p.key.Plain := by
  intro p hp
  rcases Configurator.mem_toApply hp with hp | ⟨item, hitem, hkey⟩
  · exact h.staged id p hp
  · rw [hkey]
    exact (h.staged id item hitem).lastKey

/-- The delta of a changed pair has the stored value before it, Empty if there is none. -/
theorem generateDeltas_eq (hi : ∀ p ∈ items, p.key.isWildcard = false) :
    TransactionManager.generateDeltas c.get items =
      items.map fun p => (⟨p.key, (c.store p.key).getD .none⟩, p) := by
  refine List.map_congr_left fun p hp => ?_
  rw [get, MemoryCache.unwrapSinglePair_get (hi p hp), store]
  rcases c.systemStore.store p.key with _ | v <;> rfl

theorem mem_staged_of_mem_prune {p : ConfigPair} (hp : p ∈ c.pruneUnchangedValues id) :
    p ∈ c.inFlightItems.staged id :=
  (mem_of_lastItem (mem_pruneUnchangedValues.1 hp).1).1

/-- A commit logs the former value of each key that it changes. -/
theorem WellKeyed.items_newCommit (h : c.WellKeyed) : (c.newCommit env id).items =
    (c.pruneUnchangedValues id).map fun p => (⟨p.key, (c.store p.key).getD .none⟩, p) :=
  generateDeltas_eq fun p hp => (h.staged id p (mem_staged_of_mem_prune hp)).not_wildcard

theorem WellKeyed.newCommit (h : c.WellKeyed) : (c.newCommit env id).WellKeyed where
  key_eq d hd := by
    rw [h.items_newCommit] at hd
    obtain ⟨p, _, rfl⟩ := List.mem_map.1 hd
    rfl
  plain d hd := by
    rw [h.items_newCommit] at hd
    obtain ⟨p, hp, rfl⟩ := List.mem_map.1 hd
    exact h.staged id p (mem_staged_of_mem_prune hp)
  not_last d hd := by
    rw [h.items_newCommit] at hd
    obtain ⟨p, hp, rfl⟩ := List.mem_map.1 hd
    exact (mem_pruneUnchangedValues.1 hp).2.1
  nodup := by
    rw [h.items_newCommit, List.map_map]
    exact nodup_pruneUnchangedValues

/-- What is staged under plain keys leaves all keys plain. -/
theorem WellKeyed.stage (h : c.WellKeyed) (hi : ∀ p ∈ items, p.key.Plain) :
    (c.stage id items).WellKeyed where
  staged x p hp := by
    rw [staged_stage] at hp
    split at hp
    · rcases List.mem_append.1 hp with hp | hp
      · exact h.staged id p hp
      · exact hi p hp
    · split at hp
      · cases hp
      · exact h.staged x p hp
  stored := h.stored
  logged := h.logged

theorem WellKeyed.drop (h : c.WellKeyed) : (c.drop id).WellKeyed where
  staged x p hp := by
    rw [staged_drop] at hp
    split at hp
    · cases hp
    · exact h.staged x p hp
  stored := h.stored
  logged := h.logged

theorem WellKeyed.commit (h : c.WellKeyed) : (c.commit env id configOpt).1.WellKeyed where
  staged x p hp := by
    by_cases hx : x = id
    · subst hx
      exact h.mem_toApply p (mem_toApply_of_mem_staged_commit hp)
    · rw [staged_commit_of_ne hx] at hp
      exact h.staged x p hp
  stored k v hv := by
    obtain hv | ⟨_, hp⟩ := store_or_mem_toApply hv
    · exact h.stored k v hv
    · exact h.mem_toApply _ hp
  logged commit hcommit := by
    obtain hcommit | ⟨_, rfl⟩ := mem_commits_commit hcommit
    · exact h.logged commit hcommit
    · exact h.newCommit

end Configurator

namespace Daemon

variable {s : Daemon} {e : Event} {c : Command}

/-- This is so for every call. -/
theorem wellKeyed_step (h : s.conf.WellKeyed) (he : e.Admissible) : (s.step e).conf.WellKeyed := by
  cases e with
  | set item id =>
    rw [step, set_fst]
    exact h.stage fun p hp => mem_setItems hp ▸ he
  | erase key id => exact h.stage (h.eraseItems he)
  | drop id => exact h.drop
  | commit env id configOpt =>
    rw [conf_commit]
    exact h.commit
  | complete t result =>
    obtain hconf | ⟨clientId, hconf⟩ := s.conf_complete_cases t result
    · rwa [hconf]
    · rw [hconf]
      exact h.drop

theorem wellKeyed_run {es : List Event} (h : s.conf.WellKeyed) (he : ∀ e ∈ es, e.Admissible) :
    (run step s es).conf.WellKeyed :=
  (Always.of_step step (I := fun s => s.conf.WellKeyed) h
    (fun _ _ hs he => wellKeyed_step hs he) (guarded_iff_forall_mem.2 he)).last

/-- A command only makes calls that reach the configurator. -/
theorem admissible_events (h : s.conf.WellKeyed) (hc : c.Admissible) :
    ∀ e ∈ c.events s.conf, e.Admissible := by
  cases c with
  | event e =>
    intro e' he'
    rwa [List.mem_singleton.1 he']
  | rollback env commitId =>
    intro e he
    simp only [Command.events, rollbackEvents] at he
    split at he
    · cases he
    · next commit hcommit =>
      -- The keys a rollback sets and erases are those of a logged commit.
      have hw := h.logged commit (AllCommitHistories.mem_of_getCommit hcommit).1
      split at he
      · rcases List.mem_append.1 he with he | he
        · obtain ⟨d, hd, rfl⟩ := List.mem_map.1 he
          have hkey : d.1.key.Plain := by
            rw [hw.key_eq d hd]
            exact hw.plain d hd
          rw [restoreEvent]
          split
          · exact .inr hkey
          · exact hkey
        · obtain rfl := List.mem_singleton.1 he
          trivial
      · cases he

theorem wellKeyed_handle (h : s.conf.WellKeyed) (hc : c.Admissible) :
    (s.handle c).conf.WellKeyed := by
  rw [handle_eq_run]
  exact wellKeyed_run h (admissible_events h hc)

/-- Commands only make calls that reach the configurator. -/
theorem admissible_trace {cs : List Command} (h : s.conf.WellKeyed) (hcs : ∀ c ∈ cs, c.Admissible) :
    ∀ e ∈ trace s cs, e.Admissible := by
  induction cs generalizing s with
  | nil => exact fun e he => absurd he List.not_mem_nil
  | cons c cs ih =>
    rw [List.forall_mem_cons] at hcs
    intro e he
    rcases List.mem_append.1 he with he | he
    · exact admissible_events h hcs.1 e he
    · exact ih (wellKeyed_handle h hcs.1) hcs.2 e he

/-- The states reached from a start on well-formed data by calls of clients. -/
def Reached : Daemon → Prop :=
  Reachable handle (fun s => ∃ conf : Configurator, conf.WellKeyed ∧ s = start conf)
    fun _ c => c.Admissible

/-- So it is in all states that calls reach. -/
theorem Reached.wellKeyed (h : s.Reached) : s.conf.WellKeyed := by
  refine Reachable.invariant (I := fun s => s.conf.WellKeyed) ?_ ?_ h
  · rintro s ⟨conf, hconf, rfl⟩
    exact hconf
  · intro s c hs hc
    exact wellKeyed_handle hs hc

theorem reached_onEmpty {n : Nat} : (onEmpty n).Reached := .init ⟨_, wellKeyed_onEmpty, rfl⟩

/-- From empty data, clients can call what they like. -/
theorem reached_run {root : Path} {history : LocalHistoryStorage} {n : Nat} {cs : List Command}
    (hcs : ∀ c ∈ cs, c.Admissible) : (run handle (start (.onEmpty root history n)) cs).Reached :=
  Reachable.run (.init ⟨_, wellKeyed_onEmpty, rfl⟩) (guarded_iff_forall_mem.2 hcs)

end Daemon

end SysAdmin
