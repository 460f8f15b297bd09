import SysAdmin.Daemon

/-!
# Locks

A commit locks the bucket of its client until its hooks have completed. In the
meantime nothing more may be staged by `set`, and there is no second commit of the
client: its commits are *exclusive* (`Daemon.Exclusive`).

The lock is a flag of the bucket, so that it is lost with the bucket.

* `Daemon.always_exclusive_iff`: commits are exclusive in all states of a run exactly
  as long as no client with a running commit drops its bucket, and none of these
  buckets is aged out;
* `Followed.always_released_iff`: after a commit has completed, the client can set
  again, unless the hooks have failed with an exception that is not handled, which
  leaves the bucket locked.
-/

namespace SysAdmin

open Machine

namespace Configurator

variable {c : Configurator} {id : ClientId} {env : Environment} {configOpt : CommitConfig}

/-- Some pair of every store has the right type. -/
theorem exists_typeCheck (c : Configurator) : ∃ item, c.systemStore.typeCheck item = true := by
  have hk : (ConfigKey.ofString "key").isWildcard = false := by decide
  rcases hv : c.systemStore.store (.ofString "key") with _ | v
  · exact ⟨⟨.ofString "key", .none⟩, (MemoryCache.typeCheck_iff hk).2 (by simp [hv])⟩
  · refine ⟨⟨.ofString "key", v⟩, (MemoryCache.typeCheck_iff hk).2 fun w hw => ?_⟩
    obtain rfl := Option.some.inj (hv.symm.trans hw)
    simp [ConfigValue.typeCheck]

/-- A client can set again: its bucket is not locked, and no pair of the right type
    is refused for a lock. -/
def Released (c : Configurator) (id : ClientId) : Prop :=
  c.inFlightItems.isBucketLocked id = false ∧
    ∀ item, c.systemStore.typeCheck item = true → (c.set item id).2 ≠ .lockedQueue

/-- No pair is staged by `set`. -/
def Refusing (c : Configurator) (id : ClientId) : Prop :=
  ∀ item, (c.set item id).2 = .typeMismatch ∨ (c.set item id).2 = .lockedQueue

theorem accepted_eq_false_iff {s : SetStatus} :
    s.accepted = false ↔ s = .typeMismatch ∨ s = .lockedQueue := by
  cases s <;> simp [SetStatus.accepted]

/-- All calls are refused for a locked bucket, and only for one. -/
theorem refusing_iff : c.Refusing id ↔ c.inFlightItems.isBucketLocked id = true := by
  simp only [Refusing, ← accepted_eq_false_iff]
  constructor
  · intro h
    obtain ⟨item, hitem⟩ := c.exists_typeCheck
    by_contra hl
    have := accepted_set.2 ⟨hitem, Bool.eq_false_iff.2 hl⟩
    rw [h item] at this
    cases this
  · intro hl item
    rw [← Bool.not_eq_true, accepted_set, hl]
    simp

theorem released_iff : c.Released id ↔ c.inFlightItems.isBucketLocked id = false := by
  refine ⟨fun h => h.1, fun hl => ⟨hl, fun item ht h => ?_⟩⟩
  have hacc := accepted_set.2 ⟨ht, hl⟩
  rw [h] at hacc
  cases hacc

/-- A commit of a locked bucket does nothing. -/
theorem commit_of_locked (h : c.inFlightItems.isBucketLocked id = true) :
    c.commit env id configOpt = (c, .ready 0) := by
  have hc : ¬c.Committable id := fun hc => by simp [hc.2] at h
  obtain ⟨_, h⟩ | ⟨h, _⟩ | ⟨h, _⟩ := commit_cases c env id configOpt
  · exact h
  · exact absurd h hc
  · exact absurd h hc

end Configurator

namespace Daemon

variable {s : Daemon} {e : Event} {id x : ClientId} {items : ConfigPairList} {env : Environment}
  {configOpt : CommitConfig}

/-! ## One commit at a time -/

/-- Each client has one running commit at most. As long as it runs, nothing is
    staged by `set`, and another commit of the client leaves the live store alone. -/
def Exclusive (s : Daemon) : Prop :=
  (s.pending.map PendingCommit.clientId).Nodup ∧ ∀ p ∈ s.pending, s.conf.Refusing p.clientId ∧
    ∀ env configOpt, (s.conf.commit env p.clientId configOpt).1.systemStore = s.conf.systemStore

/-- The event does not take the bucket of a running commit away: the client does not
    drop it, and it is not the one aged out when another bucket is opened. -/
def Protects (s : Daemon) : Event → Prop
  | .drop id => ∀ p ∈ s.pending, p.clientId ≠ id
  | e => e.opened s.conf ≠ none → ∀ p ∈ s.pending, s.conf.inFlightItems.victim ≠ some p.clientId

/-- In other words: one commit for each client, and the buckets of all of them are locked. -/
theorem exclusive_iff : s.Exclusive ↔ (s.pending.map PendingCommit.clientId).Nodup ∧
    ∀ p ∈ s.pending, s.conf.inFlightItems.isBucketLocked p.clientId = true := by
  refine and_congr_right fun _ => forall₂_congr fun p _ => ?_
  rw [Configurator.refusing_iff]
  refine ⟨fun h => h.1, fun hl => ⟨hl, fun env configOpt => ?_⟩⟩
  rw [Configurator.commit_of_locked hl]

/-- What stages items does no harm, unless it takes the place of a bucket that is being
    committed. -/
theorem protects_of_staging (h : e.staging s.conf = some (id, items)) : s.Protects e ↔
    (s.conf.Opens id items → ∀ p ∈ s.pending, s.conf.inFlightItems.victim ≠ some p.clientId) := by
  have ho : e.opened s.conf ≠ none ↔ s.conf.Opens id items := by
    rw [opened_of_staging h]
    simp
  cases e with
  | set | erase => rw [← ho]; rfl
  | drop | commit | complete => cases h

/-- A locked bucket stays locked when items are staged, unless it is aged out. -/
theorem isBucketLocked_stage_iff (hx : s.conf.inFlightItems.isBucketLocked x = true) :
    (s.stage id items).conf.inFlightItems.isBucketLocked x = true ↔
      (s.conf.Opens id items → s.conf.inFlightItems.victim ≠ some x) := by
  by_cases hid : x = id
  · subst hid
    -- A locked bucket is there, so that staging into it opens none.
    have hopen : ¬s.conf.Opens x items := fun h => by
      simp [LockedConfigPairMap.isBucketLocked_of_none h.2] at hx
    simp only [hopen, false_imp_iff, iff_true]
    rw [LockedConfigPairMap.isBucketLocked, conf_stage, Configurator.bucket?_stage_self]
    split
    · exact hx
    · exact hx
  · rw [LockedConfigPairMap.isBucketLocked, conf_stage, Configurator.bucket?_stage_of_ne hid]
    by_cases hv : s.conf.Opens id items ∧ s.conf.inFlightItems.victim = some x
    · simp [hv]
    · rw [if_neg hv]
      exact iff_of_true hx fun ho hvx => hv ⟨ho, hvx⟩

theorem isBucketLocked_drop {c : Configurator} : (c.drop id).inFlightItems.isBucketLocked x =
    (decide (x ≠ id) && c.inFlightItems.isBucketLocked x) := by
  rw [LockedConfigPairMap.isBucketLocked, Configurator.bucket?_drop]
  by_cases hx : x = id
  · simp [hx]
  · simp [hx, LockedConfigPairMap.isBucketLocked]

/-- A commit keeps the locks of all buckets, and takes the one it applies. -/
theorem isBucketLocked_commit {c : Configurator}
    (h : c.inFlightItems.isBucketLocked x = true) :
    (c.commit env id configOpt).1.inFlightItems.isBucketLocked x = true := by
  by_cases hx : x = id
  · subst hx
    rw [Configurator.commit_of_locked h]
    exact h
  · rw [LockedConfigPairMap.isBucketLocked, Configurator.bucket?_commit_of_ne hx]
    exact h

/-- A commit is only made of a bucket that is open, and locks it. -/
theorem Exclusive.commit (h : s.Exclusive) : (s.step (.commit env id configOpt)).Exclusive := by
  rw [exclusive_iff] at h ⊢
  rw [conf_commit]
  rcases pending_commit s env id configOpt with
    ⟨hp, _⟩ | ⟨hc, hl, ho, commitId, hp⟩
  · rw [hp]
    exact ⟨h.1, fun p hpm => isBucketLocked_commit (h.2 p hpm)⟩
  · -- The bucket was not locked, so the client has no other commit running.
    have hid : id ∉ s.pending.map PendingCommit.clientId := fun hid => by
      obtain ⟨p, hpm, rfl⟩ := List.mem_map.1 hid
      simp [h.2 p hpm, Configurator.Committable] at hc
    rw [hp, List.map_append, List.nodup_append]
    refine ⟨⟨h.1, by simp, ?_⟩, fun p hpm => ?_⟩
    · rintro x hx y hy rfl
      obtain rfl : x = id := by simpa using hy
      exact hid hx
    · rcases List.mem_append.1 hpm with hpm | hpm
      · exact isBucketLocked_commit (h.2 p hpm)
      · obtain rfl := List.mem_singleton.1 hpm
        rw [LockedConfigPairMap.isBucketLocked, Configurator.bucket?_commit_self]
        simp [hc, hl, ho]

/-- What is completed is no longer pending, and its bucket is open again. -/
theorem Exclusive.complete {t : Nat} {result : HookResult} (h : s.Exclusive) :
    (s.step (.complete t result)).Exclusive := by
  rcases hw : s.waiting t with _ | p
  · rwa [step_complete_of_none hw]
  · rw [exclusive_iff] at h ⊢
    rw [pending_complete hw, conf_complete hw]
    have hsub : (s.pending.erase p).Sublist s.pending := List.erase_sublist
    -- The other commits keep waiting, each with the bucket of another client.
    refine ⟨h.1.sublist (hsub.map _), fun q hq => ?_⟩
    have hqm : q ∈ s.pending := hsub.subset hq
    split
    · exact h.2 q hqm
    · -- The dropped bucket is that of `p`, the only commit of its client.
      have hne : q.clientId ≠ p.clientId := fun heq => by
        have hnodup : s.pending.Nodup := List.Nodup.of_map _ h.1
        obtain rfl := List.inj_on_of_nodup_map h.1 hqm (mem_of_waiting hw) heq
        exact (hnodup.mem_erase_iff.1 hq).1 rfl
      simp [isBucketLocked_drop, hne, h.2 q hqm]

theorem Exclusive.step_iff (h : s.Exclusive) : (s.step e).Exclusive ↔ s.Protects e := by
  obtain ⟨id, items, hs⟩ | ⟨id, rfl⟩ | ⟨env, id, configOpt, rfl⟩ | ⟨t, result, rfl⟩ :=
    event_cases s.conf e
  · rw [step_of_staging hs, protects_of_staging hs, exclusive_iff]
    have h := exclusive_iff.1 h
    -- Staging moves no commit; what matters is which locks are left.
    have hlocked : (∀ p ∈ s.pending,
          (s.stage id items).conf.inFlightItems.isBucketLocked p.clientId = true) ↔
        ∀ p ∈ s.pending, s.conf.Opens id items →
          s.conf.inFlightItems.victim ≠ some p.clientId :=
      forall₂_congr fun p hp => isBucketLocked_stage_iff (h.2 p hp)
    constructor
    · rintro ⟨_, hl⟩ ho p hp
      exact hlocked.1 hl p hp ho
    · intro hv
      exact ⟨h.1, hlocked.2 fun p hp ho => hv ho p hp⟩
  · rw [exclusive_iff] at h ⊢
    simp only [step, isBucketLocked_drop, h.1, true_and, Protects]
    refine forall₂_congr fun p hp => ?_
    simp [h.2 p hp]
  · exact iff_of_true h.commit fun ho => absurd rfl ho
  · exact iff_of_true h.complete fun ho => absurd rfl ho

/-- From any configurator, commits are exclusive in all states of a run if and only if no
    event of it takes away the bucket of a running commit. -/
theorem always_exclusive_iff (conf : Configurator) (es : List Event) :
    Always step Exclusive (start conf) es ↔ Guarded step Protects (start conf) es :=
  always_iff_guarded (J := fun _ => True) trivial (fun _ _ _ => trivial)
    ⟨List.nodup_nil, nofun⟩ fun _ _ _ h => h.step_iff

/-- A client commits, drops its bucket while the hooks are running, and sets again. -/
def dropWhileCommitting : List Event :=
  [.set (.ofInt32 "net.mtu" 1) 1, .commit ⟨0, true⟩ 1 .default, .drop 1]

theorem not_always_exclusive : ¬Always step Exclusive (onEmpty 100) dropWhileCommitting := by
  intro h
  have hl := (exclusive_iff.1 h.last).2 ⟨0, 1, 1⟩ (by decide)
  exact absurd hl (by decide)

end Daemon

/-! ## After a commit -/

/-- The daemon, with the clients for whom a commit has completed, and who have not
    begun another one since. -/
structure Followed where
  daemon : Daemon
  settled : ClientId → Bool

namespace Followed

/-- Who is settled after an event. A commit that is refused changes nothing. -/
def settledAfter (f : Followed) : Event → ClientId → Bool
  | .commit env id configOpt =>
    if f.daemon.conf.Committable id then
      Function.update f.settled id
        (match (f.daemon.conf.commit env id configOpt).2 with
          | .ready _ => true
          | .threw | .hooks .. => false)
    else f.settled
  | .complete t _ =>
    match f.daemon.waiting t with
    | some p => Function.update f.settled p.clientId true
    | none => f.settled
  | .set .. | .erase .. | .drop _ => f.settled

/-- Handles an event. -/
def step (f : Followed) (e : Event) : Followed := ⟨f.daemon.step e, f.settledAfter e⟩

/-- Nobody has committed yet. -/
def start (conf : Configurator) : Followed := ⟨.start conf, fun _ => false⟩

/-- After a commit has completed, its client can set again. -/
def Released (f : Followed) : Prop := ∀ id, f.settled id = true → f.daemon.conf.Released id

/-- If the hooks of a commit fail with an exception that is not handled, the bucket
    of the client is gone or not locked already. -/
def Unlocks (f : Followed) : Event → Prop
  | .complete t .otherException =>
    ∀ p, f.daemon.waiting t = some p → f.daemon.conf.inFlightItems.isBucketLocked p.clientId = false
  | _ => True

variable {f : Followed} {e : Event} {id x : ClientId} {items : ConfigPairList} {env : Environment}
  {configOpt : CommitConfig}

theorem released_iff : f.Released ↔
    ∀ id, f.settled id = true → f.daemon.conf.inFlightItems.isBucketLocked id = false :=
  forall₂_congr fun _ _ => Configurator.released_iff

/-- Staging settles no commit. -/
theorem settledAfter_of_staging (h : e.staging f.daemon.conf = some (id, items)) :
    f.settledAfter e = f.settled := by
  cases e with
  | set | erase => rfl
  | drop | commit | complete => cases h

theorem unlocks_of_staging (h : e.staging f.daemon.conf = some (id, items)) : f.Unlocks e := by
  cases e with
  | set | erase => trivial
  | drop | commit | complete => cases h

theorem unlocks_of_handled {t : Nat} {result : HookResult} (hr : result ≠ .otherException) :
    f.Unlocks (.complete t result) := by
  cases result with
  | value | externalRunnerError => trivial
  | otherException => exact absurd rfl hr

/-- A commit that is refused has not been settled before, and one that is made is not settled
    yet. -/
theorem Released.commit (h : f.Released) : (f.step (.commit env id configOpt)).Released := by
  rw [released_iff] at h ⊢
  intro x hx
  simp only [step, settledAfter, Daemon.conf_commit] at hx ⊢
  by_cases hxid : x = id
  · subst hxid
    obtain ⟨hc, hcommit⟩ | ⟨hc, _, hcommit⟩ | ⟨hc, commitId, _, hcommit⟩ :=
      Configurator.commit_cases f.daemon.conf env x configOpt
    · rw [if_neg hc] at hx
      rw [hcommit]
      exact h x hx
    · -- A commit that throws does not complete.
      rw [if_pos hc, Function.update_self, hcommit] at hx
      cases hx
    · rw [if_pos hc, Function.update_self, hcommit] at hx
      by_cases ho : configOpt = .noHooks
      · rw [hcommit, if_pos ho, Daemon.isBucketLocked_drop]
        simp
      · -- A commit that waits for its hooks has not completed yet.
        rw [if_neg ho] at hx
        cases hx
  · rw [LockedConfigPairMap.isBucketLocked, Configurator.bucket?_commit_of_ne hxid]
    refine h x ?_
    split at hx
    · rwa [Function.update_of_ne hxid] at hx
    · exact hx

theorem Released.complete_iff {t : Nat} {result : HookResult} (h : f.Released) :
    (f.step (.complete t result)).Released ↔ f.Unlocks (.complete t result) := by
  rw [released_iff] at h ⊢
  simp only [step, settledAfter]
  rcases hw : f.daemon.waiting t with _ | p
  · rw [Daemon.step_complete_of_none hw]
    refine iff_of_true h ?_
    cases result <;> simp [Unlocks, hw]
  · rw [Daemon.conf_complete hw]
    by_cases hr : result = .otherException
    · subst hr
      simp only [if_true, Unlocks, hw, Option.some.injEq, forall_eq']
      constructor
      · intro h
        exact h p.clientId (by simp)
      · intro hl x hx
        by_cases hxp : x = p.clientId
        · rwa [hxp]
        · rw [Function.update_of_ne hxp] at hx
          exact h x hx
    · rw [if_neg hr]
      -- The bucket is dropped, and its lock with it.
      refine iff_of_true (fun x hx => ?_) (unlocks_of_handled hr)
      rw [Daemon.isBucketLocked_drop]
      by_cases hxp : x = p.clientId
      · simp [hxp]
      · simp only [Function.update_of_ne hxp] at hx
        simp [h x hx]

/-- Event by event: the buckets of settled commits are open if and only if they were, and the event
    unlocks what it settles. -/
theorem Released.step_iff (h : f.Released) : (f.step e).Released ↔ f.Unlocks e := by
  obtain ⟨id, items, hs⟩ | ⟨id, rfl⟩ | ⟨env, id, configOpt, rfl⟩ | ⟨t, result, rfl⟩ :=
    Daemon.event_cases f.daemon.conf e
  · refine iff_of_true ?_ (unlocks_of_staging hs)
    rw [released_iff] at h ⊢
    intro x hx
    rw [step, settledAfter_of_staging hs] at hx
    rw [step, Daemon.step_of_staging hs, ← Bool.not_eq_true]
    intro hl
    have hlocked := Configurator.isBucketLocked_stage hl
    rw [h x hx] at hlocked
    cases hlocked
  · refine iff_of_true ?_ trivial
    rw [released_iff] at h ⊢
    intro x hx
    simp only [step, Daemon.step, Daemon.isBucketLocked_drop]
    simp [h x hx]
  · exact iff_of_true h.commit trivial
  · exact h.complete_iff

/-- From any configurator, every client for whom a commit has completed can set again, in
    all states of a run, if and only if no hooks of it fail with an unhandled exception
    while the bucket is locked. -/
theorem always_released_iff (conf : Configurator) (es : List Event) :
    Always step Released (start conf) es ↔ Guarded step Unlocks (start conf) es :=
  always_iff_guarded (J := fun _ => True) trivial (fun _ _ _ => trivial) nofun
    fun _ _ _ h => h.step_iff

/-- The hooks of a commit fail with an exception that is not an `ExternalRunnerError`. -/
def brokenPromise : List Event :=
  [.set (.ofInt32 "net.mtu" 1) 1, .commit ⟨0, true⟩ 1 .default, .complete 0 .otherException]

theorem not_always_released :
    ¬Always step Released (start (Daemon.onEmpty 100).conf) brokenPromise := by
  intro h
  have hl := released_iff.1 h.last 1 (by decide)
  exact absurd hl (by decide)

end Followed

end SysAdmin
