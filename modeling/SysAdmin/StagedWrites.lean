import SysAdmin.CommitFailures
import SysAdmin.Daemon

/-!
# Staged writes

A write is acknowledged when it is staged, and the client may rely on the next commit
to apply it. Two ledgers follow what the clients have been told:

* `Ledger`: what is *owed* to a client, acknowledged and neither applied nor dropped.
  It should wait in the bucket (`Ledger.Kept`). The completion of a commit discards
  the whole bucket, and with it what was staged while the hooks were running:
  `Ledger.always_kept_iff` says that this is the only way to lose a write, unless
  there are too many buckets.
* `Transaction`: what was acknowledged since the last commit or drop of a client, where
  hooks complete at once. A commit should apply all of it or nothing
  (`Transaction.AllOrNothing`). But a client whose bucket was aged out may open another
  one with its next write, and then commits a part:
  `Transaction.always_allOrNothing_iff`.
-/

namespace SysAdmin

open Machine Writes

/-! ## What a commit applies -/

namespace Configurator

variable {c : Configurator} {env : Environment} {id x : ClientId} {configOpt : CommitConfig}
  {items : ConfigPairList}

/-- The items of the client that a commit applies. -/
def appliedItems (c : Configurator) (env : Environment) (clientId : ClientId) : ConfigPairList :=
  if c.Committable clientId ∧ (c.logged env clientId).2 ≠ none then c.inFlightItems.staged clientId
  else []

end Configurator

/-! ## Nothing acknowledged is lost -/

/-- The daemon, with what it owes to the clients. -/
structure Ledger where
  daemon : Daemon
  owed : ClientId → ConfigPairList

namespace Ledger

/-- What is owed after an event. -/
def owedAfter (l : Ledger) : Event → ClientId → ConfigPairList
  | .set item id => Function.update l.owed id (l.owed id ++ l.daemon.conf.setItems item id)
  | .erase key id => Function.update l.owed id (l.owed id ++ l.daemon.conf.eraseItems key)
  | .drop id => Function.update l.owed id []
  | .commit env id _ =>
    if l.daemon.conf.Committable id ∧ (l.daemon.conf.logged env id).2 ≠ none then
      Function.update l.owed id []
    else l.owed
  | .complete .. => l.owed

/-- Handles an event. -/
def step (l : Ledger) (e : Event) : Ledger := ⟨l.daemon.step e, l.owedAfter e⟩

/-- What is in the buckets at the start is owed. -/
def start (conf : Configurator) : Ledger := ⟨.start conf, conf.inFlightItems.staged⟩

/-- All that is owed waits in the buckets, in order and behind everything else. -/
def Kept (l : Ledger) : Prop := ∀ id, l.owed id <:+ l.daemon.conf.inFlightItems.staged id

/-- There is room for a bucket that is opened. -/
def Room (l : Ledger) (e : Event) : Prop :=
  e.opened l.daemon.conf ≠ none → l.daemon.conf.inFlightItems.victim = none

/-- When the hooks of a commit complete, so that the bucket is discarded, nothing is
    owed to the client. -/
def NothingOwed (l : Ledger) : Event → Prop
  | .complete t result =>
    result ≠ .otherException → ∀ p, l.daemon.waiting t = some p → l.owed p.clientId = []
  | _ => True

variable {l : Ledger} {e : Event} {id x : ClientId} {items : ConfigPairList} {env : Environment}
  {configOpt : CommitConfig}

/-- What is staged is owed to its client. -/
theorem owedAfter_of_staging (h : e.staging l.daemon.conf = some (id, items)) :
    l.owedAfter e = Function.update l.owed id (l.owed id ++ items) := by
  cases e with
  | set item clientId => cases h; rfl
  | erase key clientId => cases h; rfl
  | drop | commit | complete => cases h

theorem nothingOwed_of_staging (h : e.staging l.daemon.conf = some (id, items)) :
    l.NothingOwed e := by
  cases e with
  | set | erase => trivial
  | drop | commit | complete => cases h

/-- With room for its bucket, staging loses nothing of what is owed. -/
theorem Kept.staging (h : l.Kept) (hroom : l.Room e)
    (hs : e.staging l.daemon.conf = some (id, items)) : (l.step e).Kept := by
  intro x
  have hvictim : ¬(l.daemon.conf.Opens id items ∧ l.daemon.conf.inFlightItems.victim = some x) := by
    rintro ⟨ho, hv⟩
    have := hroom (by rw [Daemon.opened_of_staging hs, if_pos ho]; simp)
    rw [this] at hv
    cases hv
  simp only [step, owedAfter_of_staging hs, Daemon.step_of_staging hs, Daemon.conf_stage,
    Configurator.staged_stage]
  by_cases hx : x = id
  · subst hx
    -- The items go to the end of both.
    obtain ⟨before, hbefore⟩ := h x
    rw [if_pos rfl, Function.update_self, ← hbefore, List.append_assoc]
    exact List.suffix_append before _
  · rw [if_neg hx, if_neg hvictim, Function.update_of_ne hx]
    exact h x

/-- A commit pays what it applies, or leaves it in its bucket. -/
theorem Kept.commit (h : l.Kept) : (l.step (.commit env id configOpt)).Kept := by
  intro x
  simp only [step, owedAfter, Daemon.conf_commit]
  split
  · by_cases hx : x = id
    · subst hx
      rw [Function.update_self]
      exact List.nil_suffix
    · rw [Function.update_of_ne hx, Configurator.staged_commit_of_ne hx]
      exact h x
  · next hn =>
    by_cases hx : x = id
    · subst hx
      rw [Configurator.staged_commit_self hn]
      exact h x
    · rw [Configurator.staged_commit_of_ne hx]
      exact h x

theorem Kept.complete_iff {t : Nat} {result : HookResult} (h : l.Kept) :
    (l.step (.complete t result)).Kept ↔ l.NothingOwed (.complete t result) := by
  simp only [Kept, step, owedAfter, NothingOwed]
  rcases hw : l.daemon.waiting t with _ | p
  · rw [Daemon.step_complete_of_none hw]
    exact iff_of_true h fun _ _ hp => by cases hp
  · rw [Daemon.conf_complete hw]
    by_cases hr : result = .otherException
    · rw [if_pos hr]
      exact iff_of_true h fun hne => absurd hr hne
    · rw [if_neg hr]
      simp only [ne_eq, hr, not_false_eq_true, true_imp_iff, Option.some.injEq, forall_eq',
        Configurator.staged_drop]
      constructor
      · -- The bucket is empty now, so whatever is owed has been lost.
        intro hk
        simpa using hk p.clientId
      · intro howed x
        split
        · next hx => rw [hx, howed]
        · exact h x

theorem Kept.step_iff (h : l.Kept) (hroom : l.Room e) : (l.step e).Kept ↔ l.NothingOwed e := by
  obtain ⟨id, items, hs⟩ | ⟨id, rfl⟩ | ⟨env, id, configOpt, rfl⟩ | ⟨t, result, rfl⟩ :=
    Daemon.event_cases l.daemon.conf e
  · exact iff_of_true (h.staging hroom hs) (nothingOwed_of_staging hs)
  · refine iff_of_true (fun x => ?_) trivial
    simp only [step, owedAfter, Daemon.step, Configurator.staged_drop]
    by_cases hx : x = id
    · rw [if_pos hx, hx, Function.update_self]
    · rw [if_neg hx, Function.update_of_ne hx]
      exact h x
  · exact iff_of_true h.commit trivial
  · exact h.complete_iff

/-- In a run in which there is room for every bucket, all that is owed waits in the buckets,
    in all states, if and only if nothing is owed to a client when the hooks of one of its
    commits complete. -/
theorem always_kept_iff (conf : Configurator) (es : List Event)
    (hroom : Guarded step Room (start conf) es) :
    Always step Kept (start conf) es ↔ Guarded step NothingOwed (start conf) es :=
  always_iff_guarded_of_allowed (J := fun _ => True) hroom trivial (fun _ _ _ _ => trivial)
    (fun _ => List.suffix_rfl) fun _ _ _ hroom h => h.step_iff hroom

/-- A client erases a key while the hooks of its commit are running. -/
def eraseWhileCommitting : List Event :=
  [.set (.ofInt32 "net.mtu" 1) 1, .commit ⟨0, true⟩ 1 .default, .erase (.ofString "net.vlan") 1,
    .complete 0 .value]

theorem room_eraseWhileCommitting :
    Guarded step Room (start (Daemon.onEmpty 100).conf) eraseWhileCommitting :=
  ⟨fun _ => rfl, nofun, fun _ => rfl, nofun, trivial⟩

theorem not_always_kept :
    Guarded step Room (start (Daemon.onEmpty 100).conf) eraseWhileCommitting ∧
      ¬Always step Kept (start (Daemon.onEmpty 100).conf) eraseWhileCommitting := by
  refine ⟨room_eraseWhileCommitting, fun h => ?_⟩
  have hkept := h.last 1
  exact absurd hkept.length_le (by decide)

theorem always_kept_iff_eraseWhileCommitting :
    Always step Kept (start (Daemon.onEmpty 100).conf) eraseWhileCommitting ↔
      Guarded step NothingOwed (start (Daemon.onEmpty 100).conf) eraseWhileCommitting :=
  always_kept_iff _ _ room_eraseWhileCommitting

end Ledger

/-! ## All or nothing -/

/-- The daemon, with what it has acknowledged to each client since its last commit or
    drop. -/
structure Transaction where
  daemon : Daemon
  acked : ClientId → ConfigPairList

namespace Transaction

/-- Handles an event, and the completion of the hooks it has started. -/
def handle (s : Daemon) (e : Event) (result : HookResult) : Daemon :=
  match (s.step e).pending with
  | [] => s.step e
  | p :: _ => (s.step e).step (.complete p.ticket result)

/-- What has been acknowledged after an event. -/
def ackedAfter (t : Transaction) : Event → ClientId → ConfigPairList
  | .set item id => Function.update t.acked id (t.acked id ++ t.daemon.conf.setItems item id)
  | .erase key id => Function.update t.acked id (t.acked id ++ t.daemon.conf.eraseItems key)
  | .drop id => Function.update t.acked id []
  | .commit _ id _ => Function.update t.acked id []
  | .complete .. => t.acked

/-- Handles an event, with the way its hooks complete. -/
def step (t : Transaction) (e : Event × HookResult) : Transaction :=
  ⟨handle t.daemon e.1 e.2, t.ackedAfter e.1⟩

/-- What is in the buckets at the start counts as acknowledged. -/
def start (conf : Configurator) : Transaction := ⟨.start conf, conf.inFlightItems.staged⟩

/-- A commit would apply all that was acknowledged, or nothing. -/
def AllOrNothing (t : Transaction) : Prop :=
  ∀ id env, t.daemon.conf.appliedItems env id = t.acked id ∨
    t.daemon.conf.appliedItems env id = []

/-- No client opens a bucket with a write that is not the first of its transaction. -/
def OpensFirst (t : Transaction) (e : Event × HookResult) : Prop :=
  ∀ id, e.1.opened t.daemon.conf = some id → t.acked id = []

variable {t : Transaction} {e : Event} {r : HookResult} {id x : ClientId}
  {items : ConfigPairList} {env : Environment} {configOpt : CommitConfig}

theorem allOrNothing_iff : t.AllOrNothing ↔ ∀ id, t.daemon.conf.Committable id →
    t.daemon.conf.inFlightItems.staged id = t.acked id := by
  constructor
  · intro h id hc
    have happlied : t.daemon.conf.appliedItems ⟨0, true⟩ id =
        t.daemon.conf.inFlightItems.staged id :=
      if_pos ⟨hc, Configurator.logged_ne_none rfl⟩
    have hid := h id ⟨0, true⟩
    rw [happlied] at hid
    exact hid.resolve_right hc.staged_ne_nil
  · intro h id env
    rw [Configurator.appliedItems]
    split
    · next hc => exact .inl (h id hc.1)
    · exact .inr rfl

/-- An event that starts no hooks is handled alone. -/
theorem handle_of_pending_eq_nil {s : Daemon} (h : (s.step e).pending = []) :
    handle s e r = s.step e := by
  rw [handle, h]

/-- What is staged and answered for is acknowledged. -/
theorem ackedAfter_of_staging (h : e.staging t.daemon.conf = some (id, items)) :
    t.ackedAfter e = Function.update t.acked id (t.acked id ++ items) := by
  cases e with
  | set item clientId => cases h; rfl
  | erase key clientId => cases h; rfl
  | drop | commit | complete => cases h

theorem opensFirst_of_staging (h : e.staging t.daemon.conf = some (id, items)) :
    t.OpensFirst (e, r) ↔ (t.daemon.conf.Opens id items → t.acked id = []) := by
  rw [OpensFirst, Daemon.opened_of_staging h]
  split
  · next ho => simp [ho]
  · next ho => simp [ho]

/-- Staging into an open bucket, or nothing at all, leaves the bucket as committable
    as it was. -/
theorem committable_stage_self {s : Daemon} (h : ¬s.conf.Opens id items) :
    (s.stage id items).conf.Committable id ↔ s.conf.Committable id := by
  by_cases hi : items = []
  · rw [hi]
    exact Configurator.committable_congr
      (by rw [Daemon.conf_stage, Configurator.bucket?_stage_self, if_pos rfl])
  · have hb : s.conf.inFlightItems.bucket? id ≠ none := fun hb => h ⟨hi, hb⟩
    obtain ⟨l, hl⟩ := Option.ne_none_iff_exists'.1 hb
    simp [Configurator.Committable, LockedConfigPairMap.exists, LockedConfigPairMap.isBucketLocked,
      Daemon.conf_stage, Configurator.bucket?_stage_self, hi, hl]

theorem AllOrNothing.staging (h : t.AllOrNothing) (hp : t.daemon.pending = [])
    (hs : e.staging t.daemon.conf = some (id, items)) :
    (t.step (e, r)).AllOrNothing ↔ t.OpensFirst (e, r) := by
  rw [allOrNothing_iff] at h
  have hhandle : handle t.daemon e r = t.daemon.stage id items := by
    have hstep := Daemon.step_of_staging hs
    rw [handle_of_pending_eq_nil (by rw [hstep]; exact hp), hstep]
  rw [opensFirst_of_staging hs, allOrNothing_iff]
  simp only [step, hhandle, ackedAfter_of_staging hs, Daemon.conf_stage, Configurator.staged_stage]
  constructor
  · intro hall ho
    have hc : (t.daemon.stage id items).conf.Committable id := by
      rw [Daemon.conf_stage, Configurator.committable_iff, Configurator.bucket?_stage_self,
        Configurator.staged_stage]
      simp [ho.1, LockedConfigPairMap.isBucketLocked_of_none ho.2]
    -- The new bucket holds these items only, so nothing else may be acknowledged.
    have hid := hall id hc
    simpa [LockedConfigPairMap.staged_of_none ho.2] using hid
  · intro hfirst x hc
    by_cases hx : x = id
    · subst hx
      rw [if_pos rfl, Function.update_self]
      by_cases ho : t.daemon.conf.Opens x items
      · rw [hfirst ho, LockedConfigPairMap.staged_of_none ho.2]
      · rw [h x ((committable_stage_self ho).1 hc)]
    · -- Another bucket is what it was, unless it has been aged out.
      rw [if_neg hx, Function.update_of_ne hx]
      by_cases hv : t.daemon.conf.Opens id items ∧ t.daemon.conf.inFlightItems.victim = some x
      · rw [Configurator.committable_iff, Configurator.bucket?_stage_of_ne hx, if_pos hv] at hc
        cases hc
      · rw [if_neg hv]
        refine h x ((Configurator.committable_congr ?_).1 hc)
        rw [Configurator.bucket?_stage_of_ne hx, if_neg hv]

/-- After a commit and the completion of its hooks, there is nothing to commit for
    this client, and the buckets of the others are what they were. -/
theorem conf_handle_commit (hp : t.daemon.pending = []) (env : Environment) (id : ClientId)
    (configOpt : CommitConfig) (r : HookResult) :
    ¬(handle t.daemon (.commit env id configOpt) r).conf.Committable id ∧
      ∀ x ≠ id, (handle t.daemon (.commit env id configOpt) r).conf.inFlightItems.bucket? x =
        t.daemon.conf.inFlightItems.bucket? x := by
  have hconf : (t.daemon.step (.commit env id configOpt)).conf =
      (t.daemon.conf.commit env id configOpt).1 := Daemon.conf_commit
  rcases Daemon.pending_commit t.daemon env id configOpt with
    ⟨hpend, _⟩ | ⟨_, _, _, commitId, hpend⟩
  · rw [handle_of_pending_eq_nil (hpend.trans hp), hconf]
    exact ⟨Configurator.not_committable_commit, fun x hx => Configurator.bucket?_commit_of_ne hx⟩
  · rw [hp, List.nil_append] at hpend
    have hw : (t.daemon.step (.commit env id configOpt)).waiting t.daemon.nextTicket =
        some ⟨t.daemon.nextTicket, id, commitId⟩ := by simp [Daemon.waiting, hpend]
    -- The hooks complete before the next event; either way nothing can be committed.
    simp only [handle, hpend, Daemon.conf_complete hw, hconf]
    split
    · exact ⟨Configurator.not_committable_commit, fun x hx => Configurator.bucket?_commit_of_ne hx⟩
    · refine ⟨Configurator.not_committable_drop, fun x hx => ?_⟩
      rw [Configurator.bucket?_drop, if_neg hx, Configurator.bucket?_commit_of_ne hx]

theorem AllOrNothing.commit (h : t.AllOrNothing) (hp : t.daemon.pending = []) :
    (t.step (.commit env id configOpt, r)).AllOrNothing := by
  rw [allOrNothing_iff] at h ⊢
  intro x hc
  obtain ⟨hself, hothers⟩ :=
    conf_handle_commit hp env id configOpt r
  by_cases hx : x = id
  · subst hx
    exact absurd hc hself
  · have hb := hothers x hx
    simp only [step, ackedAfter, Function.update_of_ne hx]
    rw [← h x ((Configurator.committable_congr hb).1 hc)]
    simp only [LockedConfigPairMap.staged, LockedConfigPairMap.getBucket, hb]

/-- Behind a drop, nothing is acknowledged, and nothing staged. -/
theorem AllOrNothing.drop (h : t.AllOrNothing) (hp : t.daemon.pending = []) :
    (t.step (.drop id, r)).AllOrNothing := by
  have hhandle : handle t.daemon (.drop id) r = t.daemon.step (.drop id) :=
    handle_of_pending_eq_nil hp
  rw [allOrNothing_iff] at h ⊢
  simp only [step, hhandle, ackedAfter, Daemon.step, Configurator.staged_drop]
  intro x hc
  by_cases hx : x = id
  · subst hx
    exact absurd hc Configurator.not_committable_drop
  · rw [if_neg hx, Function.update_of_ne hx]
    refine h x ((Configurator.committable_congr ?_).1 hc)
    rw [Configurator.bucket?_drop, if_neg hx]

/-- Between events, no hooks are running. -/
theorem pending_step (hp : t.daemon.pending = []) : (t.step (e, r)).daemon.pending = [] := by
  obtain ⟨id, items, hs⟩ | ⟨id, rfl⟩ | ⟨env, id, configOpt, rfl⟩ | ⟨ticket, result, rfl⟩ :=
    Daemon.event_cases t.daemon.conf e
  · have hstep := Daemon.step_of_staging hs
    rw [step, handle_of_pending_eq_nil (by rw [hstep]; exact hp), hstep]
    exact hp
  · have hdrop : (t.daemon.step (.drop id)).pending = [] := hp
    rw [step, handle_of_pending_eq_nil hdrop, hdrop]
  · rcases Daemon.pending_commit t.daemon env id configOpt with
      ⟨hpend, _⟩ | ⟨_, _, _, commitId, hpend⟩
    · rw [step, handle_of_pending_eq_nil (hpend.trans hp), hpend, hp]
    · rw [hp, List.nil_append] at hpend
      have hw : (t.daemon.step (.commit env id configOpt)).waiting t.daemon.nextTicket =
          some ⟨t.daemon.nextTicket, id, commitId⟩ := by simp [Daemon.waiting, hpend]
      simp only [step, handle, hpend, Daemon.pending_complete hw]
      simp
  · have hw : t.daemon.waiting ticket = none := by simp [Daemon.waiting, hp]
    rw [step, handle_of_pending_eq_nil (by rw [Daemon.step_complete_of_none hw]; exact hp),
      Daemon.step_complete_of_none hw]
    exact hp

theorem AllOrNothing.step_iff (h : t.AllOrNothing) (hp : t.daemon.pending = []) :
    (t.step (e, r)).AllOrNothing ↔ t.OpensFirst (e, r) := by
  obtain ⟨id, items, hs⟩ | ⟨id, rfl⟩ | ⟨env, id, configOpt, rfl⟩ | ⟨ticket, result, rfl⟩ :=
    Daemon.event_cases t.daemon.conf e
  · exact h.staging hp hs
  · exact iff_of_true (h.drop hp) nofun
  · exact iff_of_true (h.commit hp) nofun
  · have hw : t.daemon.waiting ticket = none := by simp [Daemon.waiting, hp]
    have hhandle : handle t.daemon (.complete ticket result) r = t.daemon := by
      rw [handle_of_pending_eq_nil (by rw [Daemon.step_complete_of_none hw]; exact hp),
        Daemon.step_complete_of_none hw]
    refine iff_of_true ?_ nofun
    rw [step, hhandle]
    exact h

/-- Where hooks complete at once, every commit applies all that was acknowledged since the
    last commit or drop of its client or nothing, in all states of a run, if and only if no
    client in it opens a bucket in the middle of a transaction. -/
theorem always_allOrNothing_iff (conf : Configurator) (es : List (Event × HookResult)) :
    Always step AllOrNothing (start conf) es ↔ Guarded step OpensFirst (start conf) es :=
  always_iff_guarded (J := fun t => t.daemon.pending = []) rfl (fun _ _ hp => pending_step hp)
    (allOrNothing_iff.2 fun _ _ => rfl) fun _ _ hp h => h.step_iff hp

/-- A client sets two pairs. In between its bucket is aged out by two other clients. -/
def agedOut : List (Event × HookResult) :=
  [(.set (.ofInt32 "net.mtu" 1) 1, .value), (.set (.ofInt32 "log.level" 2) 2, .value),
    (.set (.ofInt32 "log.size" 3) 3, .value), (.set (.ofInt32 "net.vlan" 4) 1, .value)]

theorem not_always_allOrNothing :
    ¬Always step AllOrNothing (start (Daemon.onEmpty 2).conf) agedOut := by
  intro h
  have hall := allOrNothing_iff.1 h.last 1 (by decide)
  exact absurd hall (by decide)

end Transaction

end SysAdmin
