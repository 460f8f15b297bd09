import SysAdmin.ClientCalls

/-!
# Rollbacks

A rollback stages the former pairs of a commit in a bucket of its own, that of the id
`TRANSACTION_HISTORY_ID`, and commits it. It does not look at what staging a pair
answers, and clients may use its bucket, too.

* `Daemon.restored_iff`: when a rollback that completes successfully has restored the
  former values. It has not if its bucket was locked by an earlier rollback, or
  if the type of a stored value has changed;
* `Daemon.rollback_framed`: a rollback changes nothing but the keys of the commit and
  their copies in `last.*`, and takes nothing away but the oldest bucket, where there
  are too many. This is so as long as no client uses the bucket of the rollbacks.
-/

namespace SysAdmin

open Machine Writes Configurator
open TransactionManager (TRANSACTION_HISTORY_ID)

namespace Configurator

variable {c : Configurator} {env : Environment} {id x : ClientId} {items : ConfigPairList}
  {commit : CommitHistory} {d : ConfigDelta} {ds : List ConfigDelta} {k : ConfigKey}
  {commitId : CommitId} {configOpt : CommitConfig}

/-! ## What is staged -/

/-- The rollback stages a former pair: the erasing of a key always, a value if it has
    the type of the stored one and the bucket is not locked. -/
def restages (c : Configurator) (p : ConfigPair) : Bool :=
  p.value.empty ||
    (c.systemStore.typeCheck p && !c.inFlightItems.isBucketLocked TRANSACTION_HISTORY_ID)

/-- The former pairs of a commit that a rollback stages. -/
def restoreItems (c : Configurator) (ds : List ConfigDelta) : ConfigPairList :=
  (ds.map Prod.fst).filter c.restages

theorem restages_stage :
    (c.stage TRANSACTION_HISTORY_ID items).restages = c.restages := by
  funext p
  rw [restages, isBucketLocked_stage_self]
  rfl

theorem restoreItem_eq (hk : d.1.key.isWildcard = false) : c.restoreItem d =
    c.stage TRANSACTION_HISTORY_ID (if c.restages d.1 then [d.1] else []) := by
  rw [restoreItem]
  split
  · next hempty =>
    have hd : d.1 = .ofKey d.1.key := by
      rw [ConfigPair.ofKey, ← ConfigValue.eq_none_of_empty hempty]
    rw [erase_eq, eraseItems, LockedConfigPairMap.erasedKeys, hk]
    simp [restages, hempty, ← hd]
  · next hempty =>
    have hiff : (c.set d.1 TRANSACTION_HISTORY_ID).2.accepted = c.restages d.1 := by
      rw [Bool.eq_iff_iff, accepted_set]
      simp [restages, hempty]
    rw [set_fst, setItems, hiff]

/-- A rollback stages some of the former pairs, all at once. -/
theorem foldl_restoreItem (hk : ∀ d ∈ ds, d.1.key.isWildcard = false) :
    ds.foldl restoreItem c = c.stage TRANSACTION_HISTORY_ID (c.restoreItems ds) := by
  induction ds generalizing c with
  | nil => rfl
  | cons d ds ih =>
    rw [List.foldl_cons, ih fun d' hd' => hk d' (List.mem_cons_of_mem _ hd'),
      restoreItem_eq (hk d List.mem_cons_self), stage_stage, restoreItems, restages_stage,
      restoreItems, List.map_cons]
    split
    · next h => rw [List.filter_cons_of_pos h, List.singleton_append]
    · next h => rw [List.filter_cons_of_neg h, List.nil_append]

/-- The commit of a rollback, with the former pairs it has staged. -/
def rollbackCommit (c : Configurator) (env : Environment) (ds : List ConfigDelta) :
    Configurator × CommitOutcome :=
  (c.stage TRANSACTION_HISTORY_ID (c.restoreItems ds)).commit env TRANSACTION_HISTORY_ID .default

/-- All that a rollback can do: fail without a trace, or commit what it has staged. -/
theorem rollback_cases (hw : c.WellKeyed) (env : Environment) (commitId : CommitId) :
    ((c.rollback env commitId).1 = c ∧ ∀ outcome, (c.rollback env commitId).2 ≠ .commit outcome) ∨
    ∃ commit, c.commitHistory.commitHistory.getCommit commitId = some commit ∧ commit.WellKeyed ∧
      c.rollback env commitId = ((c.rollbackCommit env commit.items).1,
        .commit (c.rollbackCommit env commit.items).2) := by
  rw [rollback]
  rcases hget : c.commitHistory.commitHistory.getCommit commitId with _ | commit
  · exact .inl ⟨rfl, by simp⟩
  · dsimp only
    rcases c.commitHistory.canRollback commit with _ | _ | _
    · exact .inl ⟨rfl, by simp⟩
    · exact .inl ⟨rfl, by simp⟩
    · have hcommit := hw.logged commit (AllCommitHistories.mem_of_getCommit hget).1
      have hk : ∀ d ∈ commit.items, d.1.key.isWildcard = false := fun d hd => by
        rw [hcommit.key_eq d hd]
        exact (hcommit.plain d hd).not_wildcard
      rw [foldl_restoreItem hk]
      exact .inr ⟨commit, rfl, hcommit, rfl⟩

theorem mem_restoreItems {p : ConfigPair} :
    p ∈ c.restoreItems ds ↔ (∃ d ∈ ds, d.1 = p) ∧ c.restages p = true := by
  simp [restoreItems]

theorem WellKeyed.stage_restoreItems (hw : c.WellKeyed) (hcommit : commit.WellKeyed) :
    (c.stage TRANSACTION_HISTORY_ID (c.restoreItems commit.items)).WellKeyed := by
  refine hw.stage fun p hp => ?_
  obtain ⟨⟨d, hd, rfl⟩, _⟩ := mem_restoreItems.1 hp
  rw [hcommit.key_eq d hd]
  exact hcommit.plain d hd

/-- The former pair of a key is the only one staged for it. -/
theorem lastItem_restoreItems (hcommit : commit.WellKeyed) (hd : d ∈ commit.items) :
    lastItem d.1.key (c.restoreItems commit.items) = if c.restages d.1 then some d.1 else none := by
  have hkeys : (commit.items.map fun d => d.1.key) = commit.items.map fun d => d.2.key :=
    List.map_congr_left hcommit.key_eq
  have hnodup : ((commit.items.map Prod.fst).map ConfigPair.key).Nodup := by
    rw [List.map_map,
      show ConfigPair.key ∘ Prod.fst = fun d : ConfigDelta => d.1.key from rfl, hkeys]
    exact hcommit.nodup
  split
  · next hr =>
    have hmem : d.1 ∈ c.restoreItems commit.items := mem_restoreItems.2 ⟨⟨d, hd, rfl⟩, hr⟩
    refine lastWrite_of_mem ?_ (List.mem_map.2 ⟨d.1, hmem, rfl⟩)
    rw [List.map_map]
    exact hnodup.sublist (List.filter_sublist.map _)
  · next hr =>
    refine lastItem_eq_none_iff.2 fun p hp hpk => ?_
    obtain ⟨⟨d', hd', rfl⟩, hr'⟩ := mem_restoreItems.1 hp
    have heq := List.inj_on_of_nodup_map hnodup (List.mem_map_of_mem hd')
      (List.mem_map_of_mem hd) hpk
    exact hr (heq ▸ hr')

/-! ## What is committed -/

/-- Outside `last.*`, a commit writes the items of the bucket. -/
theorem WellKeyed.store_commit (hw : c.WellKeyed) (hk : k.inLast = false) :
    (c.commit env id configOpt).1.store k =
      if c.Committable id ∧ (c.logged env id).2 ≠ none then
        Writes.overlay (c.inFlightItems.staged id).writes c.store k
      else c.store k := by
  rw [Configurator.store_commit]
  split
  · rw [overlay_apply, overlay_apply, lastWrite_writes, lastWrite_writes,
      lastItem_toApply (fun p hp => (hw.plain_staged p hp).nonempty) hk]
  · rfl

theorem logged_of_committable (hc : c.Committable id)
    (h : (c.commit env id configOpt).2 ≠ .threw) : (c.logged env id).2 ≠ none := by
  obtain ⟨hn, _⟩ | ⟨_, _, hcommit⟩ | ⟨_, commitId, hl, _⟩ := commit_cases c env id configOpt
  · exact absurd hc hn
  · rw [hcommit] at h
    exact absurd rfl h
  · simp [hl]

/-- Whether there is a bucket to commit or not: if it is not locked, its items are
    written, unless the commit throws. -/
theorem WellKeyed.store_commit_of_not_locked (hw : c.WellKeyed) (hk : k.inLast = false)
    (hl : c.inFlightItems.isBucketLocked id = false) (h : (c.commit env id configOpt).2 ≠ .threw) :
    (c.commit env id configOpt).1.store k =
      Writes.overlay (c.inFlightItems.staged id).writes c.store k := by
  rw [hw.store_commit hk]
  split
  · rfl
  · next hc =>
    have hn : ¬c.Committable id := fun hcm => hc ⟨hcm, logged_of_committable hcm h⟩
    have hnone : c.inFlightItems.bucket? id = none := by
      rcases hb : c.inFlightItems.bucket? id with _ | l
      · rfl
      · exact absurd ⟨by simp [LockedConfigPairMap.exists, hb], hl⟩ hn
    rw [LockedConfigPairMap.staged_of_none hnone]
    rfl

/-- The former values are stored. -/
def Restored (c : Configurator) (commit : CommitHistory) : Prop :=
  ∀ d ∈ commit.items, c.store d.1.key = d.1.value.toOption

/-- A former pair is restored: if the bucket of the rollbacks is locked, it has to be
    stored already. Otherwise the key is to be erased, or the value has the type of the
    stored one, or the bucket holds the same for the key already. -/
def RestorableItem (c : Configurator) (p : ConfigPair) : Prop :=
  if c.inFlightItems.isBucketLocked TRANSACTION_HISTORY_ID then c.store p.key = p.value.toOption
  else p.value.empty = true ∨ c.systemStore.typeCheck p = true ∨
    ∃ q, lastItem p.key (c.inFlightItems.staged TRANSACTION_HISTORY_ID) = some q ∧
      q.value.toOption = p.value.toOption

/-- All former pairs of a commit are restored. -/
def Restorable (c : Configurator) (commit : CommitHistory) : Prop :=
  ∀ d ∈ commit.items, c.RestorableItem d.1

/-- A value that is not set, since a value of another type is stored, is only written
    if the bucket holds it already. -/
theorem overlay_of_not_restages (hcommit : commit.WellKeyed) (hd : d ∈ commit.items)
    (hl : c.inFlightItems.isBucketLocked TRANSACTION_HISTORY_ID = false)
    (hr : c.restages d.1 = false) :
    ((lastItem d.1.key (c.inFlightItems.staged TRANSACTION_HISTORY_ID)).map fun p =>
        p.value.toOption).getD (c.store d.1.key) = d.1.value.toOption ↔
      ∃ q, lastItem d.1.key (c.inFlightItems.staged TRANSACTION_HISTORY_ID) = some q ∧
        q.value.toOption = d.1.value.toOption := by
  rcases lastItem d.1.key (c.inFlightItems.staged TRANSACTION_HISTORY_ID) with _ | q
  · have hplain : d.1.key.isWildcard = false := by
      rw [hcommit.key_eq d hd]
      exact (hcommit.plain d hd).not_wildcard
    simp only [restages, hl, Bool.or_eq_false_iff, Bool.not_false, Bool.and_true] at hr
    refine iff_of_false (fun hstore => ?_) (by simp)
    -- A stored value equal to the former one has its type, so it would have been set.
    have htype : c.systemStore.typeCheck d.1 = true := by
      refine (MemoryCache.typeCheck_iff hplain).2 fun v hv => ?_
      have hstore : c.systemStore.store d.1.key = d.1.value.toOption := hstore
      rw [hv, ConfigValue.toOption_of_not_empty hr.1] at hstore
      rw [Option.some.inj hstore]
      simp [ConfigValue.typeCheck]
    rw [htype] at hr
    cases hr.2
  · simp

/-- The rollback leaves the former value of a key exactly if the pair is restorable. -/
theorem WellKeyed.store_rollback_iff (hw : c.WellKeyed) (hcommit : commit.WellKeyed)
    (hd : d ∈ commit.items) (h : (c.rollbackCommit env commit.items).2 ≠ .threw) :
    (c.rollbackCommit env commit.items).1.store d.1.key = d.1.value.toOption ↔
      c.RestorableItem d.1 := by
  have hk : d.1.key.inLast = false := by
    rw [hcommit.key_eq d hd]
    exact hcommit.not_last d hd
  have hw' := hw.stage_restoreItems hcommit
  rw [RestorableItem]
  rw [rollbackCommit] at h ⊢
  cases hl : c.inFlightItems.isBucketLocked TRANSACTION_HISTORY_ID with
  | true =>
    -- The commit is refused, so the store stays as it is.
    have hn : ¬(c.stage TRANSACTION_HISTORY_ID (c.restoreItems commit.items)).Committable
        TRANSACTION_HISTORY_ID := fun hc => by
      have := hc.2
      rw [isBucketLocked_stage_self, hl] at this
      cases this
    rw [hw'.store_commit hk, if_neg fun hc => hn hc.1]
    rfl
  | false =>
    -- The former pairs come behind what the bucket holds already.
    have hstaged : (c.stage TRANSACTION_HISTORY_ID
        (c.restoreItems commit.items)).inFlightItems.staged TRANSACTION_HISTORY_ID =
          c.inFlightItems.staged TRANSACTION_HISTORY_ID ++ c.restoreItems commit.items :=
      LockedConfigPairMap.staged_insertAll_self
    rw [hw'.store_commit_of_not_locked hk (by rw [isBucketLocked_stage_self, hl]) h, hstaged,
      overlay_apply, lastWrite_writes, lastItem_append, lastItem_restoreItems hcommit hd,
      store_stage]
    cases hr : c.restages d.1 with
    | true =>
      -- The pair is staged, as the last one for its key.
      refine iff_of_true (by simp) ?_
      simp only [restages, hl, Bool.not_false, Bool.and_true, Bool.or_eq_true] at hr
      rcases hr with hr | hr
      · exact .inl hr
      · exact .inr (.inl hr)
    | false =>
      rw [if_neg (by simp), Option.none_or, overlay_of_not_restages hcommit hd hl hr]
      simp only [restages, hl, Bool.not_false, Bool.and_true, Bool.or_eq_false_iff] at hr
      simp [hr.1, hr.2]

/-! ## What else changes -/

/-- The item writes the value to the key, or saves the stored value of its own key there. -/
def WritesTo (c : Configurator) (p : ConfigPair) (k : ConfigKey) (v : Option ConfigValue) : Prop :=
  k = p.key ∧ v = p.value.toOption ∨ k = p.key.lastKey ∧ v = c.store p.key

/-- A commit changes the keys of its items and their copies in `last.*`. -/
theorem WellKeyed.writesTo_of_commit (hw : c.WellKeyed)
    (h : (c.commit env id configOpt).1.store k ≠ c.store k) : c.Committable id ∧
      ∃ p ∈ c.inFlightItems.staged id, c.WritesTo p k ((c.commit env id configOpt).1.store k) := by
  rw [Configurator.store_commit] at h ⊢
  split at h
  · next hc =>
    rw [if_pos hc]
    refine ⟨hc.1, ?_⟩
    rw [overlay_apply, lastWrite_writes] at h ⊢
    rcases hl : lastItem k (c.toApply id) with _ | p
    · rw [hl] at h
      exact absurd rfl h
    · obtain ⟨hp, rfl⟩ := mem_of_lastItem hl
      rcases List.mem_append.1 hp with hp | hp
      · exact ⟨p, hp, .inl ⟨rfl, rfl⟩⟩
      · -- It is the copy of an old value, at the key of `last.*`.
        obtain ⟨item, hitem, hold⟩ := List.mem_filterMap.1 hp
        refine ⟨item, hitem, .inr ?_⟩
        rw [oldItem_eq (hw.plain_staged item hitem)] at hold
        split at hold
        · cases hold
        · cases hold
          refine ⟨rfl, ?_⟩
          rcases hv : c.store item.key with _ | v
          · rfl
          · exact ConfigValue.toOption_of_not_empty (MemoryCache.not_empty_of_store hv)
  · exact absurd rfl h

end Configurator

namespace Daemon

variable {s : Daemon} {e : Event} {c : Command} {cs : List Command} {env : Environment}
  {r : CommitId} {commit : CommitHistory}

theorem conf_rollback : (s.rollback env r).conf = (s.conf.rollback env r).1 := by
  rw [rollback]
  rcases s.conf.rollback env r with ⟨c, _ | _ | (_ | _ | _)⟩ <;> rfl

/-! ## Completion -/

/-- The event is not a commit that takes place. -/
def Idle (s : Daemon) : Event → Prop
  | .commit _ id _ => ¬s.conf.Committable id
  | .set .. | .erase .. | .drop _ | .complete .. => True

/-- No commit takes place in a command. -/
def IdleCommand (s : Daemon) (c : Command) : Prop := Guarded step Idle s (c.events s.conf)

/-- The commands that follow the rollback complete it with a value. A rollback that runs
    no hooks has completed at once. -/
def Completes (s : Daemon) (env : Environment) (r : CommitId) (cs : List Command) : Prop :=
  match (s.conf.rollback env r).2 with
  | .commit (.ready _) => cs = []
  | .commit (.hooks ..) => ∃ cs', cs = cs' ++ [.event (.complete s.nextTicket .value)] ∧
      (run handle (s.rollback env r) cs').waiting s.nextTicket ≠ none
  | .commit .threw | .rollbackError _ | .diverges => False

theorem store_step_of_idle (h : s.Idle e) : (s.step e).conf.store = s.conf.store := by
  cases e with
  | set item id =>
    rw [step, set_fst]
    exact store_stage
  | erase key id => exact store_stage
  | drop id => exact store_drop
  | commit env id configOpt => rw [conf_commit, store_commit, if_neg fun hc => h hc.1]
  | complete t result =>
    obtain hconf | ⟨clientId, hconf⟩ := s.conf_complete_cases t result
    · rw [hconf]
    · rw [hconf]
      exact store_drop

/-- Only commits change the store. -/
theorem store_run_of_idle (h : Guarded handle IdleCommand s cs) :
    (run handle s cs).conf.store = s.conf.store := by
  refine (Always.of_step handle (I := fun s' => s'.conf.store = s.conf.store) rfl
    (fun s' c hs' hc => ?_) h).last
  rw [handle_eq_run]
  exact (Always.of_step step (I := fun s' => s'.conf.store = s.conf.store) hs'
    (fun _ _ hs' he => (store_step_of_idle he).trans hs') hc).last

/-- When a rollback completes successfully, and no commit has taken place since it was made,
    the former values of the commit are stored exactly if it was restorable at the start. -/
theorem restored_iff (hs : s.Reached)
    (hget : s.conf.commitHistory.commitHistory.getCommit r = some commit)
    (hcompletes : s.Completes env r cs) (hidle : Guarded handle IdleCommand (s.rollback env r) cs) :
    (run handle (s.rollback env r) cs).conf.Restored commit ↔ s.conf.Restorable commit := by
  have hw := hs.wellKeyed
  obtain ⟨_, hfails⟩ | ⟨commit', hget', hcommit, hrollback⟩ := rollback_cases hw env r
  · unfold Completes at hcompletes
    split at hcompletes
    · next h => exact absurd h (hfails _)
    · next h => exact absurd h (hfails _)
    · exact hcompletes.elim
    · exact hcompletes.elim
    · exact hcompletes.elim
  · obtain rfl : commit' = commit := Option.some.inj (hget'.symm.trans hget)
    have hthrew : (s.conf.rollbackCommit env commit'.items).2 ≠ .threw := fun hthrew => by
      rw [Completes, hrollback, hthrew] at hcompletes
      exact hcompletes
    refine forall₂_congr fun d hd => ?_
    rw [store_run_of_idle hidle, conf_rollback, hrollback, hw.store_rollback_iff hcommit hd hthrew]

/-- Two keys are set and committed, one after the other. -/
def commitTwoKeys : Daemon :=
  run handle (onEmpty 100)
    [.event (.set (.ofInt32 "net.mtu" 1) 1), .event (.commit ⟨0, true⟩ 1 .noHooks),
      .event (.set (.ofInt32 "net.vlan" 2) 1), .event (.commit ⟨0, true⟩ 1 .noHooks)]

theorem reached_commitTwoKeys : commitTwoKeys.Reached := reached_run (by decide)

theorem isSome_getCommit_commitTwoKeys :
    (commitTwoKeys.conf.commitHistory.commitHistory.getCommit 2).isSome = true := by decide

theorem restored_iff_commitTwoKeys :
    (run handle (commitTwoKeys.rollback ⟨0, true⟩ 2) [.event (.complete 0 .value)]).conf.Restored
        ((commitTwoKeys.conf.commitHistory.commitHistory.getCommit 2).get
          isSome_getCommit_commitTwoKeys) ↔
      commitTwoKeys.conf.Restorable
        ((commitTwoKeys.conf.commitHistory.commitHistory.getCommit 2).get
          isSome_getCommit_commitTwoKeys) :=
  restored_iff reached_commitTwoKeys (Option.some_get _).symm ⟨[], rfl, by decide⟩
    ⟨⟨trivial, trivial⟩, trivial⟩

/-- The second commit is rolled back while the hooks of the rollback of the first one
    are running. -/
def rollbackFirst : Daemon := commitTwoKeys.handle (.rollback ⟨0, true⟩ 1)

theorem isSome_getCommit_rollbackFirst :
    (rollbackFirst.conf.commitHistory.commitHistory.getCommit 2).isSome = true := by decide

theorem not_forall_restored : ¬∀ (s : Daemon) (env : Environment) (r : CommitId)
    (commit : CommitHistory) (cs : List Command), s.Reached →
      s.conf.commitHistory.commitHistory.getCommit r = some commit → s.Completes env r cs →
        Guarded handle IdleCommand (s.rollback env r) cs →
          (run handle (s.rollback env r) cs).conf.Restored commit := by
  intro h
  have hrestored := h rollbackFirst ⟨0, true⟩ 2 _ [] (.step reached_commitTwoKeys trivial)
    (Option.some_get isSome_getCommit_rollbackFirst).symm rfl trivial
  revert hrestored
  rw [Restored]
  decide

/-! ## What a rollback leaves alone -/

/-- Every waiting commit has a ticket that has been handed out. -/
def TicketsUsed (s : Daemon) : Prop := ∀ p ∈ s.pending, p.ticket < s.nextTicket

/-- The ticket has been handed out, and only the client can wait under it. -/
def TicketOf (s : Daemon) (t : Nat) (id : ClientId) : Prop :=
  t < s.nextTicket ∧ ∀ p ∈ s.pending, p.ticket = t → p.clientId = id

/-- An event hands out at most the next ticket. -/
theorem pending_step (s : Daemon) (e : Event) :
    (s.step e).pending ⊆ s.pending ∧ (s.step e).nextTicket = s.nextTicket ∨
      ∃ id commitId, (s.step e).pending = s.pending ++ [⟨s.nextTicket, id, commitId⟩] ∧
        (s.step e).nextTicket = s.nextTicket + 1 := by
  cases e with
  | set item id => exact .inl ⟨List.Subset.refl _, rfl⟩
  | erase key id => exact .inl ⟨List.Subset.refl _, rfl⟩
  | drop id => exact .inl ⟨List.Subset.refl _, rfl⟩
  | commit env id configOpt =>
    rw [step]
    rcases s.conf.commit env id configOpt with ⟨c, _ | _ | _⟩
    · exact .inl ⟨List.Subset.refl _, rfl⟩
    · exact .inl ⟨List.Subset.refl _, rfl⟩
    · exact .inr ⟨id, _, rfl, rfl⟩
  | complete t result =>
    rw [step]
    split
    · exact .inl ⟨List.Subset.refl _, rfl⟩
    · exact .inl ⟨List.erase_subset, rfl⟩

theorem TicketsUsed.step (h : s.TicketsUsed) : (s.step e).TicketsUsed := by
  obtain ⟨hp, ht⟩ | ⟨id, commitId, hp, ht⟩ := pending_step s e
  · intro p hmem
    rw [ht]
    exact h p (hp hmem)
  · intro p hmem
    rw [hp, List.mem_append, List.mem_singleton] at hmem
    rw [ht]
    rcases hmem with hmem | rfl
    · exact (h p hmem).trans (Nat.lt_succ_self _)
    · exact Nat.lt_succ_self _

theorem TicketOf.step {t : Nat} {id : ClientId} (h : s.TicketOf t id) :
    (s.step e).TicketOf t id := by
  obtain ⟨hp, ht⟩ | ⟨id', commitId, hp, ht⟩ := pending_step s e
  · exact ⟨ht ▸ h.1, fun p hmem => h.2 p (hp hmem)⟩
  · -- A commit that has just begun to wait has a later ticket.
    refine ⟨ht ▸ h.1.trans (Nat.lt_succ_self _), fun p hmem hpt => ?_⟩
    rw [hp, List.mem_append, List.mem_singleton] at hmem
    rcases hmem with hmem | rfl
    · exact h.2 p hmem hpt
    · exact absurd hpt h.1.ne'

theorem Reached.ticketsUsed (h : s.Reached) : s.TicketsUsed := by
  refine Reachable.invariant (I := TicketsUsed) ?_ (fun s c hs _ => ?_) h
  · rintro s ⟨conf, _, rfl⟩
    exact nofun
  · rw [handle_eq_run]
    exact (Always.of_step step (G := fun _ _ => True) hs (fun _ _ hs _ => hs.step)
      (guarded_of_forall fun _ _ => trivial)).last

theorem TicketOf.run {t : Nat} {id : ClientId} (h : s.TicketOf t id) :
    (run handle s cs).TicketOf t id := by
  refine (Always.of_step handle (I := fun s => s.TicketOf t id) (G := fun _ _ => True) h
    (fun s c hs _ => ?_) (guarded_of_forall fun _ _ => trivial)).last
  rw [handle_eq_run]
  exact (Always.of_step Daemon.step (I := fun s => s.TicketOf t id) (G := fun _ _ => True) hs
    (fun _ _ hs _ => hs.step) (guarded_of_forall fun _ _ => trivial)).last

/-- The hooks of a rollback run under the next ticket, for the bucket of the rollbacks. -/
theorem ticketOf_rollback (hs : s.TicketsUsed) {changed : ConfigPairList} {runServices : Bool}
    {commitId : CommitId}
    (h : (s.conf.rollback env r).2 = .commit (.hooks changed runServices commitId)) :
    (s.rollback env r).TicketOf s.nextTicket TRANSACTION_HISTORY_ID := by
  rw [rollback]
  rcases hr : s.conf.rollback env r with ⟨c, outcome⟩
  rw [hr] at h
  obtain rfl : outcome = .commit (.hooks changed runServices commitId) := h
  refine ⟨Nat.lt_succ_self _, fun p hp hpt => ?_⟩
  rcases List.mem_append.1 hp with hp | hp
  · exact absurd hpt (hs p hp).ne
  · rw [List.mem_singleton.1 hp]

/-- What a rollback leaves alone, to the completion of its hooks. -/
structure Framed (s : Daemon) (env : Environment) (r : CommitId) : Prop where
  /-- A key that changes is one of the commit, or the copy of one. Items in an open
      bucket of the rollbacks are committed, too. -/
  store : ∀ k, (s.rollback env r).conf.store k ≠ s.conf.store k →
    (∃ commit, s.conf.commitHistory.commitHistory.getCommit r = some commit ∧
      ∃ d ∈ commit.items, s.conf.WritesTo d.1 k ((s.rollback env r).conf.store k)) ∨
    s.conf.Committable TRANSACTION_HISTORY_ID ∧
      ∃ p ∈ s.conf.inFlightItems.staged TRANSACTION_HISTORY_ID,
        s.conf.WritesTo p k ((s.rollback env r).conf.store k)
  /-- The other buckets stay, but for the oldest one of a full table, when there is no
      bucket of the rollbacks yet. -/
  bucket : ∀ x ≠ TRANSACTION_HISTORY_ID,
    (s.rollback env r).conf.inFlightItems.bucket? x = s.conf.inFlightItems.bucket? x ∨
      (s.rollback env r).conf.inFlightItems.bucket? x = none ∧
        s.conf.inFlightItems.bucket? TRANSACTION_HISTORY_ID = none ∧
          s.conf.inFlightItems.victim = some x
  /-- When the hooks complete, whatever has happened since, the store and the other
      buckets stay. -/
  completed : ∀ changed runServices commitId,
    (s.conf.rollback env r).2 = .commit (.hooks changed runServices commitId) →
      ∀ cs result, let s' := run handle (s.rollback env r) cs
        (s'.step (.complete s.nextTicket result)).conf.store = s'.conf.store ∧
          ∀ x ≠ TRANSACTION_HISTORY_ID,
            (s'.step (.complete s.nextTicket result)).conf.inFlightItems.bucket? x =
              s'.conf.inFlightItems.bucket? x

theorem completed_of_ticketOf {t : Nat} {id : ClientId} (h : s.TicketOf t id)
    (result : HookResult) :
    (s.step (.complete t result)).conf.store = s.conf.store ∧ ∀ x ≠ id,
      (s.step (.complete t result)).conf.inFlightItems.bucket? x =
        s.conf.inFlightItems.bucket? x := by
  refine ⟨store_step_of_idle trivial, fun x hx => ?_⟩
  rcases hw : s.waiting t with _ | p
  · rw [step_complete_of_none hw]
  · have hid : p.clientId = id := h.2 p (mem_of_waiting hw) (ticket_of_waiting hw)
    rw [conf_complete hw]
    split
    · rfl
    · rw [bucket?_drop, hid, if_neg hx]

theorem rollback_framed (hs : s.Reached) (env : Environment) (r : CommitId) : s.Framed env r := by
  have hw := hs.wellKeyed
  refine ⟨fun k hk => ?_, fun x hx => ?_, fun changed runServices commitId h cs result =>
    completed_of_ticketOf (ticketOf_rollback hs.ticketsUsed h).run result⟩
  · rw [conf_rollback] at hk ⊢
    obtain ⟨hconf, _⟩ | ⟨commit, hget, hcommit, hrollback⟩ := rollback_cases hw env r
    · rw [hconf] at hk
      exact absurd rfl hk
    · rw [hrollback, rollbackCommit] at hk
      rw [hrollback, rollbackCommit]
      obtain ⟨hc, p, hp, hwrites⟩ := (hw.stage_restoreItems hcommit).writesTo_of_commit hk
      rw [staged_stage, if_pos rfl] at hp
      rcases List.mem_append.1 hp with hp | hp
      · -- The pair was in the bucket of rollbacks before, which is open.
        refine .inr ⟨?_, p, hp, hwrites⟩
        obtain ⟨_, hl⟩ := hc
        rw [isBucketLocked_stage_self] at hl
        exact ⟨LockedConfigPairMap.exists_of_mem_staged hp, hl⟩
      · obtain ⟨⟨d, hd, rfl⟩, _⟩ := mem_restoreItems.1 hp
        exact .inl ⟨commit, hget, d, hd, hwrites⟩
  · rw [conf_rollback]
    obtain ⟨hconf, _⟩ | ⟨commit, _, _, hrollback⟩ := rollback_cases hw env r
    · rw [hconf]
      exact .inl rfl
    · rw [hrollback, rollbackCommit, bucket?_commit_of_ne hx, bucket?_stage_of_ne hx]
      split
      · next h => exact .inr ⟨rfl, h.1.2, h.2⟩
      · exact .inl rfl

theorem rollback_framed_commitTwoKeys : commitTwoKeys.Framed ⟨0, true⟩ 2 :=
  rollback_framed reached_commitTwoKeys _ _

/-- A client stages a pair in the bucket of the rollbacks. -/
def stageInHistoryBucket : Daemon :=
  commitTwoKeys.handle (.event (.set (.ofInt32 "net.ttl" 3) TRANSACTION_HISTORY_ID))

/-- A client stages a pair where there is room for one bucket. -/
def stageInFullTable : Daemon :=
  run handle (onEmpty 1)
    [.event (.set (.ofInt32 "net.mtu" 1) 1), .event (.commit ⟨0, true⟩ 1 .noHooks),
      .event (.set (.ofInt32 "net.vlan" 2) 1)]

theorem not_forall_framed :
    (¬∀ (s : Daemon) (env : Environment) (r : CommitId), s.Reached →
      ∀ k, (s.rollback env r).conf.store k ≠ s.conf.store k →
        ∃ commit, s.conf.commitHistory.commitHistory.getCommit r = some commit ∧
          ∃ d ∈ commit.items, k = d.1.key ∨ k = d.1.key.lastKey) ∧
    ¬∀ (s : Daemon) (env : Environment) (r : CommitId), s.Reached →
      ∀ x ≠ TRANSACTION_HISTORY_ID,
        (s.rollback env r).conf.inFlightItems.staged x = s.conf.inFlightItems.staged x := by
  constructor
  · intro h
    obtain ⟨commit, hget, d, hd, hk⟩ := h stageInHistoryBucket ⟨0, true⟩ 2
      (.step reached_commitTwoKeys (by decide)) (.ofString "net.ttl") (by decide)
    have hkeys : ∀ commit ∈ stageInHistoryBucket.conf.commitHistory.commitHistory.getCommit 2,
        ∀ d ∈ commit.items, ¬(ConfigKey.ofString "net.ttl" = d.1.key ∨
          ConfigKey.ofString "net.ttl" = d.1.key.lastKey) := by decide
    exact hkeys commit hget d hd hk
  · intro h
    have hstaged := h stageInFullTable ⟨0, true⟩ 1 (reached_run (by decide)) 1 (by decide)
    revert hstaged
    decide

end Daemon

end SysAdmin
