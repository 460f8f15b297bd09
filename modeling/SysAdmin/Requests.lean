import SysAdmin.KeyPaths
import SysAdmin.ProtobufTranslator

/-!
# Requests

What the daemon does with the commands that clients send, whatever is in them: keys are
any texts, and fields may be missing. `Daemon.serve` handles a command, or the completion
of hooks, up to the response.

Which pairs get where is a matter of the commands. For a predicate on the pairs that may be
staged and one on the pairs that may be stored, `PairRule` says what it takes for them to go
together, and `PairsIn` that they hold of a state. Commands keep this (`pairsIn_serve`) when
the pairs they stage are such pairs. For predicates on the keys alone, these are `KeyRule`,
`KeysIn` and `keysIn_serve`.
-/

namespace SysAdmin

open Machine Writes Configurator
open Sysadminctl (Payload)

namespace SysAdminController

/-- Whether setting a key is refused: it contains a wildcard, or is one of `last.*`. -/
def refusesKey (key : ConfigKey) : Bool := key.toString.toList.contains '*' || key.inLast

/-- The client in whose name a command is handled: its transaction id, if it has one. -/
def clientOf (m : Sysadminctl.Command) (clientId : ClientId) : ClientId :=
  (m.xid.map UInt32.toNat).getD clientId

end SysAdminController

open SysAdminController ProtobufTranslator

/-- A command that arrives over a connection, or the completion of hooks. -/
inductive RequestEvent
  | request (env : Environment) (clientId : ClientId) (m : Sysadminctl.Command)
  | complete (ticket : Nat) (result : HookResult)

namespace Daemon

/-- Handles a command to set a key. -/
def setHandler (s : Daemon) (clientId : ClientId) (key : String)
    (value : Option Sysadminctl.ConfigValue) : Daemon :=
  match translateToSet key value with
  | none => s
  | some pair => if refusesKey pair.key then s else s.step (.set pair clientId)

/-- Handles a command. A reset does not look at the transaction id. -/
def request (s : Daemon) (env : Environment) (clientId : ClientId) (m : Sysadminctl.Command) :
    Daemon :=
  match m.payload with
  | some (.set key value) => s.setHandler (clientOf m clientId) key value
  | some (.commit config) => s.step (.commit env (clientOf m clientId) (config.getD .default))
  | some .drop => s.step (.drop (clientOf m clientId))
  | some (.erase key) => s.step (.erase (.ofString key) (clientOf m clientId))
  | some (.rollback id) => s.rollback env id.toNat
  | some .reset => s.reset env clientId
  | some (.get _) | some .firehooks | some .dump | some (.trigger _) | some (.blame _)
  | some .inflight | none => s

/-- Handles a command or the completion of hooks. -/
def serve (s : Daemon) : RequestEvent → Daemon
  | .request env clientId m => s.request env clientId m
  | .complete ticket result => s.step (.complete ticket result)

end Daemon

/-! ## Commits -/

/-- A call of `commit`: the state in which it starts, and its arguments. -/
structure CommitCall where
  conf : Configurator
  env : Environment
  clientId : ClientId
  configOpt : CommitConfig

/-- The state when the call returns. -/
def CommitCall.after (call : CommitCall) : Configurator :=
  (call.conf.commit call.env call.clientId call.configOpt).1

namespace Configurator

variable {c : Configurator} {env : Environment} {id : ClientId} {commitId : CommitId}

/-- The commit a rollback makes, with the former pairs of the commit staged. -/
def rollbackCall (c : Configurator) (env : Environment) (commitId : CommitId) :
    Option CommitCall :=
  match c.commitHistory.commitHistory.getCommit commitId with
  | none => none
  | some commit =>
    if c.commitHistory.canRollback commit = some true then
      some ⟨commit.items.foldl restoreItem c, env, TransactionManager.TRANSACTION_HISTORY_ID,
        .default⟩
    else none

/-- The commit a reset makes, with the erasing of the keys and the defaults staged. -/
def resetCall (c : Configurator) (env : Environment) (clientId : ClientId) : Option CommitCall :=
  match setDefaults (c.erase (.ofString "*") clientId) clientId
    ((c.erase (.ofString "*") clientId).get (.ofString "default.*")).pairs with
  | (_, false) => none
  | (c, true) => some ⟨c, env, clientId, .default⟩

/-- A rollback makes its commit, or does nothing. -/
theorem rollback_fst :
    (c.rollback env commitId).1 = ((c.rollbackCall env commitId).map CommitCall.after).getD c := by
  rw [rollback, rollbackCall]
  rcases c.commitHistory.commitHistory.getCommit commitId with _ | commit
  · rfl
  · dsimp only
    rcases c.commitHistory.canRollback commit with _ | _ | _ <;> rfl

/-- A reset commits if all defaults can be set. -/
theorem resetCall_eq : c.resetCall env id =
    if ∀ kv ∈ c.defaults, (c.set (resetItem kv) id).2 = .success then
      some ⟨c.stage id c.resetItems, env, id, .default⟩
    else none := by
  have hdefaults : ((c.stage id (c.eraseItems (.ofString "*"))).get (.ofString "default.*")).pairs =
      c.defaults := rfl
  rw [resetCall, erase_eq, hdefaults]
  obtain ⟨hall, heq⟩ | ⟨hall, items, _, heq⟩ :=
    setDefaults_cases (c.stage id (c.eraseItems (.ofString "*"))) id c.defaults
  · simp only [set_stage_snd] at hall
    rw [heq, if_pos hall, stage_stage]
    rfl
  · simp only [set_stage_snd] at hall
    rw [heq, if_neg hall]

/-- A reset makes its commit, or drops what is staged. -/
theorem resetHandler_fst (c : Configurator) (env : Environment) (id : ClientId) :
    (∃ call, c.resetCall env id = some call ∧ (resetHandler c env id).1 = call.after) ∨
    c.resetCall env id = none ∧
      ∃ items, (resetHandler c env id).1 = (c.stage id items).drop id := by
  rw [resetCall_eq]
  obtain ⟨hall, hcommit⟩ | ⟨hall, items, hdrop⟩ := resetHandler_cases c env id
  · rw [if_pos hall, hcommit]
    exact .inl ⟨_, rfl, rfl⟩
  · rw [if_neg hall, hdrop]
    exact .inr ⟨rfl, items, rfl⟩

end Configurator

/-! ## Keys -/

namespace ConfigKey

variable {k : ConfigKey}

theorem not_wildcard_of_text (h : k.toString.toList.contains '*' = false) :
    k.isWildcard = false := by
  rw [isWildcard, List.contains_eq_mem, decide_eq_false_iff_not]
  intro hmem
  rw [← splitOn_toString (List.ne_nil_of_mem hmem), List.mem_map] at hmem
  obtain ⟨l, hl, hstar⟩ := hmem
  have hlist : l = ['*'] := by
    rw [← String.toList_ofList (l := l), hstar]
    rfl
  subst hlist
  have hmem := Path.subset_of_mem_splitOn hl List.mem_cons_self
  rw [List.contains_eq_mem, decide_eq_false_iff_not] at h
  exact h hmem

/-- A key that a client can name: it is read from a text, and it is no pattern. -/
structure Named (k : ConfigKey) : Prop where
  readable : k.Readable
  not_wildcard : k.isWildcard = false

theorem named_ofString {text : String} (h : (ofString text).isWildcard = false) :
    (ofString text).Named where
  readable := by
    rcases eq_or_ne text "" with rfl | htext
    · rw [Readable]
      decide
    · exact readable_ofString htext
  not_wildcard := h

theorem Named.lastKey (h : k.Named) : k.lastKey.Named := by
  refine named_ofString ?_
  by_cases hk : k.subKeys = []
  · have : k.toString = "" := by
      rw [toString, hk]
      rfl
    rw [this]
    decide
  · exact (Plain.lastKey ⟨hk, h.not_wildcard⟩).not_wildcard

theorem not_wildcard_tail (h : k.isWildcard = false) : k.tail.isWildcard = false := by
  rw [isWildcard, List.contains_eq_mem, decide_eq_false_iff_not] at h ⊢
  rw [tail]
  dsimp only
  split
  · exact fun hmem => h (List.mem_of_mem_tail hmem)
  · exact List.not_mem_nil

end ConfigKey

/-- The pairs that satisfy `P` may be staged, and those that satisfy `Q` stored. A pair that is
    staged brings others: the one of its key with the former value, which is logged, that of
    `last.*`, which saves the value, and that which erases the key again. -/
structure PairRule (P Q : ConfigPair → Prop) : Prop where
  not_wildcard : ∀ p, Q p → p.key.isWildcard = false
  store : ∀ p, P p → Q p
  logged : ∀ p v, P p → (v.empty = false → Q ⟨p.key, v⟩) → P ⟨p.key, v⟩
  last : ∀ p v, P p → (v.empty = false → Q ⟨p.key, v⟩) → Q ⟨p.key.lastKey, v⟩
  erase : ∀ p, Q p → p.key.inLast = false → p.key.inDefault = false → P ⟨p.key, .none⟩

/-- The same for keys, whatever their values are. -/
structure KeyRule (P Q : ConfigKey → Prop) : Prop where
  not_wildcard : ∀ k, Q k → k.isWildcard = false
  store : ∀ k, P k → Q k
  last : ∀ k, P k → Q k.lastKey
  erase : ∀ k, Q k → k.inLast = false → k.inDefault = false → P k

theorem KeyRule.pairRule {P Q : ConfigKey → Prop} (rule : KeyRule P Q) :
    PairRule (fun p => P p.key) fun p => Q p.key where
  not_wildcard p := rule.not_wildcard p.key
  store p := rule.store p.key
  logged _ _ h _ := h
  last p _ h _ := rule.last p.key h
  erase p := rule.erase p.key

/-- The pairs an event stages satisfy `P`, but for the keys of patterns to erase. -/
def Event.Names (P : ConfigPair → Prop) : Event → Prop
  | set item _ => P item
  | erase key _ => key.isWildcard = true ∨ P ⟨key, .none⟩
  | drop _ | commit .. | complete .. => True

namespace Configurator

/-- All pairs that are staged, and not being committed yet, satisfy `P`, and so do the former
    pairs in the log; the pairs in the store and in the storage below satisfy `Q`. -/
structure PairsIn (P Q : ConfigPair → Prop) (c : Configurator) : Prop where
  staged : ∀ id b, c.inFlightItems.bucket? id = some b → b.locked = false → ∀ p ∈ b.list, P p
  stored : ∀ k v, c.store k = some v → Q ⟨k, v⟩
  backed : ∀ id, ∀ p ∈ c.systemStore.backingStore.inFlightItems.staged id, Q p
  logged : ∀ commit ∈ c.commits, ∀ d ∈ commit.items, P d.1

/-- The keys of all items that are staged, and not being committed yet, satisfy `P`, and so
    do the keys in the log; the keys in the store and in the storage below satisfy `Q`. -/
abbrev KeysIn (P Q : ConfigKey → Prop) (c : Configurator) : Prop :=
  c.PairsIn (fun p => P p.key) fun p => Q p.key

variable {P Q : ConfigPair → Prop} {c : Configurator} {env : Environment} {id : ClientId}
  {items : ConfigPairList} {configOpt : CommitConfig} {k : ConfigKey}

theorem pairsIn_onEmpty {root : Path} {history : LocalHistoryStorage} {n : Nat} :
    (onEmpty root history n).PairsIn P Q where
  staged _ _ hb := by cases hb
  stored _ _ hv := by cases hv
  backed _ _ hp := by cases hp
  logged _ hcommit := by cases hcommit

theorem PairsIn.staged_of_not_locked (h : c.PairsIn P Q)
    (hl : c.inFlightItems.isBucketLocked id = false) :
    ∀ p ∈ c.inFlightItems.staged id, P p := by
  intro p hp
  rcases hb : c.inFlightItems.bucket? id with _ | b
  · rw [LockedConfigPairMap.staged_of_none hb] at hp
    cases hp
  · rw [LockedConfigPairMap.isBucketLocked_of_some hb] at hl
    rw [LockedConfigPairMap.staged_of_some hb] at hp
    exact h.staged id b hb hl p hp

/-- Other buckets only go when a bucket is opened. -/
theorem PairsIn.bucket?_stage_of_ne (h : c.PairsIn P Q) {x : ClientId} {b : LockedConfigPairList}
    (hx : x ≠ id) (hb : (c.stage id items).inFlightItems.bucket? x = some b)
    (hl : b.locked = false) : ∀ p ∈ b.list, P p := by
  rw [Configurator.bucket?_stage_of_ne hx] at hb
  split at hb
  · cases hb
  · exact h.staged x b hb hl

theorem PairsIn.stage (h : c.PairsIn P Q) (hi : ∀ p ∈ items, P p) :
    (c.stage id items).PairsIn P Q where
  staged x b hb hl := by
    by_cases hx : x = id
    · subst hx
      rw [bucket?_stage_self] at hb
      split at hb
      · exact h.staged x b hb hl
      · rw [← Option.some.inj hb] at hl ⊢
        intro p hp
        rcases List.mem_append.1 hp with hp | hp
        · exact h.staged_of_not_locked hl p hp
        · exact hi p hp
    · exact h.bucket?_stage_of_ne hx hb hl
  stored := h.stored
  backed := h.backed
  logged := h.logged

/-- What is staged and dropped again may be anything. -/
theorem PairsIn.drop_stage (h : c.PairsIn P Q) : ((c.stage id items).drop id).PairsIn P Q where
  staged x b hb hl := by
    rw [bucket?_drop] at hb
    split at hb
    · cases hb
    · next hx => exact h.bucket?_stage_of_ne hx hb hl
  stored := h.stored
  backed := h.backed
  logged := h.logged

theorem PairsIn.drop (h : c.PairsIn P Q) : (c.drop id).PairsIn P Q := by
  have hdrop : ((c.stage id []).drop id).PairsIn P Q := h.drop_stage
  exact hdrop

/-- The former value of a key, if there is one, is stored. -/
theorem PairsIn.former (h : c.PairsIn P Q)
    (hv : ((c.store k).getD .none).empty = false) : Q ⟨k, (c.store k).getD .none⟩ := by
  rcases hold : c.store k with _ | v
  · rw [hold] at hv
    cases hv
  · exact h.stored k v hold

theorem PairsIn.mem_toApply (rule : PairRule P Q) (h : c.PairsIn P Q)
    (hl : c.inFlightItems.isBucketLocked id = false) : ∀ p ∈ c.toApply id, Q p := by
  intro p hp
  have hstaged := h.staged_of_not_locked hl
  rcases List.mem_append.1 hp with hp | hp
  · exact rule.store p (hstaged p hp)
  · obtain ⟨item, hitem, hold⟩ := List.mem_filterMap.1 hp
    have hi := hstaged item hitem
    rw [oldItem_of_not_wildcard (rule.not_wildcard item (rule.store item hi))] at hold
    split at hold
    · cases hold
    · rw [← Option.some.inj hold]
      exact rule.last item _ hi h.former

theorem PairsIn.backed_setAndCommit (h : c.PairsIn P Q) (hi : ∀ p ∈ items, Q p) :
    ∀ x, ∀ p ∈ (c.systemStore.setAndCommit id items).backingStore.inFlightItems.staged x, Q p := by
  intro x p hp
  rw [MemoryCache.backingStore_setAndCommit c.quiet] at hp
  rcases LockedConfigPairMap.mem_staged_insertAll hp with hp | hp
  · exact h.backed x p hp
  · exact hi p hp.2

/-- A logged commit has the former pairs of keys that were staged. -/
theorem PairsIn.newCommit (rule : PairRule P Q) (h : c.PairsIn P Q)
    (hl : c.inFlightItems.isBucketLocked id = false) :
    ∀ d ∈ (c.newCommit env id).items, P d.1 := by
  intro d hd
  have hprune : ∀ p ∈ c.pruneUnchangedValues id, P p := fun p hp =>
    h.staged_of_not_locked hl p (mem_staged_of_mem_prune hp)
  have hitems : (c.newCommit env id).items = _ :=
    generateDeltas_eq fun p hp => rule.not_wildcard p (rule.store p (hprune p hp))
  rw [hitems] at hd
  obtain ⟨p, hp, rfl⟩ := List.mem_map.1 hd
  exact rule.logged p _ (hprune p hp) h.former

theorem PairsIn.commit (rule : PairRule P Q) (h : c.PairsIn P Q) :
    (c.commit env id configOpt).1.PairsIn P Q where
  staged x b hb hl := by
    by_cases hx : x = id
    · -- The bucket that is committed is locked, or gone.
      subst hx
      have hn : ¬(c.commit env x configOpt).1.Committable x := not_committable_commit
      refine absurd (committable_iff.2 ?_) hn
      rw [hb, LockedConfigPairMap.staged_of_some hb, ← hl]
    · rw [bucket?_commit_of_ne hx] at hb
      exact h.staged x b hb hl
  stored k v hv := by
    obtain hv | ⟨hc, hp⟩ := store_or_mem_toApply hv
    · exact h.stored k v hv
    · exact h.mem_toApply rule hc.2 _ hp
  backed := by
    rw [systemStore_commit]
    split
    · next hc => exact h.backed_setAndCommit (h.mem_toApply rule hc.1.2)
    · exact h.backed
  logged commit hcommit := by
    obtain hcommit | ⟨hc, rfl⟩ := mem_commits_commit hcommit
    · exact h.logged commit hcommit
    · exact h.newCommit rule hc.2

/-- The keys of a pattern are erased save those of `last.*` and `default.*`. -/
theorem PairsIn.eraseItems (rule : PairRule P Q) (h : c.PairsIn P Q)
    (hk : k.isWildcard = true ∨ P ⟨k, .none⟩) : ∀ p ∈ c.eraseItems k, P p := by
  intro p hp
  obtain ⟨k', hk', rfl⟩ := List.mem_map.1 hp
  rw [LockedConfigPairMap.erasedKeys] at hk'
  split at hk'
  · obtain ⟨hk', hlive⟩ := List.mem_filter.1 hk'
    obtain ⟨⟨v, hv⟩, _⟩ := MemoryCache.mem_getAllKeys.1 hk'
    simp only [Bool.not_or, Bool.and_eq_true, Bool.not_eq_true'] at hlive
    exact rule.erase ⟨k', v⟩ (h.stored k' v hv) hlive.1 hlive.2
  · next hw =>
    obtain rfl := List.mem_singleton.1 hk'
    exact hk.resolve_left hw

/-- The defaults whose keys are stored, so that a reset can set them, may be staged for these
    keys. -/
def DefaultsIn (P : ConfigPair → Prop) (c : Configurator) : Prop :=
  ∀ d v w, d.inDefault = true → c.store d = some v → c.store d.tail = some w → P ⟨d.tail, v⟩

/-- The same, for the keys alone. -/
abbrev TailsIn (P : ConfigKey → Prop) (c : Configurator) : Prop := c.DefaultsIn fun p => P p.key

theorem PairsIn.resetItems (rule : PairRule P Q) (h : c.PairsIn P Q) (ht : c.DefaultsIn P)
    (hset : ∀ kv ∈ c.defaults, (c.set (resetItem kv) id).2 = .success) :
    ∀ p ∈ c.resetItems, P p := by
  intro p hp
  rcases List.mem_append.1 hp with hp | hp
  · exact h.eraseItems rule (.inl (by decide)) p hp
  · obtain ⟨kv, hkv, rfl⟩ := List.mem_map.1 hp
    obtain ⟨hdef, hv⟩ := mem_defaults.1 hkv
    have hw : (resetItem kv).key.isWildcard = false :=
      ConfigKey.not_wildcard_tail (rule.not_wildcard _ (h.stored _ _ hv))
    obtain ⟨_, w, hw, _⟩ := (set_success_iff hw).1 (hset kv hkv)
    exact ht kv.key kv.value w hdef hv hw

end Configurator

/-- The commit that handling a request makes, if it makes one. -/
def Daemon.commitCall (s : Daemon) : RequestEvent → Option CommitCall
  | .request env clientId m =>
    match m.payload with
    | some (.commit config) => some ⟨s.conf, env, clientOf m clientId, config.getD .default⟩
    | some (.rollback id) => s.conf.rollbackCall env id.toNat
    | some .reset => s.conf.resetCall env clientId
    | some (.set ..) | some (.get _) | some .drop | some .firehooks | some (.erase _)
    | some .dump | some (.trigger _) | some (.blame _) | some .inflight | none => none
  | .complete .. => none

namespace Daemon

variable {P Q : ConfigPair → Prop} {s : Daemon} {env : Environment} {id : ClientId}
  {e : RequestEvent} {call : CommitCall}

theorem pairsIn_step {e : Event} (rule : PairRule P Q) (h : s.conf.PairsIn P Q) (he : e.Names P) :
    (s.step e).conf.PairsIn P Q := by
  cases e with
  | set item id =>
    rw [step, set_fst]
    exact h.stage fun p hp => mem_setItems hp ▸ he
  | erase key id => exact h.stage (h.eraseItems rule he)
  | drop id => exact h.drop
  | commit env id configOpt =>
    rw [conf_commit]
    exact h.commit rule
  | complete t result =>
    obtain hconf | ⟨clientId, hconf⟩ := s.conf_complete_cases t result
    · rwa [hconf]
    · rw [hconf]
      exact h.drop

theorem pairsIn_run {es : List Event} (rule : PairRule P Q) (h : s.conf.PairsIn P Q)
    (he : ∀ e ∈ es, e.Names P) : (run step s es).conf.PairsIn P Q :=
  (Always.of_step step (I := fun s => s.conf.PairsIn P Q) h
    (fun _ _ hs he => pairsIn_step rule hs he) (guarded_iff_forall_mem.2 he)).last

/-- Restoring a former pair only stages it. -/
theorem restoreItem_eq {d : ConfigDelta} {c : Configurator} :
    ∃ m, c.restoreItem d = { c with inFlightItems := m } := by
  rw [restoreItem]
  split
  · exact ⟨_, rfl⟩
  · rw [set_fst]
    exact ⟨_, rfl⟩

theorem foldl_restoreItem_eq {ds : List ConfigDelta} {c : Configurator} :
    ∃ m, ds.foldl restoreItem c = { c with inFlightItems := m } := by
  induction ds generalizing c with
  | nil => exact ⟨_, rfl⟩
  | cons d ds ih =>
    obtain ⟨m, hm⟩ := @restoreItem_eq d c
    rw [List.foldl_cons, hm]
    exact ih

/-- A commit finds the state of the daemon, with what has been staged for it. -/
theorem conf_commitCall (h : s.commitCall e = some call) :
    ∃ m, call.conf = { s.conf with inFlightItems := m } := by
  cases e with
  | complete ticket result => cases h
  | request env clientId m =>
    rw [commitCall] at h
    rcases hm : m.payload with _ | payload
    · rw [hm] at h
      cases h
    · rw [hm] at h
      cases payload with
      | commit config =>
        cases h
        exact ⟨_, rfl⟩
      | rollback commitId =>
        -- Only a rollback that is not refused restores items.
        simp only [rollbackCall] at h
        split at h
        · cases h
        · split at h
          · rw [← Option.some.inj h]
            exact foldl_restoreItem_eq
          · cases h
      | reset =>
        simp only [resetCall_eq] at h
        split at h
        · rw [← Option.some.inj h]
          exact ⟨_, rfl⟩
        · cases h
      | set | get | drop | firehooks | erase | dump | trigger | blame | inflight => cases h

/-- What is staged for a commit does not change the store. -/
theorem store_commitCall (h : s.commitCall e = some call) : call.conf.store = s.conf.store := by
  obtain ⟨m, hm⟩ := conf_commitCall h
  rw [hm]
  rfl

/-- A request that makes a commit does no more than that. -/
theorem conf_serve_of_commitCall (h : s.commitCall e = some call) :
    (s.serve e).conf = call.after := by
  cases e with
  | complete ticket result => cases h
  | request env clientId m =>
    rw [commitCall] at h
    rw [serve, request]
    rcases hm : m.payload with _ | payload
    · rw [hm] at h
      cases h
    · rw [hm] at h
      cases payload with
      | commit config =>
        cases h
        exact conf_commit
      | rollback commitId =>
        simp only at h
        rw [conf_rollback, rollback_fst, h]
        rfl
      | reset =>
        simp only at h
        rw [conf_reset]
        obtain ⟨call', hreset, hconf⟩ | ⟨hnone, _⟩ := resetHandler_fst s.conf env clientId
        · rw [hconf, Option.some.inj (hreset.symm.trans h)]
        · rw [hnone] at h
          cases h
      | set | get | drop | firehooks | erase | dump | trigger | blame | inflight => cases h

/-- A request that makes no commit stages or drops items at most. -/
theorem conf_serve_of_none (h : s.commitCall e = none) :
    ∃ m, (s.serve e).conf = { s.conf with inFlightItems := m } := by
  cases e with
  | complete ticket result =>
    rw [serve]
    obtain hconf | ⟨clientId, hconf⟩ := s.conf_complete_cases ticket result
    · exact ⟨_, hconf⟩
    · exact ⟨_, hconf⟩
  | request env clientId m =>
    rw [commitCall] at h
    rw [serve, request]
    rcases hm : m.payload with _ | payload
    · exact ⟨_, rfl⟩
    · rw [hm] at h
      cases payload with
      | set key value =>
        simp only [setHandler]
        split
        · exact ⟨_, rfl⟩
        · split
          · exact ⟨_, rfl⟩
          · rw [step, set_fst]
            exact ⟨_, rfl⟩
      | drop | erase => exact ⟨_, rfl⟩
      | commit config => cases h
      | rollback commitId =>
        simp only at h
        rw [conf_rollback, rollback_fst, h]
        exact ⟨_, rfl⟩
      | reset =>
        -- A default that cannot be set drops what the reset has staged.
        simp only at h
        rw [conf_reset]
        obtain ⟨call, hreset, _⟩ | ⟨_, items, hdrop⟩ := resetHandler_fst s.conf env clientId
        · rw [hreset] at h
          cases h
        · rw [hdrop]
          exact ⟨_, rfl⟩
      | get | firehooks | dump | trigger | blame | inflight => exact ⟨_, rfl⟩

/-- Only a commit changes the store. -/
theorem systemStore_serve_of_none (h : s.commitCall e = none) :
    (s.serve e).conf.systemStore = s.conf.systemStore := by
  obtain ⟨m, hm⟩ := conf_serve_of_none h
  rw [hm]

/-- The commits that are retained after a request are some of those before, or the one that it
    has logged. -/
theorem mem_commits_serve {commit : CommitHistory} (h : commit ∈ (s.serve e).conf.commits) :
    commit ∈ s.conf.commits ∨
      ∃ call, s.commitCall e = some call ∧ call.conf.inFlightItems.isBucketLocked
        call.clientId = false ∧ commit = call.conf.newCommit call.env call.clientId := by
  rcases hcall : s.commitCall e with _ | call
  · obtain ⟨m, hm⟩ := conf_serve_of_none hcall
    rw [hm] at h
    exact .inl h
  · rw [conf_serve_of_commitCall hcall] at h
    obtain hmem | ⟨hc, rfl⟩ := mem_commits_commit h
    · obtain ⟨m, hm⟩ := conf_commitCall hcall
      rw [hm] at hmem
      exact .inl hmem
    · exact .inr ⟨call, rfl, hc.2, rfl⟩

theorem store_serve_of_none (h : s.commitCall e = none) :
    (s.serve e).conf.store = s.conf.store := by
  rw [Configurator.store, systemStore_serve_of_none h, Configurator.store]

/-- The pairs a request stages satisfy `P`, but for the keys of patterns to erase. A reset stages
    the defaults it can set. -/
def Stages (P : ConfigPair → Prop) (s : Daemon) : RequestEvent → Prop
  | .request _ _ m =>
    match m.payload with
    | some (.set key value) =>
      ∀ pair, translateToSet key value = some pair → refusesKey pair.key = false → P pair
    | some (.erase key) => (ConfigKey.ofString key).isWildcard = true ∨ P ⟨.ofString key, .none⟩
    | some .reset => s.conf.DefaultsIn P
    | some (.get _) | some (.commit _) | some .drop | some .firehooks | some (.rollback _)
    | some .dump | some (.trigger _) | some (.blame _) | some .inflight | none => True
  | .complete .. => True

/-- The commit of a rollback finds keys staged that a commit has changed. -/
theorem pairsIn_rollbackCall {commitId : CommitId} (rule : PairRule P Q) (h : s.conf.PairsIn P Q)
    (hcall : s.conf.rollbackCall env commitId = some call) : call.conf.PairsIn P Q := by
  rw [rollbackCall] at hcall
  split at hcall
  · cases hcall
  · next commit hcommit =>
    split at hcall
    · rw [← Option.some.inj hcall]
      have hlogged := h.logged commit (AllCommitHistories.mem_of_getCommit hcommit).1
      have hrun : (run step s (commit.items.map restoreEvent)).conf.PairsIn P Q :=
        pairsIn_run rule h fun e he => by
          obtain ⟨d, hd, rfl⟩ := List.mem_map.1 he
          rw [restoreEvent]
          split
          · next hempty => exact .inr (ConfigValue.eq_none_of_empty hempty ▸ hlogged d hd)
          · exact hlogged d hd
      rw [run_restoreEvent] at hrun
      exact hrun
    · cases hcall

theorem pairsIn_resetCall (rule : PairRule P Q) (h : s.conf.PairsIn P Q) (ht : s.conf.DefaultsIn P)
    (hcall : s.conf.resetCall env id = some call) : call.conf.PairsIn P Q := by
  rw [resetCall_eq] at hcall
  split at hcall
  · next hset =>
    rw [← Option.some.inj hcall]
    exact h.stage (h.resetItems rule ht hset)
  · cases hcall

/-- What a commit finds staged has such keys, if the request names such keys. -/
theorem pairsIn_commitCall (rule : PairRule P Q) (h : s.conf.PairsIn P Q) (he : s.Stages P e)
    (hcall : s.commitCall e = some call) : call.conf.PairsIn P Q := by
  cases e with
  | complete ticket result => cases hcall
  | request env clientId m =>
    rw [commitCall] at hcall
    rcases hm : m.payload with _ | payload
    · rw [hm] at hcall
      cases hcall
    · rw [Stages, hm] at he
      rw [hm] at hcall
      cases payload with
      | commit config =>
        cases hcall
        exact h
      | rollback commitId => exact pairsIn_rollbackCall rule h hcall
      | reset => exact pairsIn_resetCall rule h he hcall
      | set | get | drop | firehooks | erase | dump | trigger | blame | inflight => cases hcall

theorem pairsIn_setHandler {key : String} {value : Option Sysadminctl.ConfigValue}
    (rule : PairRule P Q) (h : s.conf.PairsIn P Q)
    (hk : ∀ pair, translateToSet key value = some pair → refusesKey pair.key = false →
      P pair) : (s.setHandler id key value).conf.PairsIn P Q := by
  rw [setHandler]
  split
  · exact h
  · next pair hpair =>
    split
    · exact h
    · next hr => exact pairsIn_step (e := .set _ id) rule h (hk pair hpair (by simpa using hr))

/-- Requests keep the keys as they are, if those they name are such keys. -/
theorem pairsIn_serve (rule : PairRule P Q) (h : s.conf.PairsIn P Q) (he : s.Stages P e) :
    (s.serve e).conf.PairsIn P Q := by
  rcases hcall : s.commitCall e with _ | call
  · cases e with
    | complete ticket result => exact pairsIn_step (e := .complete ticket result) rule h trivial
    | request env clientId m =>
      rw [serve, request]
      rw [commitCall] at hcall
      rcases hm : m.payload with _ | payload
      · exact h
      · rw [Stages, hm] at he
        rw [hm] at hcall
        cases payload with
        | set key value => exact pairsIn_setHandler rule h he
        | drop => exact pairsIn_step (e := .drop _) rule h trivial
        | erase key => exact pairsIn_step (e := .erase _ _) rule h he
        | commit config => cases hcall
        | rollback commitId =>
          simp only at hcall
          rw [conf_rollback, rollback_fst, hcall]
          exact h
        | reset =>
          rw [conf_reset]
          obtain ⟨call, hreset, _⟩ | ⟨_, items, hdrop⟩ := resetHandler_fst s.conf env clientId
          · simp only [hreset] at hcall
            cases hcall
          · rw [hdrop]
            exact h.drop_stage
        | get | firehooks | dump | trigger | blame | inflight => exact h
  · rw [conf_serve_of_commitCall hcall]
    exact (pairsIn_commitCall rule h he hcall).commit rule

/-- The keys a request names satisfy `P`. A reset names those of the defaults it can set. -/
abbrev Names (P : ConfigKey → Prop) (s : Daemon) (e : RequestEvent) : Prop :=
  s.Stages (fun p => P p.key) e

section

variable {P Q : ConfigKey → Prop}

theorem keysIn_commitCall (rule : KeyRule P Q) (h : s.conf.KeysIn P Q) (he : s.Names P e)
    (hcall : s.commitCall e = some call) : call.conf.KeysIn P Q :=
  pairsIn_commitCall rule.pairRule h he hcall

theorem keysIn_serve (rule : KeyRule P Q) (h : s.conf.KeysIn P Q) (he : s.Names P e) :
    (s.serve e).conf.KeysIn P Q := pairsIn_serve rule.pairRule h he

end

/-! ## Keys that clients can name -/

theorem key_of_translateToSet {key : String} {value : Option Sysadminctl.ConfigValue}
    {pair : ConfigPair} (h : translateToSet key value = some pair) : pair.key = .ofString key := by
  obtain ⟨v, _, rfl⟩ := Option.map_eq_some_iff.1 h
  rfl

theorem named_of_translateToSet {key : String} {value : Option Sysadminctl.ConfigValue}
    {pair : ConfigPair} (h : translateToSet key value = some pair)
    (hr : refusesKey pair.key = false) : pair.key.Named ∧ pair.key.inLast = false := by
  rw [refusesKey, Bool.or_eq_false_iff] at hr
  have hkey := ConfigKey.not_wildcard_of_text hr.1
  refine ⟨?_, hr.2⟩
  rw [key_of_translateToSet h] at hkey ⊢
  exact ConfigKey.named_ofString hkey

theorem keyRule_named : KeyRule ConfigKey.Named ConfigKey.Named where
  not_wildcard _ h := h.not_wildcard
  store _ h := h
  last _ h := h.lastKey
  erase _ h _ _ := h

/-- Whatever a request is, the keys it names are keys that clients can name. -/
theorem names_named (h : s.conf.KeysIn ConfigKey.Named ConfigKey.Named) (e : RequestEvent) :
    s.Names ConfigKey.Named e := by
  cases e with
  | complete ticket result => trivial
  | request env clientId m =>
    rw [Names, Stages]
    rcases m.payload with _ | payload
    · trivial
    · cases payload with
      | set key value => exact fun pair hpair hr => (named_of_translateToSet hpair hr).1
      | erase key =>
        rcases hk : (ConfigKey.ofString key).isWildcard with _ | _
        · exact .inr (ConfigKey.named_ofString hk)
        · exact .inl hk
      | reset => exact fun d v w _ _ hw => h.stored _ w hw
      | commit | rollback | get | drop | firehooks | dump | trigger | blame | inflight => trivial

theorem keysIn_named_run {es : List RequestEvent} {n : Nat} :
    (run serve (onEmpty n) es).conf.KeysIn ConfigKey.Named ConfigKey.Named :=
  (Always.of_step serve (I := fun s => s.conf.KeysIn ConfigKey.Named ConfigKey.Named)
    (G := fun _ _ => True) pairsIn_onEmpty
    (fun _ e hs _ => keysIn_serve keyRule_named hs (names_named hs e))
    (guarded_of_forall fun _ _ => trivial)).last

/-! ## Requests of a client -/

/-- A request of client 1 without a transaction id. -/
def command (payload : Payload) : RequestEvent := .request ⟨0, true⟩ 1 ⟨some payload, 1, none⟩

/-- Sets a key to a number. -/
def setCommand (key : String) (v : Int32) : RequestEvent :=
  command (.set key (some ⟨some (.int32val v)⟩))

/-- Commits without hooks. -/
def commitCommand : RequestEvent := command (.commit (some .noHooks))

end Daemon

end SysAdmin
