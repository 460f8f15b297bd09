import SysAdmin.MemoryCache
import SysAdmin.TransactionManager

/-!
# The configurator

`Configurator` is the core of the daemon: clients stage items in their buckets with
`set` and `erase`, and a `commit` applies a bucket to the live store, logs what it
changes, and runs the hooks of the changed keys. Until the hooks have completed,
the bucket stays, locked.

A commit thus has two halves. `commit` runs to the start of the hooks, which it
hands to the caller (`CommitOutcome`), and `completeHooks` is the rest, once it is
known how they went (`HookResult`).

* `commit_cases` says all that a commit can do: nothing, if there is no bucket to
  commit or it is locked; throw, if the commit cannot be logged; or apply the
  bucket, which `Applied` describes;
* `mem_pruneUnchangedValues` says what a commit takes for a change.
-/

namespace SysAdmin

open Writes

/-- What setting a pair answers. -/
inductive SetStatus
  | success
  | typeMismatch
  | lockedQueue
  | successNewKey
  deriving DecidableEq

/-- Whether the item was staged. -/
def SetStatus.accepted : SetStatus → Bool
  | success | successNewKey => true
  | typeMismatch | lockedQueue => false

/-- Which hooks a commit runs. -/
inductive CommitConfig
  | default
  | templateOnly
  | noHooks
  deriving DecidableEq

/-- What a call of `commit` comes to: an exception, a future that is ready, or one
    that is ready when the hooks of the changed pairs have completed. -/
inductive CommitOutcome
  | threw
  | ready (commitId : CommitId)
  | hooks (changed : ConfigPairList) (runServices : Bool) (commitId : CommitId)
  deriving DecidableEq

/-- How hooks complete: with a value, with an `ExternalRunnerError` and its text, or
    with an exception of another type. -/
inductive HookResult
  | value
  | externalRunnerError (what : String)
  | otherException
  deriving DecidableEq

/-- How the future of a commit completes: with the id of the commit, with a
    `CommitError`, or with the exception of the hooks. -/
inductive CommitResult
  | value (commitId : CommitId)
  | commitError (what : String) (failedCommitId : CommitId)
  | otherException
  deriving DecidableEq

/-- What a rollback comes to: a `RollbackError`, a loop without end, or the commit
    of the former values. -/
inductive RollbackOutcome
  | rollbackError (what : String)
  | diverges
  | commit (outcome : CommitOutcome)
  deriving DecidableEq

/-- The live store, the history of commits and the buckets of the clients. Only a
    commit stages anything in the live store. -/
structure Configurator where
  systemStore : MemoryCache
  commitHistory : TransactionManager
  inFlightItems : LockedConfigPairMap
  quiet : systemStore.Quiet

namespace Configurator

/-- The configurator of a cache and a storage without commits. -/
def onEmptyHistory (storage : MemoryCache) (quiet : storage.Quiet) (history : LocalHistoryStorage)
    (maxTransactions : Nat) : Configurator :=
  ⟨storage, .onEmpty history 100, .new maxTransactions, quiet⟩

/-- The configurator of a daemon with an empty store and an empty history. -/
def onEmpty (root : Path) (history : LocalHistoryStorage) (maxTransactions : Nat) : Configurator :=
  onEmptyHistory (.onEmpty root) MemoryCache.quiet_onEmpty history maxTransactions

/-! ## Reading and staging -/

/-- The pair of a key, or those of the keys of a pattern. -/
def get (c : Configurator) (key : ConfigKey) : ConfigPairMap := c.systemStore.get key

/-- The keys a pattern stands for. -/
def getAllKeys (c : Configurator) (ns : ConfigKey) : List ConfigKey := c.systemStore.getAllKeys ns

/-- Stages a pair, if it has the type of the stored one and the bucket is not locked. -/
def set (c : Configurator) (item : ConfigPair) (clientId : ClientId) : Configurator × SetStatus :=
  if !c.systemStore.typeCheck item then (c, .typeMismatch)
  else if c.inFlightItems.isBucketLocked clientId then (c, .lockedQueue)
  else
    let status :=
      if (unwrapSinglePair (c.get item.key)).isNone then .successNewKey else .success
    ({ c with inFlightItems := c.inFlightItems.insert clientId item }, status)

/-- Stages the erasing of a key, or of the keys of a pattern. -/
def erase (c : Configurator) (key : ConfigKey) (clientId : ClientId) : Configurator :=
  { c with inFlightItems := c.inFlightItems.erase c.getAllKeys clientId key }

/-- Discards what is staged. -/
def drop (c : Configurator) (clientId : ClientId) : Configurator :=
  { c with inFlightItems := c.inFlightItems.drop clientId }

/-! ## Committing -/

/-- Puts an item in the place of an earlier one with its key. Keys of `last.*` are
    left out. -/
def mergeItem (merged : ConfigPairMap) (item : ConfigPair) : ConfigPairMap :=
  if item.key.inLast then merged
  else (if merged.count item.key then merged.erase item.key else merged).emplace item

/-- Whether an item is a change to the store. -/
def isChange (c : Configurator) (item : ConfigPair) : Bool :=
  match unwrapSinglePair (c.systemStore.get (.ofString item.key.toString)) with
  | none => true
  | some oldItem => !oldItem.value.eqOp item.value

/-- The last items of a bucket for each key, as far as they are changes. -/
def pruneUnchangedValues (c : Configurator) (clientId : ClientId) : ConfigPairList :=
  match c.inFlightItems.getBucket clientId with
  | none => []
  | some items => (items.foldl mergeItem .empty).pairs.filter c.isChange

/-- The pair of `last.*` that saves the stored value of the key of an item. -/
def oldItem (c : Configurator) (item : ConfigPair) : Option ConfigPair :=
  let oldItem := unwrapSinglePair (c.systemStore.get item.key)
  if item.key.inDefault || item.key.inLast then none
  else match oldItem with
    | some oldItem => some ⟨item.key.lastKey, oldItem.value⟩
    | none => some (.ofKey item.key.lastKey)

/-- Stages the pairs of `last.*` for the items of a bucket. -/
def saveLastItems (c : Configurator) (clientId : ClientId) : Configurator :=
  match c.inFlightItems.getBucket clientId with
  | none => c
  | some items =>
    { c with inFlightItems := c.inFlightItems.insertAll clientId (items.filterMap c.oldItem) }

/-- Logs the changes of a commit, if there are any. A commit without changes has the id 0. -/
def logChanged (c : Configurator) (env : Environment) (changed : ConfigPairList) :
    Configurator × Option CommitId :=
  if changed.length > 0 then
    let (commitHistory, commitId) := c.commitHistory.logCommit c.get env changed
    ({ c with commitHistory := commitHistory }, commitId)
  else (c, some 0)

/-- Commits a bucket to the live store. -/
def commitToStore (c : Configurator) (clientId : ClientId) : Configurator :=
  let toCommit := (c.inFlightItems.getBucket clientId).getD []
  { c with
    systemStore := c.systemStore.setAndCommit clientId toCommit
    quiet := c.quiet.setAndCommit }

/-- Commits a bucket, up to the start of the hooks. -/
def commit (c : Configurator) (env : Environment) (clientId : ClientId) (configOpt : CommitConfig) :
    Configurator × CommitOutcome :=
  if c.inFlightItems.exists clientId && !c.inFlightItems.isBucketLocked clientId then
    let c := { c with inFlightItems := c.inFlightItems.lockBucket clientId }
    -- The lock is taken before anything can throw.
    let changed := c.pruneUnchangedValues clientId
    match c.logChanged env changed with
    | (c, none) => (c, .threw)
    | (c, some commitId) =>
      let c := (c.saveLastItems clientId).commitToStore clientId
      -- With `NO_HOOKS` the future is ready at once, and the bucket goes.
      let runServices := configOpt == .default
      if runServices || configOpt == .templateOnly then (c, .hooks changed runServices commitId)
      else (c.drop clientId, .ready commitId)
  else (c, .ready 0)

/-- The rest of a commit, when its hooks complete. Only an `ExternalRunnerError` is
    handled; another exception goes on to whoever waits for the commit. -/
def completeHooks (c : Configurator) (clientId : ClientId) (commitId : CommitId) :
    HookResult → Configurator × CommitResult
  | .value => (c.drop clientId, .value commitId)
  | .externalRunnerError what => (c.drop clientId, .commitError what commitId)
  | .otherException => (c, .otherException)

/-! ## Rolling back -/

/-- Stages the former pair of a key. What setting it answers is not looked at. -/
def restoreItem (c : Configurator) (item : ConfigDelta) : Configurator :=
  if item.1.value.empty then c.erase item.1.key TransactionManager.TRANSACTION_HISTORY_ID
  else (c.set item.1 TransactionManager.TRANSACTION_HISTORY_ID).1

/-- Rolls a commit back: stages all former pairs and commits them. -/
def rollback (c : Configurator) (env : Environment) (commitId : CommitId) :
    Configurator × RollbackOutcome :=
  match c.commitHistory.commitHistory.getCommit commitId with
  | none => (c, .rollbackError "Commit id doesn't exist, can't rollback")
  | some commit =>
    match c.commitHistory.canRollback commit with
    | none => (c, .diverges)
    | some false => (c, .rollbackError "Item changed since commit")
    | some true =>
      let (c, outcome) := (commit.items.foldl restoreItem c).commit env
        TransactionManager.TRANSACTION_HISTORY_ID .default
      (c, .commit outcome)

/-- The live store: the values by their keys. -/
def store (c : Configurator) : ConfigKey → Option ConfigValue := c.systemStore.store

variable {c : Configurator} {env : Environment} {id x : ClientId} {item : ConfigPair}
  {items : ConfigPairList} {key k : ConfigKey} {configOpt : CommitConfig}

/-! ## What staging does -/

/-- Stages items. -/
def stage (c : Configurator) (clientId : ClientId) (items : ConfigPairList) : Configurator :=
  { c with inFlightItems := c.inFlightItems.insertAll clientId items }

/-- What setting an item stages. -/
def setItems (c : Configurator) (item : ConfigPair) (clientId : ClientId) : ConfigPairList :=
  if (c.set item clientId).2.accepted then [item] else []

/-- What erasing a key stages. -/
def eraseItems (c : Configurator) (key : ConfigKey) : ConfigPairList :=
  (LockedConfigPairMap.erasedKeys c.getAllKeys key).map .ofKey

theorem accepted_set : (c.set item id).2.accepted = true ↔
    c.systemStore.typeCheck item = true ∧ c.inFlightItems.isBucketLocked id = false := by
  rw [set]
  cases c.systemStore.typeCheck item with
  | false => simp [SetStatus.accepted]
  | true =>
    cases c.inFlightItems.isBucketLocked id with
    | true => simp [SetStatus.accepted]
    | false =>
      simp only [Bool.not_true, Bool.false_eq_true, if_false, and_self, iff_true]
      split <;> rfl

theorem set_fst : (c.set item id).1 = c.stage id (c.setItems item id) := by
  rw [setItems]
  split
  · next h =>
    obtain ⟨ht, hl⟩ := accepted_set.1 h
    simp only [set, ht, hl, Bool.not_true, Bool.false_eq_true, if_false]
    rfl
  · next h =>
    have h := mt accepted_set.2 h
    rw [set]
    split
    · rfl
    · next ht =>
      split
      · rfl
      · next hl => exact absurd ⟨by simpa using ht, by simpa using hl⟩ h

theorem set_snd : (c.set item id).2 =
    if !c.systemStore.typeCheck item then .typeMismatch
    else if c.inFlightItems.isBucketLocked id then .lockedQueue
    else if (unwrapSinglePair (c.get item.key)).isNone then .successNewKey
    else .success := by
  rw [set]
  split
  · rfl
  · split <;> rfl

theorem erase_eq : c.erase key id = c.stage id (c.eraseItems key) := rfl

@[simp] theorem store_stage : (c.stage id items).store = c.store := rfl

@[simp] theorem stage_nil : c.stage id [] = c := rfl

theorem stage_stage {items' : ConfigPairList} :
    (c.stage id items).stage id items' = c.stage id (items ++ items') := by
  simp [stage, LockedConfigPairMap.insertAll]

/-- Staging the items opens a bucket. -/
def Opens (c : Configurator) (clientId : ClientId) (items : ConfigPairList) : Prop :=
  items ≠ [] ∧ c.inFlightItems.bucket? clientId = none

instance (c : Configurator) (clientId : ClientId) (items : ConfigPairList) :
    Decidable (c.Opens clientId items) :=
  inferInstanceAs (Decidable (_ ∧ _))

theorem bucket?_stage_of_ne (hx : x ≠ id) : (c.stage id items).inFlightItems.bucket? x =
    if c.Opens id items ∧ c.inFlightItems.victim = some x then none
    else c.inFlightItems.bucket? x := by
  rw [stage, LockedConfigPairMap.bucket?_insertAll_of_ne hx]
  simp only [Opens, and_assoc, and_left_comm]

theorem bucket?_stage_self : (c.stage id items).inFlightItems.bucket? id =
    if items = [] then c.inFlightItems.bucket? id
    else some ⟨c.inFlightItems.isBucketLocked id, c.inFlightItems.staged id ++ items⟩ := by
  rw [stage]
  split
  · next h => rw [h, LockedConfigPairMap.insertAll_nil]
  · next h => rw [LockedConfigPairMap.bucket?_insertAll_self h]

theorem staged_stage : (c.stage id items).inFlightItems.staged x =
    if x = id then c.inFlightItems.staged id ++ items
    else if c.Opens id items ∧ c.inFlightItems.victim = some x then []
    else c.inFlightItems.staged x := by
  split
  · next hx =>
    subst hx
    exact LockedConfigPairMap.staged_insertAll_self
  · next hx =>
    simp only [LockedConfigPairMap.staged, LockedConfigPairMap.getBucket, bucket?_stage_of_ne hx]
    split <;> rfl

/-- Staging changes no lock. -/
theorem isBucketLocked_stage (h : (c.stage id items).inFlightItems.isBucketLocked x = true) :
    c.inFlightItems.isBucketLocked x = true := by
  by_cases hx : x = id
  · subst hx
    simp only [LockedConfigPairMap.isBucketLocked, bucket?_stage_self] at h
    split at h
    · exact h
    · exact h
  · simp only [LockedConfigPairMap.isBucketLocked, bucket?_stage_of_ne hx] at h
    split at h
    · cases h
    · exact h

theorem isBucketLocked_stage_self :
    (c.stage id items).inFlightItems.isBucketLocked id = c.inFlightItems.isBucketLocked id := by
  rw [LockedConfigPairMap.isBucketLocked, bucket?_stage_self]
  split
  · rfl
  · rfl

/-! ## What a commit does -/

/-- There is a bucket to commit, and it is not locked. -/
def Committable (c : Configurator) (clientId : ClientId) : Prop :=
  c.inFlightItems.exists clientId = true ∧ c.inFlightItems.isBucketLocked clientId = false

instance (c : Configurator) (clientId : ClientId) : Decidable (c.Committable clientId) :=
  inferInstanceAs (Decidable (_ ∧ _))

/-- The state when a commit has logged its changes, or has thrown on the way. -/
def logged (c : Configurator) (env : Environment) (clientId : ClientId) :
    Configurator × Option CommitId :=
  { c with inFlightItems := c.inFlightItems.lockBucket clientId }.logChanged env
    (c.pruneUnchangedValues clientId)

/-- The items a commit applies: those of the bucket, and the pairs of `last.*` for them. -/
def toApply (c : Configurator) (clientId : ClientId) : ConfigPairList :=
  c.inFlightItems.staged clientId ++ (c.inFlightItems.staged clientId).filterMap c.oldItem

/-- The state when a commit has applied its bucket. -/
def applied (c : Configurator) (env : Environment) (clientId : ClientId) : Configurator :=
  ((c.logged env clientId).1.saveLastItems clientId).commitToStore clientId

theorem committable_iff : c.Committable id ↔
    c.inFlightItems.bucket? id = some ⟨false, c.inFlightItems.staged id⟩ := by
  unfold Committable LockedConfigPairMap.exists LockedConfigPairMap.isBucketLocked
    LockedConfigPairMap.staged LockedConfigPairMap.getBucket
  rcases c.inFlightItems.bucket? id with _ | ⟨locked, list⟩ <;> simp

theorem getBucket_lockBucket {m : LockedConfigPairMap} :
    (m.lockBucket id).getBucket id = m.getBucket id := by
  rw [LockedConfigPairMap.getBucket, LockedConfigPairMap.bucket?_lockBucket, if_pos rfl,
    Option.map_map]
  rfl

theorem pruneUnchangedValues_lockBucket :
    { c with inFlightItems := c.inFlightItems.lockBucket id }.pruneUnchangedValues id =
      c.pruneUnchangedValues id := by
  rw [pruneUnchangedValues]
  rw [getBucket_lockBucket]
  rfl

/-- All that a commit can do: nothing, throw, or apply the bucket. -/
theorem commit_cases (c : Configurator) (env : Environment) (id : ClientId)
    (configOpt : CommitConfig) :
    (¬c.Committable id ∧ c.commit env id configOpt = (c, .ready 0)) ∨
    (c.Committable id ∧ (c.logged env id).2 = none ∧
      c.commit env id configOpt = ((c.logged env id).1, .threw)) ∨
    (c.Committable id ∧ ∃ commitId, (c.logged env id).2 = some commitId ∧
      c.commit env id configOpt =
        if configOpt = .noHooks then ((c.applied env id).drop id, .ready commitId)
        else (c.applied env id,
          .hooks (c.pruneUnchangedValues id) (configOpt == .default) commitId)) := by
  rw [commit]
  by_cases hc : c.Committable id
  · simp only [hc.1, hc.2, Bool.not_false, Bool.and_self, if_true,
      pruneUnchangedValues_lockBucket, hc, not_true_eq_false, false_and, false_or, true_and]
    rcases hl : c.logged env id with ⟨c', _ | commitId⟩
    · exact .inl ⟨rfl, by rw [show Configurator.logChanged _ env _ = _ from hl]⟩
    · refine .inr ⟨commitId, rfl, ?_⟩
      rw [show Configurator.logChanged _ env _ = _ from hl]
      cases configOpt <;> simp [applied, hl]
  · refine .inl ⟨hc, ?_⟩
    have : (c.inFlightItems.exists id && !c.inFlightItems.isBucketLocked id) = false := by
      by_contra h
      simp only [Bool.not_eq_false, Bool.and_eq_true, Bool.not_eq_true'] at h
      exact hc h
    simp [this]

theorem systemStore_logChanged {changed : ConfigPairList} :
    (c.logChanged env changed).1.systemStore = c.systemStore := by
  rw [logChanged]
  split <;> rfl

theorem inFlightItems_logChanged {changed : ConfigPairList} :
    (c.logChanged env changed).1.inFlightItems = c.inFlightItems := by
  rw [logChanged]
  split <;> rfl

theorem systemStore_logged : (c.logged env id).1.systemStore = c.systemStore :=
  systemStore_logChanged

theorem store_logged : (c.logged env id).1.store = c.store := by
  rw [store, systemStore_logged, store]

theorem inFlightItems_logged :
    (c.logged env id).1.inFlightItems = c.inFlightItems.lockBucket id := inFlightItems_logChanged

theorem commitHistory_saveLastItems : (c.saveLastItems id).commitHistory = c.commitHistory := by
  rw [saveLastItems]
  split <;> rfl

theorem commitHistory_applied :
    (c.applied env id).commitHistory = (c.logged env id).1.commitHistory := by
  rw [applied, commitToStore, commitHistory_saveLastItems]

theorem bucket?_logged : (c.logged env id).1.inFlightItems.bucket? x =
    if x = id then (c.inFlightItems.bucket? id).map fun l => { l with locked := true }
    else c.inFlightItems.bucket? x := by
  rw [inFlightItems_logged, LockedConfigPairMap.bucket?_lockBucket]

theorem Committable.bucket?_logged (hc : c.Committable id) :
    (c.logged env id).1.inFlightItems.bucket? id = some ⟨true, c.inFlightItems.staged id⟩ := by
  rw [Configurator.bucket?_logged, if_pos rfl, committable_iff.1 hc]
  rfl

/-- With the pairs of `last.*` behind its items, the bucket is what is applied. -/
theorem Committable.bucket?_saveLastItems (hc : c.Committable id) :
    ((c.logged env id).1.saveLastItems id).inFlightItems.bucket? x =
      if x = id then some ⟨true, c.toApply id⟩ else c.inFlightItems.bucket? x := by
  have hb : (c.logged env id).1.inFlightItems.bucket? id = _ := hc.bucket?_logged
  -- Logging does not touch the store the old items are read from.
  have hold : (c.logged env id).1.oldItem = c.oldItem := by
    funext item
    simp only [oldItem, systemStore_logged]
  simp only [saveLastItems, LockedConfigPairMap.getBucket, hb, Option.map_some, hold]
  by_cases hx : x = id
  · subst hx
    rw [if_pos rfl]
    by_cases hnil : (c.inFlightItems.staged x).filterMap c.oldItem = []
    · rw [hnil, LockedConfigPairMap.insertAll_nil, hb, toApply, hnil, List.append_nil]
    · rw [LockedConfigPairMap.bucket?_insertAll_self hnil,
        LockedConfigPairMap.isBucketLocked_of_some hb, LockedConfigPairMap.staged_of_some hb]
      rfl
  · rw [if_neg hx, LockedConfigPairMap.bucket?_insertAll_of_open (by simp [hb]) hx,
      Configurator.bucket?_logged, if_neg hx]

theorem inFlightItems_applied : (c.applied env id).inFlightItems =
    ((c.logged env id).1.saveLastItems id).inFlightItems := by
  rw [applied, commitToStore]

/-- While its hooks run, the bucket of a commit stays and is locked. -/
theorem Committable.bucket?_applied (hc : c.Committable id) :
    (c.applied env id).inFlightItems.bucket? x =
      if x = id then some ⟨true, c.toApply id⟩ else c.inFlightItems.bucket? x := by
  rw [inFlightItems_applied, hc.bucket?_saveLastItems]

theorem systemStore_saveLastItems : (c.saveLastItems id).systemStore = c.systemStore := by
  rw [saveLastItems]
  split <;> rfl

/-- A commit has the store write its items and the pairs of `last.*`. -/
theorem Committable.systemStore_applied (hc : c.Committable id) :
    (c.applied env id).systemStore = c.systemStore.setAndCommit id (c.toApply id) := by
  have hb : ((c.logged env id).1.saveLastItems id).inFlightItems.bucket? id =
      some ⟨true, c.toApply id⟩ := by
    rw [hc.bucket?_saveLastItems, if_pos rfl]
  have hstore : ((c.logged env id).1.saveLastItems id).systemStore = c.systemStore :=
    systemStore_saveLastItems.trans systemStore_logged
  have hitems := LockedConfigPairMap.staged_of_some hb
  rw [LockedConfigPairMap.staged] at hitems
  simp only [applied, commitToStore, hstore, hitems]

theorem store_drop : (c.drop id).store = c.store := rfl

theorem bucket?_drop : (c.drop id).inFlightItems.bucket? x =
    if x = id then none else c.inFlightItems.bucket? x := LockedConfigPairMap.bucket?_drop

/-- After a commit, the store is as before or has taken the items applied. -/
theorem systemStore_commit : (c.commit env id configOpt).1.systemStore =
    if c.Committable id ∧ (c.logged env id).2 ≠ none then
      c.systemStore.setAndCommit id (c.toApply id)
    else c.systemStore := by
  obtain ⟨hc, h⟩ | ⟨hc, hl, h⟩ | ⟨hc, commitId, hl, h⟩ := commit_cases c env id configOpt
  · simp [h, hc]
  · simp [h, hl, systemStore_logged]
  · have happlied : c.Committable id ∧ (c.logged env id).2 ≠ none := ⟨hc, by simp [hl]⟩
    have hstore : (c.applied env id).systemStore = _ := hc.systemStore_applied
    rw [if_pos happlied, ← hstore, h]
    split <;> rfl

/-- After a commit, the live store is as before or has the items applied. -/
theorem store_commit : (c.commit env id configOpt).1.store =
    if c.Committable id ∧ (c.logged env id).2 ≠ none then overlay (c.toApply id).writes c.store
    else c.store := by
  rw [store, systemStore_commit]
  split
  · exact MemoryCache.store_setAndCommit c.quiet
  · rfl

/-- What is stored after a commit was stored before, or is applied. -/
theorem store_or_mem_toApply {v : ConfigValue}
    (h : (c.commit env id configOpt).1.store k = some v) :
    c.store k = some v ∨ c.Committable id ∧ ⟨k, v⟩ ∈ c.toApply id := by
  rw [store_commit] at h
  split at h
  · next hc =>
    rw [overlay_apply] at h
    rcases hw : lastWrite k (c.toApply id).writes with _ | w
    · rw [hw, Option.getD_none] at h
      exact .inl h
    · rw [hw, Option.getD_some] at h
      obtain ⟨p, hp, heq⟩ := List.mem_map.1 (mem_of_lastWrite_eq_some hw)
      obtain ⟨rfl, rfl⟩ := Prod.mk.inj heq
      obtain ⟨rfl, -⟩ := ConfigValue.toOption_eq_some h
      exact .inr ⟨hc.1, hp⟩
  · exact .inl h

/-- The buckets of the other clients are not touched by a commit. -/
theorem bucket?_commit_of_ne (hx : x ≠ id) :
    (c.commit env id configOpt).1.inFlightItems.bucket? x = c.inFlightItems.bucket? x := by
  obtain ⟨_, h⟩ | ⟨_, _, h⟩ | ⟨hc, _, _, h⟩ := commit_cases c env id configOpt
  · rw [h]
  · rw [h, bucket?_logged, if_neg hx]
  · rw [h]
    split
    · rw [bucket?_drop, if_neg hx, hc.bucket?_applied, if_neg hx]
    · rw [hc.bucket?_applied, if_neg hx]

/-- What remains of the bucket of a commit. -/
theorem bucket?_commit_self : (c.commit env id configOpt).1.inFlightItems.bucket? id =
    if ¬c.Committable id then c.inFlightItems.bucket? id
    else if (c.logged env id).2 = none then some ⟨true, c.inFlightItems.staged id⟩
    else if configOpt = .noHooks then none
    else some ⟨true, c.toApply id⟩ := by
  obtain ⟨hc, h⟩ | ⟨hc, hl, h⟩ | ⟨hc, commitId, hl, h⟩ := commit_cases c env id configOpt
  · simp [h, hc]
  · simp [h, hc, hl, hc.bucket?_logged]
  · rw [h]
    split <;> simp [bucket?_drop, hc.bucket?_applied, *]

/-- The bucket of a client, if it is there, is locked after a commit. -/
theorem not_committable_commit : ¬(c.commit env id configOpt).1.Committable id := by
  rw [committable_iff, bucket?_commit_self]
  by_cases hc : c.Committable id
  · simp only [hc, not_true_eq_false, if_false]
    split
    · simp
    · split <;> simp
  · rw [if_pos hc]
    obtain ⟨_, h⟩ | ⟨h, _⟩ | ⟨h, _⟩ := commit_cases c env id configOpt
    · rw [h]
      exact mt committable_iff.2 hc
    · exact absurd h hc
    · exact absurd h hc

/-! ### The items staged -/

theorem Committable.staged_ne_nil (hc : c.Committable id) : c.inFlightItems.staged id ≠ [] :=
  LockedConfigPairMap.list_ne_nil (committable_iff.1 hc)

theorem staged_drop : (c.drop id).inFlightItems.staged x =
    if x = id then [] else c.inFlightItems.staged x := by
  simp only [LockedConfigPairMap.staged, LockedConfigPairMap.getBucket, bucket?_drop]
  split <;> rfl

theorem staged_commit_of_ne (hx : x ≠ id) :
    (c.commit env id configOpt).1.inFlightItems.staged x = c.inFlightItems.staged x := by
  simp only [LockedConfigPairMap.staged, LockedConfigPairMap.getBucket, bucket?_commit_of_ne hx]

/-- A commit that does not apply the bucket leaves its items there. -/
theorem staged_commit_self (h : ¬(c.Committable id ∧ (c.logged env id).2 ≠ none)) :
    (c.commit env id configOpt).1.inFlightItems.staged id = c.inFlightItems.staged id := by
  obtain ⟨_, hcommit⟩ | ⟨hc, _, hcommit⟩ | ⟨hc, commitId, hl, _⟩ :=
    commit_cases c env id configOpt
  · rw [hcommit]
  · rw [hcommit, LockedConfigPairMap.staged_of_some hc.bucket?_logged]
  · exact absurd ⟨hc, by simp [hl]⟩ h

theorem committable_congr {c' : Configurator}
    (h : c'.inFlightItems.bucket? x = c.inFlightItems.bucket? x) :
    c'.Committable x ↔ c.Committable x := by
  simp only [Committable, LockedConfigPairMap.exists, LockedConfigPairMap.isBucketLocked, h]

theorem not_committable_drop : ¬(c.drop id).Committable id := by
  simp [Committable, LockedConfigPairMap.exists, bucket?_drop]

theorem key_of_oldItem {p : ConfigPair} (h : c.oldItem item = some p) :
    p.key = item.key.lastKey := by
  rw [oldItem] at h
  split at h
  · cases h
  · split at h
    · rw [← Option.some.inj h]
    · rw [← Option.some.inj h]
      rfl

/-- What a commit applies is staged, or the pair of `last.*` for something staged. -/
theorem mem_toApply {p : ConfigPair} (hp : p ∈ c.toApply id) :
    p ∈ c.inFlightItems.staged id ∨
      ∃ q ∈ c.inFlightItems.staged id, p.key = q.key.lastKey := by
  rcases List.mem_append.1 hp with hp | hp
  · exact .inl hp
  · obtain ⟨q, hq, hold⟩ := List.mem_filterMap.1 hp
    exact .inr ⟨q, hq, key_of_oldItem hold⟩

/-- After a commit, the bucket holds no more than what it applies. -/
theorem mem_toApply_of_mem_staged_commit
    (h : item ∈ (c.commit env id configOpt).1.inFlightItems.staged id) : item ∈ c.toApply id := by
  by_cases ha : c.Committable id ∧ (c.logged env id).2 ≠ none
  · simp only [LockedConfigPairMap.staged, LockedConfigPairMap.getBucket, bucket?_commit_self,
      ha.1, not_true_eq_false, if_false, if_neg ha.2] at h
    split at h
    · cases h
    · exact h
  · rw [staged_commit_self ha] at h
    exact List.mem_append_left _ h

/-! ## What a commit takes for a change -/

/-- The last item of a list for a key. -/
def lastItem (k : ConfigKey) (items : ConfigPairList) : Option ConfigPair :=
  lastWrite k (items.map fun p => (p.key, p))

theorem lastItem_append {items' : ConfigPairList} :
    lastItem k (items ++ items') = (lastItem k items').or (lastItem k items) := by
  rw [lastItem, List.map_append, lastWrite_append]
  rfl

theorem mem_of_lastItem {p : ConfigPair} (h : lastItem k items = some p) :
    p ∈ items ∧ p.key = k := by
  obtain ⟨q, hq, heq⟩ := List.mem_map.1 (mem_of_lastWrite_eq_some h)
  cases heq
  exact ⟨hq, rfl⟩

theorem lastItem_of_unique {p : ConfigPair} (hp : p ∈ items)
    (h : ∀ q ∈ items, q.key = p.key → q = p) : lastItem p.key items = some p := by
  rcases hl : lastItem p.key items with _ | q
  · exact absurd rfl (lastWrite_eq_none_iff.1 hl _ (List.mem_map_of_mem hp))
  · obtain ⟨hq, hk⟩ := mem_of_lastItem hl
    rw [h q hq hk]

theorem lastItem_eq_none_iff : lastItem k items = none ↔ ∀ p ∈ items, p.key ≠ k := by
  simp [lastItem, lastWrite_eq_none_iff]

/-- Of the writes of a list of items, the last item for a key counts. -/
theorem lastWrite_writes :
    lastWrite k items.writes = (lastItem k items).map fun p => p.value.toOption := by
  rw [lastItem, ← lastWrite_map, List.map_map]
  rfl

theorem find?_mergeItem {m : ConfigPairMap} : (mergeItem m item).find? k =
    if k.inLast = false ∧ item.key = k then some item else m.find? k := by
  rw [mergeItem]
  by_cases hl : item.key.inLast = true
  · rw [if_pos hl, if_neg]
    rintro ⟨hk, rfl⟩
    simp [hk] at hl
    -- An earlier item of the key is taken out first, so that the later one goes in.
  · have herased : (if m.count item.key then m.erase item.key else m).find? item.key = none := by
      split
      · rw [ConfigPairMap.find?_erase, if_pos rfl]
      · next hcount => simpa [ConfigPairMap.count] using hcount
    rw [if_neg hl, ConfigPairMap.find?_emplace herased]
    by_cases hk : k = item.key
    · subst hk
      simp [hl]
    · have hk' : ¬(k.inLast = false ∧ item.key = k) := fun h => hk h.2.symm
      rw [if_neg hk, if_neg hk']
      split
      · rw [ConfigPairMap.find?_erase, if_neg hk]
      · rfl

/-- Merging items keeps the last one of each key outside `last.*`. -/
theorem find?_foldl_mergeItem {m : ConfigPairMap} : (items.foldl mergeItem m).find? k =
    if k.inLast = false then (lastItem k items).or (m.find? k) else m.find? k := by
  induction items generalizing m with
  | nil => simp [lastItem]
  | cons item items ih =>
    rw [List.foldl_cons, ih, find?_mergeItem]
    cases hl : k.inLast
    · by_cases hk : item.key = k
      · simp [lastItem, lastWrite, hk]
      · simp [lastItem, lastWrite, hk]
    · simp

theorem isChange_iff (hk : item.key.isWildcard = false) (hread : item.key.Readable) :
    c.isChange item = true ↔ ∀ v, c.store item.key = some v → v.eqOp item.value = false := by
  rw [isChange, ConfigKey.ofString_toString hread,
    MemoryCache.unwrapSinglePair_get hk]
  rcases h : c.systemStore.store item.key with _ | v <;> simp [store, h]

/-- A key that is not read back from its text is looked up as the empty key. -/
theorem isChange_of_not_readable (hread : ¬item.key.Readable)
    (hempty : c.store (.ofString "") = none) : c.isChange item = true := by
  have hkey : item.key.toString = "" := by
    rw [ConfigKey.toString, not_not.1 hread]
    rfl
  rw [isChange, hkey, MemoryCache.unwrapSinglePair_get (by decide)]
  rw [store] at hempty
  rw [hempty]
  rfl

/-- The changes of a commit are the last items for their keys that differ from
    what is stored. -/
theorem mem_pruneUnchangedValues {p : ConfigPair} : p ∈ c.pruneUnchangedValues id ↔
    lastItem p.key (c.inFlightItems.staged id) = some p ∧ p.key.inLast = false ∧
      c.isChange p = true := by
  rw [pruneUnchangedValues, LockedConfigPairMap.staged]
  rcases c.inFlightItems.getBucket id with _ | items
  · simp [lastItem]
  · simp only [List.mem_filter, ConfigPairMap.mem_pairs, find?_foldl_mergeItem,
      ConfigPairMap.find?_empty, Option.or_none, Option.getD_some]
    cases p.key.inLast <;> simp

/-- The changes of a commit have distinct keys. -/
theorem nodup_pruneUnchangedValues : ((c.pruneUnchangedValues id).map ConfigPair.key).Nodup := by
  rw [pruneUnchangedValues]
  split
  · exact List.nodup_nil
  · exact (ConfigPairMap.nodup_pairs _).sublist (List.filter_sublist.map _)

/-- The pair of `last.*` saves the stored value, Empty if there is none. -/
theorem oldItem_of_not_wildcard (hk : item.key.isWildcard = false) : c.oldItem item =
    if item.key.inDefault || item.key.inLast then none
    else some ⟨item.key.lastKey, (c.store item.key).getD .none⟩ := by
  rw [oldItem, MemoryCache.unwrapSinglePair_get hk, store]
  rcases c.systemStore.store item.key with _ | v <;> rfl

theorem oldItem_eq (hk : item.key.Plain) : c.oldItem item =
    if item.key.inDefault || item.key.inLast then none
    else some ⟨item.key.lastKey, (c.store item.key).getD .none⟩ :=
  oldItem_of_not_wildcard hk.not_wildcard

theorem inLast_of_oldItem {p : ConfigPair} (hk : item.key.subKeys ≠ [])
    (h : c.oldItem item = some p) : p.key.inLast = true := by
  rw [key_of_oldItem h]
  exact ConfigKey.inLast_lastKey hk

/-- Outside `last.*`, a commit applies the items of the bucket and nothing else. -/
theorem lastItem_toApply (hi : ∀ p ∈ c.inFlightItems.staged id, p.key.subKeys ≠ [])
    (hk : k.inLast = false) :
    lastItem k (c.toApply id) = lastItem k (c.inFlightItems.staged id) := by
  -- The pairs behind the items are all in `last.*`.
  have hnone : lastItem k ((c.inFlightItems.staged id).filterMap c.oldItem) = none := by
    refine lastItem_eq_none_iff.2 fun p hp hpk => ?_
    obtain ⟨item, hitem, hold⟩ := List.mem_filterMap.1 hp
    have := inLast_of_oldItem (hi item hitem) hold
    rw [hpk, hk] at this
    cases this
  rw [toApply, lastItem_append, hnone, Option.none_or]

/-! ## What a commit logs -/

/-- The retained commits, from oldest to youngest. -/
def commits (c : Configurator) : List CommitHistory := c.commitHistory.commitHistory.commits

/-- The commit that is logged, if there are changes to log. -/
def newCommit (c : Configurator) (env : Environment) (clientId : ClientId) : CommitHistory :=
  c.commitHistory.newCommit c.get env (c.pruneUnchangedValues clientId)

theorem logged_of_no_changes (h : c.pruneUnchangedValues id = []) : c.logged env id =
    ({ c with inFlightItems := c.inFlightItems.lockBucket id }, some 0) := by
  rw [logged, logChanged, h]
  rfl

theorem logged_of_changes (env : Environment) (h : c.pruneUnchangedValues id ≠ []) :
    (c.logged env id).2 = (c.commitHistory.logCommit c.get env (c.pruneUnchangedValues id)).2 ∧
      (c.logged env id).1.commitHistory =
        (c.commitHistory.logCommit c.get env (c.pruneUnchangedValues id)).1 := by
  rw [logged, logChanged, if_pos (List.length_pos_iff.2 h)]
  exact ⟨rfl, rfl⟩

/-- Logging throws if there are changes to log and the file for them cannot be opened. -/
theorem logged_eq_none_iff : (c.logged env id).2 = none ↔ c.pruneUnchangedValues id ≠ [] ∧
    (c.commitHistory.storage.serializer (c.newCommit env id)).isSome = true ∧
      env.historyOpens = false := by
  by_cases h : c.pruneUnchangedValues id = []
  · simp [logged_of_no_changes h, h]
  · rw [(logged_of_changes env h).1, TransactionManager.logCommit_eq_none_iff]
    simp only [h, ne_eq, not_false_eq_true, true_and]
    rfl

/-- The changes of a commit can be logged, if there are any. -/
def CanLog (c : Configurator) (env : Environment) (clientId : ClientId) : Prop :=
  c.pruneUnchangedValues clientId ≠ [] →
    (c.commitHistory.storage.serializer (c.newCommit env clientId)).isSome = true →
      env.historyOpens = true

theorem logged_ne_none_iff : (c.logged env id).2 ≠ none ↔ c.CanLog env id := by
  rw [ne_eq, logged_eq_none_iff, CanLog]
  push Not
  simp only [Bool.not_eq_false]

/-- A bucket that is not locked is committed without throwing if its changes can be logged. -/
theorem commit_ne_threw_iff (hl : c.inFlightItems.isBucketLocked id = false) :
    (c.commit env id configOpt).2 ≠ .threw ↔ c.CanLog env id := by
  rw [← logged_ne_none_iff]
  obtain ⟨hc, h⟩ | ⟨hc, hn, h⟩ | ⟨hc, commitId, hn, h⟩ := commit_cases c env id configOpt
  · -- There is no bucket at all, hence nothing to log.
    have hnone : c.inFlightItems.getBucket id = none := by
      by_contra hb
      rw [LockedConfigPairMap.getBucket, Option.map_eq_none_iff] at hb
      exact hc ⟨Option.isSome_iff_ne_none.2 hb, hl⟩
    have hprune : c.pruneUnchangedValues id = [] := by rw [pruneUnchangedValues, hnone]
    refine iff_of_true (by simp [h]) ?_
    rw [logged_of_no_changes hprune]
    simp
  · simp [h, hn]
  · refine iff_of_true ?_ (by simp [hn])
    rw [h]
    split <;> simp

/-- With a history that can be written, logging does not throw. -/
theorem logged_ne_none (h : env.historyOpens = true) : (c.logged env id).2 ≠ none := by
  rw [ne_eq, logged_eq_none_iff, h]
  simp

/-- Changes are logged in a new commit behind the others. If this throws, no old
    commits are dropped. -/
theorem commits_logged : (c.logged env id).1.commits =
    if c.pruneUnchangedValues id = [] then c.commits
    else if (c.logged env id).2 = none then c.commits ++ [c.newCommit env id]
    else (c.commits ++ [c.newCommit env id]).drop
      (c.commits.length + 1 - c.commitHistory.maxStorage) := by
  by_cases h : c.pruneUnchangedValues id = []
  · rw [if_pos h, logged_of_no_changes h]
    rfl
  · obtain ⟨hres, hhist⟩ := logged_of_changes env h
    rw [if_neg h, commits, hhist, hres]
    rcases hl : (c.commitHistory.logCommit c.get env (c.pruneUnchangedValues id)).2 with
      _ | commitId
    · rw [if_pos rfl, TransactionManager.logCommit_of_throw hl]
      rfl
    · rw [if_neg (by simp), TransactionManager.commits_logCommit hl]
      rfl

theorem commits_commit : (c.commit env id configOpt).1.commits =
    if c.Committable id then (c.logged env id).1.commits else c.commits := by
  obtain ⟨hc, h⟩ | ⟨hc, _, h⟩ | ⟨hc, commitId, _, h⟩ := commit_cases c env id configOpt
  · rw [h, if_neg hc]
  · rw [h, if_pos hc]
  · rw [h, if_pos hc, commits, commits, ← commitHistory_applied (c := c)]
    split <;> rfl

/-- The commits after a commit are some of those before and the new one. -/
theorem mem_commits_commit {commit : CommitHistory}
    (h : commit ∈ (c.commit env id configOpt).1.commits) :
    commit ∈ c.commits ∨ c.Committable id ∧ commit = c.newCommit env id := by
  rw [commits_commit] at h
  split at h
  · next hc =>
    have hnew : commit ∈ c.commits ++ [c.newCommit env id] →
        commit ∈ c.commits ∨ c.Committable id ∧ commit = c.newCommit env id := fun hmem =>
      (List.mem_append.1 hmem).imp_right fun hmem => ⟨hc, List.mem_singleton.1 hmem⟩
    rw [commits_logged] at h
    split at h
    · exact .inl h
    · split at h
      · exact hnew h
      · exact hnew (List.mem_of_mem_drop h)
  · exact .inl h

end Configurator

end SysAdmin
