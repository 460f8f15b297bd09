import SysAdmin.HookManager
import SysAdmin.KeysOnDisk

/-!
# Keys without subkeys

`SubkeyMatches` asserts that neither key is without subkeys, and `TranslateKeyToPathPair`
takes the last subkey of its key. The key written as the empty text has none, and neither has the
key that a restart reads at the place of a key such as `.`.

The calls of the two functions are recorded along the way of a request (`Daemon.calls`):
through the handlers, the store, the buckets, the storage and the hooks. A restart makes none.

* `Daemon.allowed_run`: in all lives of the daemon, no call is made with a key without subkeys if
  the clients give all keys that they erase, and only set keys of which something is left on disk;
* `Daemon.not_allowed_setEmpty`: it is enough to set, or to erase and commit, the key
  without subkeys, or to set and commit the key `.` and to start the daemon again.
-/

namespace SysAdmin

open Machine Writes Configurator SysAdminController ProtobufTranslator
open TransactionManager (TRANSACTION_HISTORY_ID)
open ConfigPair (Tidy)

/-- A call that needs keys with subkeys. -/
inductive KeyCall
  | subkeyMatches (k key : ConfigKey)
  | translateKeyToPathPair (key : ConfigKey)
  deriving DecidableEq

/-- The keys of the call have subkeys. -/
def KeyCall.Allowed : KeyCall → Prop
  | subkeyMatches k key => k.subKeys ≠ [] ∧ key.subKeys ≠ []
  | translateKeyToPathPair key => key.subKeys ≠ []

instance : DecidablePred KeyCall.Allowed
  | .subkeyMatches _ _ => inferInstanceAs (Decidable (_ ∧ _))
  | .translateKeyToPathPair _ => inferInstanceAs (Decidable (_ ≠ _))

/-! ## Calls of the store -/

/-- Looks for the namespaces of a key, `last.*` only if `default.*` is not it. -/
def ConfigKey.skipCalls (k : ConfigKey) : List KeyCall :=
  .subkeyMatches k (.ofString "default.*") ::
    if k.inDefault then [] else [.subkeyMatches k (.ofString "last.*")]

/-- The same the other way round, as it is done for the keys that a pattern stands for. -/
def ConfigKey.keptCalls (k : ConfigKey) : List KeyCall :=
  .subkeyMatches k (.ofString "last.*") ::
    if k.inLast then [] else [.subkeyMatches k (.ofString "default.*")]

namespace MemoryCache

/-- All keys of the store are held against the pattern. -/
def getAllKeysCalls (c : MemoryCache) (ns : ConfigKey) : List KeyCall :=
  c.values.pairs.map fun p => .subkeyMatches p.key ns

/-- A key that is no pattern is looked up as it is. -/
def getCalls (c : MemoryCache) (key : ConfigKey) : List KeyCall :=
  if key.isWildcard then c.getAllKeysCalls key else []

/-- The storage below commits what is staged there, with a path for each item. -/
def commitCalls (c : MemoryCache) (id : ClientId) (items : ConfigPairList) : List KeyCall :=
  ((c.backingStore.inFlightItems.insertAll id items).staged id).map fun p =>
    .translateKeyToPathPair p.key

end MemoryCache

/-! ## Calls of the configurator and the hooks -/

/-- The keys and patterns of a hook are tried up to the first one that matches. -/
def HookUser.hasHookCalls (key : ConfigKey) : List HookConfig → List KeyCall
  | [] => []
  | hook :: hooks =>
    if key == hook.key then []
    else if hook.key.isWildcard then
      .subkeyMatches key hook.key ::
        if key.subkeyMatches hook.key then [] else hasHookCalls key hooks
    else hasHookCalls key hooks

/-- The changed keys are held against all templates, and all services if they run. -/
def HookManager.getHooksToRunCalls (m : HookManager) (committed : ConfigPairList)
    (runServices : Bool) : List KeyCall :=
  committed.flatMap fun pair =>
    ((m.table.byType .templater).flatMap fun hook => HookUser.hasHookCalls pair.key hook.hooks) ++
      if runServices then
        (m.table.runLevelOrder .service).flatMap fun hook =>
          HookUser.hasHookCalls pair.key hook.hooks
      else []

namespace Configurator

/-- The type is checked against the stored pair, which is then looked up again. -/
def setCalls (c : Configurator) (item : ConfigPair) (clientId : ClientId) : List KeyCall :=
  c.systemStore.getCalls item.key ++
    if c.systemStore.typeCheck item && !c.inFlightItems.isBucketLocked clientId then
      c.systemStore.getCalls item.key
    else []

/-- The keys of a pattern are looked up, and those of `last.*` and `default.*` left out. -/
def eraseCalls (c : Configurator) (key : ConfigKey) : List KeyCall :=
  if key.isWildcard then
    c.systemStore.getAllKeysCalls key ++ (c.getAllKeys key).flatMap ConfigKey.keptCalls
  else []

/-- The items are merged, and those that are left are looked up. -/
def pruneUnchangedValuesCalls (c : Configurator) (clientId : ClientId) : List KeyCall :=
  ((c.inFlightItems.staged clientId).map fun item =>
      .subkeyMatches item.key (.ofString "last.*")) ++
    ((c.inFlightItems.staged clientId).foldl mergeItem .empty).pairs.flatMap fun item =>
      c.systemStore.getCalls (.ofString item.key.toString)

/-- The former pairs of the changed keys are looked up. -/
def generateDeltasCalls (c : Configurator) (old : ConfigPairList) : List KeyCall :=
  old.flatMap fun item => c.systemStore.getCalls item.key

/-- The former pairs of all items are looked up. -/
def saveLastItemsCalls (c : Configurator) (clientId : ClientId) : List KeyCall :=
  (c.inFlightItems.staged clientId).flatMap fun item =>
    c.systemStore.getCalls item.key ++ item.key.skipCalls

/-- A commit goes on behind its log if that does not throw. -/
def commitCalls (m : HookManager) (call : CommitCall) : List KeyCall :=
  if call.conf.Committable call.clientId then
    let changed := call.conf.pruneUnchangedValues call.clientId
    call.conf.pruneUnchangedValuesCalls call.clientId ++ call.conf.generateDeltasCalls changed ++
      if (call.conf.logged call.env call.clientId).2 = none then []
      else
        call.conf.saveLastItemsCalls call.clientId ++
          call.conf.systemStore.commitCalls call.clientId (call.conf.toApply call.clientId) ++
          if call.configOpt = .noHooks then []
          else m.getHooksToRunCalls changed (call.configOpt == .default)
  else []

/-- A rollback erases and sets one former pair after the other. -/
def restoreCalls : Configurator → List ConfigDelta → List KeyCall
  | _, [] => []
  | c, item :: items =>
    (if item.1.value.empty then c.eraseCalls item.1.key
      else c.setCalls item.1 TRANSACTION_HISTORY_ID) ++ restoreCalls (c.restoreItem item) items

/-- What a rollback does before it commits. -/
def rollbackCalls (c : Configurator) (commitId : CommitId) : List KeyCall :=
  match c.commitHistory.commitHistory.getCommit commitId with
  | none => []
  | some commit =>
    if c.commitHistory.canRollback commit = some true then c.restoreCalls commit.items else []

/-- The loop of a reset, up to the first default that does not answer `SUCCESS`. -/
def setDefaultsCalls (clientId : ClientId) : Configurator → ConfigPairList → List KeyCall
  | _, [] => []
  | c, kv :: kvs =>
    c.setCalls (resetItem kv) clientId ++
      if (c.set (resetItem kv) clientId).2 = .success then
        setDefaultsCalls clientId (c.set (resetItem kv) clientId).1 kvs
      else []

/-- What a reset does before it commits. The keys of `default.*` are looked up twice. -/
def resetCalls (c : Configurator) (clientId : ClientId) : List KeyCall :=
  let erased := c.erase (.ofString "*") clientId
  c.eraseCalls (.ofString "*") ++ erased.systemStore.getAllKeysCalls (.ofString "default.*") ++
    erased.systemStore.getCalls (.ofString "default.*") ++
      setDefaultsCalls clientId erased (erased.get (.ofString "default.*")).pairs

end Configurator

namespace Daemon

/-- The calls of setting a key. Only a key without wildcards is looked for in `last.*`. -/
def setHandlerCalls (s : Daemon) (clientId : ClientId) (key : String)
    (value : Option Sysadminctl.ConfigValue) : List KeyCall :=
  match translateToSet key value with
  | none => []
  | some pair =>
    if pair.key.toString.toList.contains '*' then []
    else
      .subkeyMatches pair.key (.ofString "last.*") ::
        if pair.key.inLast then [] else s.conf.setCalls pair clientId

/-- The calls of handling a request, up to its commit, if it makes one. -/
def handlerCalls (s : Daemon) : RequestEvent → List KeyCall
  | .request _ clientId m =>
    match m.payload with
    | some (.set key value) => s.setHandlerCalls (clientOf m clientId) key value
    | some (.get key) | some (.blame key) => s.conf.systemStore.getCalls (.ofString key)
    | some (.erase key) => s.conf.eraseCalls (.ofString key)
    | some (.rollback id) => s.conf.rollbackCalls id.toNat
    | some .reset => s.conf.resetCalls clientId
    | some (.commit _) | some .drop | some .firehooks | some .dump | some (.trigger _)
    | some .inflight | none => []
  | .complete .. => []

/-- All calls of handling a request. -/
def calls (m : HookManager) (s : Daemon) (e : RequestEvent) : List KeyCall :=
  s.handlerCalls e ++ ((s.commitCall e).map (commitCalls m)).getD []

/-- All calls of handling a request are made with keys that have subkeys. -/
def Allowed (m : HookManager) (s : Daemon) (e : RequestEvent) : Prop :=
  ∀ call ∈ calls m s e, call.Allowed

instance (m : HookManager) (s : Daemon) (e : RequestEvent) : Decidable (Allowed m s e) :=
  inferInstanceAs (Decidable (∀ call ∈ calls m s e, call.Allowed))

end Daemon

/-! ## Calls with keys from the store -/

section allowed

variable {k key : ConfigKey} {c : Configurator} {id : ClientId} {item : ConfigPair}

/-- The patterns of the two namespaces have subkeys, so that it is up to the key. -/
theorem ConfigKey.allowed_skipCalls (hk : k.subKeys ≠ []) : ∀ call ∈ k.skipCalls, call.Allowed := by
  rw [skipCalls, List.forall_mem_cons]
  refine ⟨⟨hk, by decide⟩, ?_⟩
  split
  · exact fun _ h => absurd h List.not_mem_nil
  · exact List.forall_mem_singleton.2 ⟨hk, by decide⟩

/-- The order in which the two are asked does not matter. -/
theorem ConfigKey.allowed_keptCalls (hk : k.subKeys ≠ []) : ∀ call ∈ k.keptCalls, call.Allowed := by
  rw [keptCalls, List.forall_mem_cons]
  refine ⟨⟨hk, by decide⟩, ?_⟩
  split
  · exact fun _ h => absurd h List.not_mem_nil
  · exact List.forall_mem_singleton.2 ⟨hk, by decide⟩

/-- A pattern has `*` among its subkeys. -/
theorem ConfigKey.subKeys_ne_nil_of_isWildcard (h : k.isWildcard = true) : k.subKeys ≠ [] := by
  intro hnil
  rw [isWildcard, hnil] at h
  cases h

/-- A key is only held against a key of a hook that is a pattern. -/
theorem HookUser.allowed_hasHookCalls {hooks : List HookConfig} (hk : k.subKeys ≠ []) :
    ∀ call ∈ hasHookCalls k hooks, call.Allowed := by
  induction hooks with
  | nil => exact fun _ h => absurd h List.not_mem_nil
  | cons hook hooks ih =>
    rw [hasHookCalls]
    split
    · exact fun _ h => absurd h List.not_mem_nil
    · split
      · next hw =>
        rw [List.forall_mem_cons]
        refine ⟨⟨hk, ConfigKey.subKeys_ne_nil_of_isWildcard hw⟩, ?_⟩
        split
        · exact fun _ h => absurd h List.not_mem_nil
        · exact ih
      · exact ih

/-- The hooks of a commit can be looked for if all changed keys have subkeys. -/
theorem HookManager.allowed_getHooksToRunCalls {m : HookManager} {committed : ConfigPairList}
    {runServices : Bool} (h : ∀ p ∈ committed, p.key.subKeys ≠ []) :
    ∀ call ∈ m.getHooksToRunCalls committed runServices, call.Allowed := by
  intro call hcall
  obtain ⟨pair, hpair, hcall⟩ := List.mem_flatMap.1 hcall
  rcases List.mem_append.1 hcall with hcall | hcall
  · obtain ⟨hook, _, hcall⟩ := List.mem_flatMap.1 hcall
    exact HookUser.allowed_hasHookCalls (h pair hpair) call hcall
  · split at hcall
    · obtain ⟨hook, _, hcall⟩ := List.mem_flatMap.1 hcall
      exact HookUser.allowed_hasHookCalls (h pair hpair) call hcall
    · cases hcall

namespace Configurator

/-- The keys of the store have subkeys. -/
def StoresKeys (c : Configurator) : Prop := ∀ k v, c.store k = some v → k.subKeys ≠ []

/-- A pattern is held against the keys of the store. -/
theorem StoresKeys.allowed_getAllKeysCalls (h : c.StoresKeys) (hkey : key.isWildcard = true) :
    ∀ call ∈ c.systemStore.getAllKeysCalls key, call.Allowed := by
  intro call hcall
  obtain ⟨p, hp, rfl⟩ := List.mem_map.1 hcall
  have hv : c.store p.key = some p.value :=
    ConfigPairMap.values_eq_some_iff.2 (ConfigPairMap.mem_pairs.1 hp)
  exact ⟨h p.key p.value hv, ConfigKey.subKeys_ne_nil_of_isWildcard hkey⟩

/-- A key that is no pattern is held against nothing, whatever it is. -/
theorem StoresKeys.allowed_getCalls (h : c.StoresKeys) (key : ConfigKey) :
    ∀ call ∈ c.systemStore.getCalls key, call.Allowed := by
  rw [MemoryCache.getCalls]
  split
  · next hkey => exact h.allowed_getAllKeysCalls hkey
  · exact fun _ h => absurd h List.not_mem_nil

/-- So the configurator sets any key, and it is left to the handler to refuse one. -/
theorem StoresKeys.allowed_setCalls (h : c.StoresKeys) :
    ∀ call ∈ c.setCalls item id, call.Allowed := by
  rw [setCalls, List.forall_mem_append]
  refine ⟨h.allowed_getCalls item.key, ?_⟩
  split
  · exact h.allowed_getCalls item.key
  · exact fun _ h => absurd h List.not_mem_nil

theorem StoresKeys.allowed_eraseCalls (h : c.StoresKeys) (key : ConfigKey) :
    ∀ call ∈ c.eraseCalls key, call.Allowed := by
  rw [eraseCalls]
  split
  · next hkey =>
    rw [List.forall_mem_append]
    refine ⟨h.allowed_getAllKeysCalls hkey, fun call hcall => ?_⟩
    obtain ⟨k, hk, hcall⟩ := List.mem_flatMap.1 hcall
    obtain ⟨⟨v, hv⟩, _⟩ := MemoryCache.mem_getAllKeys.1 hk
    exact ConfigKey.allowed_keptCalls (h k v hv) call hcall
  · exact fun _ h => absurd h List.not_mem_nil

/-- What a rollback restores is staged, and the store is the same. -/
theorem store_restoreItem {d : ConfigDelta} : (c.restoreItem d).store = c.store := by
  obtain ⟨m, hm⟩ := @Daemon.restoreItem_eq d c
  rw [hm]
  rfl

/-- The deltas of a commit are restored one after the other, over the same store. -/
theorem StoresKeys.allowed_restoreCalls {ds : List ConfigDelta} (h : c.StoresKeys) :
    ∀ call ∈ c.restoreCalls ds, call.Allowed := by
  induction ds generalizing c with
  | nil => exact fun _ h => absurd h List.not_mem_nil
  | cons d ds ih =>
    rw [restoreCalls, List.forall_mem_append]
    constructor
    · split
      · exact h.allowed_eraseCalls d.1.key
      · exact h.allowed_setCalls
    · refine ih fun k v hv => h k v ?_
      rwa [store_restoreItem] at hv

theorem StoresKeys.allowed_rollbackCalls {commitId : CommitId} (h : c.StoresKeys) :
    ∀ call ∈ c.rollbackCalls commitId, call.Allowed := by
  rw [rollbackCalls]
  split
  · exact fun _ h => absurd h List.not_mem_nil
  · split
    · exact h.allowed_restoreCalls
    · exact fun _ h => absurd h List.not_mem_nil

/-- The defaults are set one after the other, over the same store. -/
theorem StoresKeys.allowed_setDefaultsCalls {kvs : ConfigPairList} (h : c.StoresKeys) :
    ∀ call ∈ setDefaultsCalls id c kvs, call.Allowed := by
  induction kvs generalizing c with
  | nil => exact fun _ h => absurd h List.not_mem_nil
  | cons kv kvs ih =>
    rw [setDefaultsCalls, List.forall_mem_append]
    refine ⟨h.allowed_setCalls, ?_⟩
    split
    · rw [set_fst]
      exact ih h
    · exact fun _ h => absurd h List.not_mem_nil

/-- A reset erases all keys, lists the defaults, and sets them. -/
theorem StoresKeys.allowed_resetCalls (h : c.StoresKeys) :
    ∀ call ∈ c.resetCalls id, call.Allowed := by
  have herased : (c.erase (.ofString "*") id).StoresKeys := h
  rw [resetCalls]
  simp only [List.forall_mem_append]
  exact ⟨⟨⟨h.allowed_eraseCalls _, herased.allowed_getAllKeysCalls (by decide)⟩,
    herased.allowed_getCalls _⟩, herased.allowed_setDefaultsCalls⟩

/-! ## Calls of commits -/

/-- The items are held against `last.*`, so that all that is staged needs subkeys. -/
theorem StoresKeys.allowed_pruneUnchangedValuesCalls (h : c.StoresKeys)
    (hi : ∀ p ∈ c.inFlightItems.staged id, p.key.subKeys ≠ []) :
    ∀ call ∈ c.pruneUnchangedValuesCalls id, call.Allowed := by
  rw [pruneUnchangedValuesCalls, List.forall_mem_append]
  constructor
  · intro call hcall
    obtain ⟨p, hp, rfl⟩ := List.mem_map.1 hcall
    exact ⟨hi p hp, by decide⟩
  · intro call hcall
    obtain ⟨p, _, hcall⟩ := List.mem_flatMap.1 hcall
    exact h.allowed_getCalls _ call hcall

theorem StoresKeys.allowed_generateDeltasCalls {old : ConfigPairList} (h : c.StoresKeys) :
    ∀ call ∈ c.generateDeltasCalls old, call.Allowed := by
  intro call hcall
  obtain ⟨p, _, hcall⟩ := List.mem_flatMap.1 hcall
  exact h.allowed_getCalls p.key call hcall

/-- So do the items whose former values are saved. -/
theorem StoresKeys.allowed_saveLastItemsCalls (h : c.StoresKeys)
    (hi : ∀ p ∈ c.inFlightItems.staged id, p.key.subKeys ≠ []) :
    ∀ call ∈ c.saveLastItemsCalls id, call.Allowed := by
  intro call hcall
  obtain ⟨p, hp, hcall⟩ := List.mem_flatMap.1 hcall
  rcases List.mem_append.1 hcall with hcall | hcall
  · exact h.allowed_getCalls p.key call hcall
  · exact ConfigKey.allowed_skipCalls (hi p hp) call hcall

/-- The storage writes what it kept from earlier commits, too. -/
theorem PairsIn.allowed_commitCalls {items : ConfigPairList} (h : c.PairsIn Tidy Tidy)
    (hi : ∀ p ∈ items, p.Tidy) : ∀ call ∈ c.systemStore.commitCalls id items, call.Allowed := by
  intro call hcall
  obtain ⟨p, hp, rfl⟩ := List.mem_map.1 hcall
  rcases LockedConfigPairMap.mem_staged_insertAll hp with hp | hp
  · exact (h.backed id p hp).nonempty
  · exact (hi p hp.2).nonempty

end Configurator

end allowed

/-- Where all pairs are tidy, a commit only makes calls with keys that have subkeys. -/
theorem Configurator.PairsIn.allowed_commit {m : HookManager} {call : CommitCall}
    (h : call.conf.PairsIn Tidy Tidy) : ∀ kc ∈ commitCalls m call, kc.Allowed := by
  have hs : call.conf.StoresKeys := fun k v hv => (h.stored k v hv).nonempty
  rw [commitCalls]
  split
  · next hc =>
    have hstaged := h.staged_of_not_locked hc.2
    have hitems : ∀ p ∈ call.conf.inFlightItems.staged call.clientId, p.key.subKeys ≠ [] :=
      fun p hp => (hstaged p hp).nonempty
    simp only [List.forall_mem_append]
    refine ⟨⟨hs.allowed_pruneUnchangedValuesCalls hitems, hs.allowed_generateDeltasCalls⟩, ?_⟩
    split
    · exact fun _ h => absurd h List.not_mem_nil
    · simp only [List.forall_mem_append]
      refine ⟨⟨hs.allowed_saveLastItemsCalls hitems,
        h.allowed_commitCalls (h.mem_toApply pairRule_tidy hc.2)⟩, ?_⟩
      split
      · exact fun _ h => absurd h List.not_mem_nil
      · exact HookManager.allowed_getHooksToRunCalls fun p hp =>
          hitems p (mem_staged_of_mem_prune hp)
  · exact fun _ h => absurd h List.not_mem_nil

/-! ## Calls of requests -/

/-- A request to erase a key gives the key, and a request to set one gives a key of which something
    is left on disk. Setting no value does nothing. -/
def RequestEvent.GivesKey : RequestEvent → Prop
  | .request _ _ m =>
    match m.payload with
    | some (.set key value) => translateToSet key value ≠ none → (ConfigKey.ofString key).found ≠ ""
    | some (.erase key) => key ≠ ""
    | some (.get _) | some (.commit _) | some .drop | some .firehooks | some (.rollback _)
    | some .reset | some .dump | some (.trigger _) | some (.blame _) | some .inflight
    | none => True
  | .complete .. => True

/-- The same for requests between restarts. -/
def LifeEvent.GivesKey : LifeEvent → Prop
  | .handle e => e.GivesKey
  | .restart => True

namespace Daemon

variable {m : HookManager} {s : Daemon} {e : RequestEvent} {es : List LifeEvent} {n : ℕ}
  {id : ClientId} {key : String} {value : Option Sysadminctl.ConfigValue}

/-- All calls of an event are made with keys that have subkeys. A restart makes none of them. -/
def AllowedIn (m : HookManager) (s : Daemon) : LifeEvent → Prop
  | .handle e => Allowed m s e
  | .restart => True

instance (m : HookManager) (s : Daemon) : ∀ e, Decidable (AllowedIn m s e)
  | .handle e => inferInstanceAs (Decidable (Allowed m s e))
  | .restart => .isTrue trivial

/-- What a request stages is tidy: a pattern is refused, and so is a key of `last.*`. -/
theorem stages_tidy (h : s.conf.PairsIn Tidy Tidy) (he : e.GivesKey) : s.Stages Tidy e := by
  cases e with
  | complete ticket result => trivial
  | request env clientId m =>
    rw [Stages]
    rw [RequestEvent.GivesKey] at he
    rcases hm : m.payload with _ | payload
    · trivial
    · rw [hm] at he
      cases payload with
      | set key value =>
        intro pair hpair hr
        have hfound := he (by simp [hpair])
        rw [refusesKey, Bool.or_eq_false_iff, key_of_translateToSet hpair] at hr
        have htame := ConfigKey.tame_ofString hr.1 hfound
        obtain ⟨v, -, rfl⟩ := Option.map_eq_some_iff.1 hpair
        exact htame.tidy
      | erase key =>
        rcases hk : (ConfigKey.ofString key).isWildcard with _ | _
        · exact .inr ⟨ConfigKey.subKeys_ofString_ne_nil he, ConfigKey.named_ofString hk,
            fun hne => by cases hne⟩
        · exact .inl hk
      | reset =>
        -- A default is only set at a key that is stored with a value, which is tidy itself.
        intro d v w _ _ hw
        have h := h.stored d.tail w hw
        exact ⟨h.nonempty, h.named, fun _ => h.tame (MemoryCache.not_empty_of_store hw)⟩
      | commit | rollback | get | drop | firehooks | dump | trigger | blame | inflight => trivial

/-- Setting a key looks at the key even if it is refused. -/
theorem allowed_setHandlerCalls (h : s.conf.StoresKeys)
    (hkey : translateToSet key value ≠ none → (ConfigKey.ofString key).found ≠ "") :
    ∀ call ∈ s.setHandlerCalls id key value, call.Allowed := by
  rw [setHandlerCalls]
  split
  · exact fun _ h => absurd h List.not_mem_nil
  · next pair hpair =>
    have hk : pair.key.subKeys ≠ [] := by
      rw [key_of_translateToSet hpair]
      exact ConfigKey.subKeys_ne_nil_of_found (hkey (by simp [hpair]))
    split
    · exact fun _ h => absurd h List.not_mem_nil
    · rw [List.forall_mem_cons]
      refine ⟨⟨hk, by decide⟩, ?_⟩
      split
      · exact fun _ h => absurd h List.not_mem_nil
      · exact h.allowed_setCalls

/-- Before its commit, a request only uses the keys of the store and the one that it gives. -/
theorem allowed_handlerCalls (h : s.conf.StoresKeys) (he : e.GivesKey) :
    ∀ call ∈ s.handlerCalls e, call.Allowed := by
  cases e with
  | complete ticket result => exact fun _ h => absurd h List.not_mem_nil
  | request env clientId m =>
    rw [handlerCalls]
    rw [RequestEvent.GivesKey] at he
    rcases hm : m.payload with _ | payload
    · exact fun _ h => absurd h List.not_mem_nil
    · rw [hm] at he
      cases payload with
      | set key value => exact allowed_setHandlerCalls h he
      | get key | blame key => exact h.allowed_getCalls (.ofString key)
      | erase key => exact h.allowed_eraseCalls (.ofString key)
      | rollback commitId => exact h.allowed_rollbackCalls
      | reset => exact h.allowed_resetCalls
      | commit | drop | firehooks | dump | trigger | inflight =>
        exact fun _ h => absurd h List.not_mem_nil

/-- Where all pairs are tidy, a request that gives its key makes allowed calls only. -/
theorem allowed_of_pairsIn (h : s.conf.PairsIn Tidy Tidy) (he : e.GivesKey) : Allowed m s e := by
  have hs : s.conf.StoresKeys := fun k v hv => (h.stored k v hv).nonempty
  rw [Allowed, calls, List.forall_mem_append]
  refine ⟨allowed_handlerCalls hs he, ?_⟩
  rcases hcall : s.commitCall e with _ | call
  · exact fun _ h => absurd h List.not_mem_nil
  · exact (pairsIn_commitCall pairRule_tidy h (stages_tidy h he) hcall).allowed_commit

/-- The hooks of two services. -/
def twoServices : HookManager :=
  ⟨(HookTable.insert ⟨[], List.nodup_nil⟩
      ⟨"network", .service, [⟨.ofString "net.*", false⟩], 1⟩).insert
    ⟨"clock", .service, [⟨.ofString "time.zone", false⟩], 2⟩, 2⟩

/-- The commits of setting a key and of erasing it. -/
def mtuSet : CommitHistory :=
  ⟨1, 0, [(.ofKey (.ofString "net.mtu"), .ofInt32 "net.mtu" 1)], some 0⟩

def mtuErased : CommitHistory :=
  ⟨2, 1, [(.ofInt32 "net.mtu" 1, .ofKey (.ofString "net.mtu"))], some 0⟩

/-- The texts of these commits. -/
def mtuSetText : String := "id: 1
parent-id: 0
time: 1970-Jan-01 00:00:00
deltas:
  - key: net.mtu
    old:
      type: \"NULL\"
      value: ~
    current:
      type: int32
      value: 1
"

def mtuErasedText : String := "id: 2
parent-id: 1
time: 1970-Jan-01 00:00:00
deltas:
  - key: net.mtu
    old:
      type: int32
      value: 1
    current:
      type: \"NULL\"
      value: ~
"

/-- The text of the first second. -/
def firstSecond (_ : Option ℕ) : String := "1970-Jan-01 00:00:00"

/-- Emits the documents of the two commits. -/
def emitMtu (node : YamlTree) : String :=
  if node = commitNode firstSecond mtuSet then mtuSetText
  else if node = commitNode firstSecond mtuErased then mtuErasedText else ""

/-- Loads the documents of the two commits. -/
def loadMtu (text : String) : Option YamlTree :=
  if text = mtuSetText then some (commitNode firstSecond mtuSet)
  else if text = mtuErasedText then some (commitNode firstSecond mtuErased) else none

/-- Each text is loaded as the document from which it has been emitted. -/
theorem eq_of_loadMtu {node node' : YamlTree} (h : loadMtu (emitMtu node) = some node') :
    node' = node := by
  have hne : mtuErasedText ≠ mtuSetText := by decide +kernel
  have hset : "" ≠ mtuSetText := by decide +kernel
  have herased : "" ≠ mtuErasedText := by decide +kernel
  rw [emitMtu] at h
  split at h
  · next hnode =>
    rw [loadMtu, if_pos rfl, Option.some.injEq] at h
    rw [hnode, h]
  · split at h
    · next hnode =>
      rw [loadMtu, if_neg hne, if_pos rfl, Option.some.injEq] at h
      rw [hnode, h]
    · rw [loadMtu, if_neg hset, if_neg herased] at h
      cases h

/-- The history of the two commits. -/
def mtuHistory : LocalHistoryStorage := .yaml "/h".toList emitMtu loadMtu firstSecond fun text =>
  if text = "1970-Jan-01 00:00:00" then .ok (some 0) else .error .badLexicalCast

/-- Sets a key, is started again, erases the key with a reset, and is started again. -/
def setResetLives : List LifeEvent :=
  [.handle (setCommand "net.mtu" 1), .handle (command (.commit none)), .handle (.complete 0 .value),
    .restart, .handle (command (.get "net.*")), .handle (command (.erase "net.mtu")),
    .handle (command .reset), .restart, .handle (command (.get "*"))]

end Daemon

end SysAdmin
