import SysAdmin.Rollback

/-!
# Resets

The controller answers the requests of clients. A *reset* goes back to the factory
settings: it stages the erasing of all keys outside `default.*` and `last.*`, then the
values of `default.*` under their keys without `default`, and commits them with
whatever the client has staged before.

* `Daemon.reset_eq_run`: a reset is made of calls of the client, so that what holds
  over all runs holds over runs with resets, too;
* `Daemon.resets_iff`: when a reset keeps its promise (`Daemon.Resets`). It stops at a
  default whose key is not in the store, as if the types did not match, and it leaves
  alone what the client has staged for keys that are not in the store.
-/

namespace SysAdmin

open Machine Writes Configurator

/-- The status of a response. -/
inductive StatusCode
  | success
  | unknownError
  | typeMismatch
  | commandTranslationError
  | keyNotFound
  | externalProcessError
  | invalidKey
  | failedRollback
  | lockedQueue
  | hookNotFound
  | successKeyCreated
  | messageSizeError
  deriving DecidableEq

/-- The response to a reset: the id of the message it answers, its status, and the id
    of the commit, if there is one. -/
structure Response where
  id : Nat
  status : StatusCode
  commitId : Option CommitId
  deriving DecidableEq

/-- What a reset comes to: a default that cannot be set, or a commit. -/
inductive ResetOutcome
  | typeMismatch
  | commit (outcome : CommitOutcome)
  deriving DecidableEq

namespace SysAdminController

/-- The pair a default is set to. -/
def resetItem (kv : ConfigPair) : ConfigPair := ⟨kv.key.tail, kv.value⟩

/-- The loop of a reset: sets one default after the other, and stops at the first one
    that does not answer `SUCCESS`. -/
def setDefaults (c : Configurator) (clientId : ClientId) : ConfigPairList → Configurator × Bool
  | [] => (c, true)
  | kv :: kvs =>
    match c.set (resetItem kv) clientId with
    | (c, .success) => setDefaults c clientId kvs
    | (c, .typeMismatch) | (c, .lockedQueue) | (c, .successNewKey) => (c, false)

/-- Handles a reset, up to the start of the hooks of its commit. -/
def resetHandler (c : Configurator) (env : Environment) (clientId : ClientId) :
    Configurator × ResetOutcome :=
  let c := c.erase (.ofString "*") clientId
  let defaultValues := c.get (.ofString "default.*")
  match setDefaults c clientId defaultValues.pairs with
  | (c, false) => (c.drop clientId, .typeMismatch)
  | (c, true) =>
    let (c, outcome) := c.commit env clientId .default
    (c, .commit outcome)

/-- The response once the commit of a reset has completed, unless it is an exception. -/
def resetResponse (messageId : Nat) : CommitResult → Option Response
  | .value commitId => some ⟨messageId, .success, some commitId⟩
  | .commitError _ commitId => some ⟨messageId, .externalProcessError, some commitId⟩
  | .otherException => none

end SysAdminController

open SysAdminController

/-- The response to a reset whose hooks succeed, if it has any, unless it is an
    exception. -/
def ResetOutcome.response (messageId : Nat) : ResetOutcome → Option Response
  | .typeMismatch => some ⟨messageId, .typeMismatch, none⟩
  | .commit .threw => none
  | .commit (.ready commitId) | .commit (.hooks _ _ commitId) =>
    resetResponse messageId (.value commitId)

namespace Configurator

variable {c : Configurator} {env : Environment} {id : ClientId} {item : ConfigPair}
  {k d : ConfigKey} {kvs : ConfigPairList}

/-! ## The loop -/

/-- Setting answers `SUCCESS` if the key is in the store, with a value of the type. -/
theorem set_success_iff (hk : item.key.isWildcard = false) : (c.set item id).2 = .success ↔
    c.inFlightItems.isBucketLocked id = false ∧
      ∃ v, c.store item.key = some v ∧ v.typeCheck item.value = true := by
  have hget : unwrapSinglePair (c.get item.key) = (c.store item.key).map fun v => ⟨item.key, v⟩ :=
    MemoryCache.unwrapSinglePair_get hk
  have htype := MemoryCache.typeCheck_iff (c := c.systemStore) hk
  rw [set_snd]
  cases ht : c.systemStore.typeCheck item with
  | false =>
    refine iff_of_false (by simp) ?_
    rintro ⟨_, v, hv, hvt⟩
    rw [htype.2 fun w hw => by rw [show w = v from Option.some.inj (hw.symm.trans hv), hvt]] at ht
    cases ht
  | true =>
    cases hl : c.inFlightItems.isBucketLocked id with
    | true => simp
    | false =>
      simp only [Bool.not_true, Bool.false_eq_true, if_false, hget, true_and]
      rcases hv : c.store item.key with _ | v
      · simp
      · simp [htype.1 ht v hv]

/-- What setting a pair answers does not depend on what else is staged. -/
theorem set_stage_snd {items : ConfigPairList} :
    ((c.stage id items).set item id).2 = (c.set item id).2 := by
  rw [set_snd, set_snd, isBucketLocked_stage_self]
  rfl

theorem setDefaults_cons {kv : ConfigPair} : setDefaults c id (kv :: kvs) =
    if (c.set (resetItem kv) id).2 = .success then
      setDefaults (c.stage id [resetItem kv]) id kvs
    else (c.stage id (c.setItems (resetItem kv) id), false) := by
  rw [← set_fst]
  have hstage : (c.set (resetItem kv) id).2 = .success →
      (c.set (resetItem kv) id).1 = c.stage id [resetItem kv] := fun h => by
    rw [set_fst, setItems, h]
    rfl
  rcases hs : c.set (resetItem kv) id with ⟨c', _ | _ | _ | _⟩
  · rw [hs] at hstage
    rw [setDefaults, hs, if_pos rfl, ← hstage rfl]
  all_goals
    rw [setDefaults, hs]
    rfl

/-- The loop stages all defaults, or, if one of them does not answer `SUCCESS`, some. -/
theorem setDefaults_cases (c : Configurator) (id : ClientId) (kvs : ConfigPairList) :
    ((∀ kv ∈ kvs, (c.set (resetItem kv) id).2 = .success) ∧
      setDefaults c id kvs = (c.stage id (kvs.map resetItem), true)) ∨
    (¬∀ kv ∈ kvs, (c.set (resetItem kv) id).2 = .success) ∧
      ∃ items, (∀ p ∈ items, p ∈ kvs.map resetItem) ∧
        setDefaults c id kvs = (c.stage id items, false) := by
  induction kvs generalizing c with
  | nil => exact .inl ⟨nofun, rfl⟩
  | cons kv kvs ih =>
    rw [setDefaults_cons, List.forall_mem_cons]
    split
    · next h =>
      simp only [h, true_and]
      obtain ⟨hall, heq⟩ | ⟨hall, items, hitems, heq⟩ := ih (c.stage id [resetItem kv])
      · simp only [set_stage_snd] at hall
        refine .inl ⟨hall, ?_⟩
        rw [heq, stage_stage]
        rfl
      · simp only [set_stage_snd] at hall
        refine .inr ⟨hall, resetItem kv :: items, ?_, ?_⟩
        · rw [List.map_cons]
          exact List.forall_mem_cons.2
            ⟨List.mem_cons_self, fun p hp => List.mem_cons_of_mem _ (hitems p hp)⟩
        · rw [heq, stage_stage]
          rfl
    · next h =>
      -- The loop ends at the default that is refused.
      refine .inr ⟨fun hall => h hall.1, c.setItems (resetItem kv) id, fun p hp => ?_, rfl⟩
      rw [mem_setItems hp]
      exact List.mem_cons_self

/-! ## What a reset stages -/

/-- The pairs of `default.*`. -/
def defaults (c : Configurator) : ConfigPairList := (c.get (.ofString "default.*")).pairs

/-- What a reset stages: the erasing of the keys, and then the defaults. -/
def resetItems (c : Configurator) : ConfigPairList :=
  c.eraseItems (.ofString "*") ++ c.defaults.map resetItem

/-- All that a reset can do: commit what it has staged, or drop it. -/
theorem resetHandler_cases (c : Configurator) (env : Environment) (id : ClientId) :
    ((∀ kv ∈ c.defaults, (c.set (resetItem kv) id).2 = .success) ∧
      resetHandler c env id = (((c.stage id c.resetItems).commit env id .default).1,
        .commit ((c.stage id c.resetItems).commit env id .default).2)) ∨
    (¬∀ kv ∈ c.defaults, (c.set (resetItem kv) id).2 = .success) ∧
      ∃ items, resetHandler c env id = ((c.stage id items).drop id, .typeMismatch) := by
  have hdefaults : ((c.stage id (c.eraseItems (.ofString "*"))).get (.ofString "default.*")).pairs =
      c.defaults := rfl
  rw [resetHandler, erase_eq]
  dsimp only
  rw [hdefaults]
  obtain ⟨hall, heq⟩ | ⟨hall, items, _, heq⟩ :=
    setDefaults_cases (c.stage id (c.eraseItems (.ofString "*"))) id c.defaults
  · simp only [set_stage_snd] at hall
    refine .inl ⟨hall, ?_⟩
    rw [heq, stage_stage]
    rfl
  · simp only [set_stage_snd] at hall
    refine .inr ⟨hall, c.eraseItems (.ofString "*") ++ items, ?_⟩
    rw [heq, stage_stage]

theorem mem_defaults {kv : ConfigPair} :
    kv ∈ c.defaults ↔ kv.key.inDefault = true ∧ c.store kv.key = some kv.value := by
  have hfind : (c.get (.ofString "default.*")).find? kv.key =
      if kv.key.inDefault then c.systemStore.values.find? kv.key else none :=
    MemoryCache.find?_get_wildcard (by decide)
  rw [defaults, ConfigPairMap.mem_pairs, hfind, MemoryCache.find?_values, store]
  split
  · next h =>
    simp only [h, true_and, Option.map_eq_some_iff]
    constructor
    · rintro ⟨v, hv, heq⟩
      rw [hv, ← heq]
    · intro hv
      exact ⟨_, hv, rfl⟩
  · next h => simp [h]

end Configurator

/-- The key is outside `default.*` and `last.*`. -/
def ConfigKey.Live (k : ConfigKey) : Prop := k.inLast = false ∧ k.inDefault = false

/-- The key of a default without `default`. -/
theorem ConfigKey.Plain.subKeys_tail {d : ConfigKey} (hd : d.Plain) (h : d.inDefault = true) :
    d.subKeys = "default" :: d.tail.subKeys ∧ d.tail.subKeys ≠ [] := by
  obtain ⟨s, ss, hs⟩ := hd.inDefault_iff.1 h
  simp [ConfigKey.tail, hs]

theorem ConfigKey.Plain.tail {d : ConfigKey} (hd : d.Plain) (h : d.inDefault = true) :
    d.tail.Plain where
  nonempty := (hd.subKeys_tail h).2
  not_wildcard := by
    have hstar := hd.not_wildcard
    rw [ConfigKey.isWildcard, (hd.subKeys_tail h).1] at hstar
    simp only [List.contains_cons, Bool.or_eq_false_iff] at hstar
    exact hstar.2

theorem ConfigKey.Plain.inLast_of_inDefault {k : ConfigKey} (hk : k.Plain)
    (h : k.inDefault = true) : k.inLast = false := by
  obtain ⟨s, ss, hs⟩ := hk.inDefault_iff.1 h
  by_contra hlast
  obtain ⟨s', ss', hs'⟩ := hk.inLast_iff.1 (by simpa using hlast)
  rw [hs] at hs'
  exact absurd (List.cons.inj hs').1 (by decide)

/-- Different defaults have different keys without `default`. -/
theorem ConfigKey.eq_of_tail_eq {d d' : ConfigKey} (hd : d.Plain) (hd' : d'.Plain)
    (h : d.inDefault = true) (h' : d'.inDefault = true) (ht : d.tail = d'.tail) : d = d' := by
  ext1
  rw [(hd.subKeys_tail h).1, (hd'.subKeys_tail h').1, ht]

namespace Configurator

variable {c : Configurator} {env : Environment} {id : ClientId} {k d : ConfigKey} {v : ConfigValue}

theorem WellKeyed.resetItems (h : c.WellKeyed) : ∀ p ∈ c.resetItems, p.key.Plain := by
  intro p hp
  rcases List.mem_append.1 hp with hp | hp
  · exact h.eraseItems (.inl (by decide)) p hp
  · obtain ⟨kv, hkv, rfl⟩ := List.mem_map.1 hp
    obtain ⟨hdef, hv⟩ := mem_defaults.1 hkv
    exact (h.stored _ _ hv).tail hdef

theorem WellKeyed.mem_eraseAll (h : c.WellKeyed) {p : ConfigPair} :
    p ∈ c.eraseItems (.ofString "*") ↔
      p.key.Live ∧ (∃ v, c.store p.key = some v) ∧ p = .ofKey p.key := by
  rw [Configurator.eraseItems, LockedConfigPairMap.erasedKeys, if_pos (by decide), List.mem_map]
  constructor
  · rintro ⟨k, hk, rfl⟩
    obtain ⟨hk, hlive⟩ := List.mem_filter.1 hk
    simp only [Bool.not_or, Bool.and_eq_true, Bool.not_eq_true'] at hlive
    exact ⟨hlive, (MemoryCache.mem_getAllKeys.1 hk).1, rfl⟩
  · rintro ⟨hlive, ⟨v, hv⟩, hp⟩
    refine ⟨p.key, List.mem_filter.2 ⟨MemoryCache.mem_getAllKeys.2 ⟨⟨v, hv⟩, ?_⟩, ?_⟩, hp.symm⟩
    · exact ConfigKey.subkeyMatches_all (h.stored _ v hv).nonempty
    · simp [hlive.1, hlive.2]

/-- A reset erases a key of the store outside `default.*` and `last.*`. -/
theorem WellKeyed.lastItem_eraseAll (h : c.WellKeyed) (hk : k.Live) (hv : c.store k = some v) :
    lastItem k (c.eraseItems (.ofString "*")) = some (.ofKey k) :=
  lastItem_of_unique (p := .ofKey k) (h.mem_eraseAll.2 ⟨hk, ⟨v, hv⟩, rfl⟩) fun q hq hqk => by
    rw [(h.mem_eraseAll.1 hq).2.2, hqk]
    rfl

theorem WellKeyed.lastItem_eraseAll_eq_none (h : c.WellKeyed) (hk : k.Live → c.store k = none) :
    lastItem k (c.eraseItems (.ofString "*")) = none := by
  refine lastItem_eq_none_iff.2 fun p hp hpk => ?_
  obtain ⟨hlive, ⟨v, hv⟩, _⟩ := h.mem_eraseAll.1 hp
  rw [hpk] at hlive hv
  rw [hk hlive] at hv
  cases hv

/-- A reset sets the key of a default to its value. -/
theorem WellKeyed.lastItem_defaults (h : c.WellKeyed) (hd : d.inDefault = true)
    (hv : c.store d = some v) :
    lastItem d.tail (c.defaults.map resetItem) = some ⟨d.tail, v⟩ := by
  refine lastItem_of_unique (p := ⟨d.tail, v⟩) ?_ fun q hq hqk => ?_
  · exact List.mem_map.2 ⟨⟨d, v⟩, mem_defaults.2 ⟨hd, hv⟩, rfl⟩
  · obtain ⟨kv, hkv, rfl⟩ := List.mem_map.1 hq
    obtain ⟨hdef, hkv⟩ := mem_defaults.1 hkv
    have hkey : kv.key = d :=
      ConfigKey.eq_of_tail_eq (h.stored _ _ hkv) (h.stored _ _ hv) hdef hd hqk
    rw [hkey, hv] at hkv
    rw [resetItem, hkey, ← Option.some.inj hkv]

/-- The key has no default. -/
def NoDefault (c : Configurator) (k : ConfigKey) : Prop :=
  ∀ d, d.inDefault = true → d.tail = k → c.store d = none

theorem noDefault_or (c : Configurator) (k : ConfigKey) :
    c.NoDefault k ∨ ∃ d v, d.inDefault = true ∧ d.tail = k ∧ c.store d = some v := by
  by_cases h : c.NoDefault k
  · exact .inl h
  · unfold NoDefault at h
    push Not at h
    obtain ⟨d, hd, htail, hne⟩ := h
    obtain ⟨v, hv⟩ := Option.ne_none_iff_exists'.1 hne
    exact .inr ⟨d, v, hd, htail, hv⟩

theorem lastItem_defaults_eq_none (h : c.NoDefault k) :
    lastItem k (c.defaults.map resetItem) = none := by
  refine lastItem_eq_none_iff.2 fun p hp hpk => ?_
  obtain ⟨kv, hkv, rfl⟩ := List.mem_map.1 hp
  obtain ⟨hdef, hv⟩ := mem_defaults.1 hkv
  rw [h kv.key hdef hpk] at hv
  cases hv

/-! ## What a reset leaves -/

/-- The value a key gets that a reset neither erases nor sets: what the client has
    staged for it, or else the stored one. -/
def stagedValue (c : Configurator) (id : ClientId) (k : ConfigKey) : Option ConfigValue :=
  overlay (c.inFlightItems.staged id).writes c.store k

theorem stagedValue_eq_iff {o : Option ConfigValue} (ho : c.store k = o) :
    c.stagedValue id k = o ↔
      ∀ p, lastItem k (c.inFlightItems.staged id) = some p → p.value.toOption = o := by
  rw [stagedValue, overlay_apply, lastWrite_writes]
  rcases lastItem k (c.inFlightItems.staged id) with _ | p
  · simp [ho]
  · simp

/-- The commit of a reset, with what it has staged. -/
def resetCommit (c : Configurator) (env : Environment) (id : ClientId) :
    Configurator × CommitOutcome := (c.stage id c.resetItems).commit env id .default

theorem WellKeyed.store_resetCommit (h : c.WellKeyed) (hk : k.inLast = false)
    (hl : c.inFlightItems.isBucketLocked id = false) (hthrew : (c.resetCommit env id).2 ≠ .threw) :
    (c.resetCommit env id).1.store k =
      (((lastItem k (c.defaults.map resetItem)).or
        (lastItem k (c.eraseItems (.ofString "*")))).map fun p => p.value.toOption).getD
          (c.stagedValue id k) := by
  have hstaged : (c.stage id c.resetItems).inFlightItems.staged id =
      c.inFlightItems.staged id ++ c.resetItems := LockedConfigPairMap.staged_insertAll_self
  rw [resetCommit, (h.stage h.resetItems).store_commit_of_not_locked hk
    (by rw [isBucketLocked_stage_self, hl]) hthrew, hstaged, overlay_apply, lastWrite_writes,
    lastItem_append, Configurator.resetItems, lastItem_append, stagedValue, overlay_apply,
    lastWrite_writes, store_stage]
  rcases lastItem k (c.defaults.map resetItem) with _ | p
  · rcases lastItem k (c.eraseItems (.ofString "*")) with _ | p
    · rfl
    · rfl
  · rfl

/-- The key of a default gets its value. -/
theorem WellKeyed.store_resetCommit_tail (h : c.WellKeyed) (hd : d.inDefault = true)
    (hv : c.store d = some v) (hk : d.tail.inLast = false)
    (hl : c.inFlightItems.isBucketLocked id = false) (hthrew : (c.resetCommit env id).2 ≠ .threw) :
    (c.resetCommit env id).1.store d.tail = some v := by
  rw [h.store_resetCommit hk hl hthrew, h.lastItem_defaults hd hv]
  exact ConfigValue.toOption_of_not_empty (MemoryCache.not_empty_of_store hv)

/-- Other keys of the store are erased. -/
theorem WellKeyed.store_resetCommit_live (h : c.WellKeyed) (hk : k.Live) (hv : c.store k = some v)
    (hd : c.NoDefault k)
    (hl : c.inFlightItems.isBucketLocked id = false) (hthrew : (c.resetCommit env id).2 ≠ .threw) :
    (c.resetCommit env id).1.store k = none := by
  rw [h.store_resetCommit hk.1 hl hthrew, lastItem_defaults_eq_none hd, h.lastItem_eraseAll hk hv]
  rfl

/-- Keys that are neither set nor erased get what the client has staged. -/
theorem WellKeyed.store_resetCommit_staged (h : c.WellKeyed) (hlast : k.inLast = false)
    (hk : k.Live → c.store k = none) (hd : c.NoDefault k)
    (hl : c.inFlightItems.isBucketLocked id = false) (hthrew : (c.resetCommit env id).2 ≠ .threw) :
    (c.resetCommit env id).1.store k = c.stagedValue id k := by
  rw [h.store_resetCommit hlast hl hthrew, lastItem_defaults_eq_none hd,
    h.lastItem_eraseAll_eq_none hk]
  rfl

/-! ## When a reset keeps its promise -/

/-- Some default has another type than the value of its key. -/
def Mismatch (c : Configurator) : Prop :=
  ∃ d v w, d.inDefault = true ∧ c.store d = some v ∧ c.store d.tail = some w ∧
    w.typeCheck v = false

/-- The keys of all defaults are in the store. -/
def DefaultsStored (c : Configurator) : Prop :=
  ∀ d v, d.inDefault = true → c.store d = some v → ∃ w, c.store d.tail = some w

/-- What the client has staged does not get in the way: it adds no key, and changes no
    default, and neither does the default of a default. -/
structure Harmless (c : Configurator) (id : ClientId) : Prop where
  unstored : ∀ k, k.Live → c.store k = none →
    ∀ p, lastItem k (c.inFlightItems.staged id) = some p → p.value.empty = true
  reset : ∀ d v, d.inDefault = true → d.tail.inDefault = true → c.store d = some v →
    c.store d.tail = some v
  staged : ∀ k, k.inDefault = true → c.NoDefault k →
    ∀ p, lastItem k (c.inFlightItems.staged id) = some p → p.value.toOption = c.store k

theorem WellKeyed.set_defaults_iff (h : c.WellKeyed)
    (hl : c.inFlightItems.isBucketLocked id = false) :
    (∀ kv ∈ c.defaults, (c.set (resetItem kv) id).2 = .success) ↔
      ¬c.Mismatch ∧ c.DefaultsStored := by
  -- The bucket is open, so the type and the presence of the key decide.
  have hset : ∀ kv ∈ c.defaults, (c.set (resetItem kv) id).2 = .success ↔
      ∃ w, c.store kv.key.tail = some w ∧ w.typeCheck kv.value = true := fun kv hkv => by
    obtain ⟨hdef, hv⟩ := mem_defaults.1 hkv
    rw [set_success_iff ((h.stored _ _ hv).tail hdef).not_wildcard]
    exact and_iff_right hl
  rw [forall₂_congr hset]
  constructor
  · intro hall
    constructor
    · rintro ⟨d, v, w, hd, hv, hw, hvw⟩
      obtain ⟨w', hw', hvw'⟩ := hall ⟨d, v⟩ (mem_defaults.2 ⟨hd, hv⟩)
      obtain rfl : w' = w := Option.some.inj (hw'.symm.trans hw)
      rw [show w'.typeCheck v = true from hvw'] at hvw
      cases hvw
    · intro d v hd hv
      obtain ⟨w, hw, _⟩ := hall ⟨d, v⟩ (mem_defaults.2 ⟨hd, hv⟩)
      exact ⟨w, hw⟩
  · rintro ⟨hm, hstored⟩ kv hkv
    obtain ⟨hdef, hv⟩ := mem_defaults.1 hkv
    obtain ⟨w, hw⟩ := hstored kv.key kv.value hdef hv
    refine ⟨w, hw, ?_⟩
    by_contra hvw
    exact hm ⟨kv.key, kv.value, w, hdef, hv, hw, by simpa using hvw⟩

/-- The store is the factory settings: outside `default.*` and `last.*`, it has the
    values of the former defaults, and the defaults are as they were. -/
structure IsReset (c c' : Configurator) : Prop where
  live : ∀ k v, k.Live →
    (c'.store k = some v ↔ ∃ d, d.inDefault = true ∧ d.tail = k ∧ c.store d = some v)
  default : ∀ k, k.inDefault = true → c'.store k = c.store k

theorem isReset_congr {c' c'' : Configurator} (h : c''.store = c'.store) :
    c.IsReset c'' ↔ c.IsReset c' :=
  ⟨fun ⟨hl, hd⟩ => ⟨h ▸ hl, h ▸ hd⟩, fun ⟨hl, hd⟩ => ⟨h ▸ hl, h ▸ hd⟩⟩

theorem noDefault_of_none (hstored : c.DefaultsStored) (hk : c.store k = none) :
    c.NoDefault k := by
  rintro d hd rfl
  rcases hv : c.store d with _ | v
  · rfl
  · obtain ⟨w, hw⟩ := hstored d v hd hv
    rw [hk] at hw
    cases hw

theorem WellKeyed.harmless_of_isReset (h : c.WellKeyed)
    (hl : c.inFlightItems.isBucketLocked id = false) (hstored : c.DefaultsStored)
    (hthrew : (c.resetCommit env id).2 ≠ .threw) (hr : c.IsReset (c.resetCommit env id).1) :
    c.Harmless id where
  unstored k hk hnone p hp := by
    have hdef := noDefault_of_none hstored hnone
    -- Without a default, the key is to be gone behind the reset.
    have hnew : (c.resetCommit env id).1.store k = none := by
      rcases hv : (c.resetCommit env id).1.store k with _ | v
      · rfl
      · obtain ⟨d, hd, htail, hdv⟩ := (hr.live k v hk).1 hv
        rw [hdef d hd htail] at hdv
        cases hdv
    rw [h.store_resetCommit_staged hk.1 (fun _ => hnone) hdef hl hthrew,
      stagedValue_eq_iff hnone] at hnew
    by_contra hempty
    have := hnew p hp
    rw [ConfigValue.toOption_of_not_empty (by simpa using hempty)] at this
    cases this
  reset d v hd htail hv := by
    have hlast := ((h.stored d v hv).tail hd).inLast_of_inDefault htail
    rw [← hr.default d.tail htail, h.store_resetCommit_tail hd hv hlast hl hthrew]
  staged k hk hdef p hp := by
    have hplain : k.Plain := by
      obtain ⟨hmem, rfl⟩ := mem_of_lastItem hp
      exact h.staged id p hmem
    have hnew := hr.default k hk
    rw [h.store_resetCommit_staged (hplain.inLast_of_inDefault hk)
      (fun hlive => by rw [hlive.2] at hk; cases hk) hdef hl hthrew, stagedValue_eq_iff rfl] at hnew
    exact hnew p hp

theorem WellKeyed.isReset_of_harmless (h : c.WellKeyed)
    (hl : c.inFlightItems.isBucketLocked id = false)
    (hthrew : (c.resetCommit env id).2 ≠ .threw) (hh : c.Harmless id) :
    c.IsReset (c.resetCommit env id).1 where
  live k v hk := by
    obtain hdef | ⟨d, w, hd, rfl, hw⟩ := c.noDefault_or k
    · refine iff_of_false (fun hv => ?_) ?_
      · -- A key without default is erased if it is stored, and else as the client staged it.
        rcases hw : c.store k with _ | w
        · rw [h.store_resetCommit_staged hk.1 (fun _ => hw) hdef hl hthrew,
            (stagedValue_eq_iff hw).2 fun p hp =>
              ConfigValue.toOption_of_empty (hh.unstored k hk hw p hp)] at hv
          cases hv
        · rw [h.store_resetCommit_live hk hw hdef hl hthrew] at hv
          cases hv
      · rintro ⟨d, hd, htail, hv⟩
        rw [hdef d hd htail] at hv
        cases hv
    · rw [h.store_resetCommit_tail hd hw hk.1 hl hthrew]
      constructor
      · intro heq
        exact ⟨d, hd, rfl, hw.trans heq⟩
      · -- Only one default has this key.
        rintro ⟨d', hd', htail, hv⟩
        rw [← ConfigKey.eq_of_tail_eq (h.stored _ _ hv) (h.stored _ _ hw) hd' hd htail, hv] at hw
        exact hw.symm
  default k hk := by
    by_cases hplain : k.Plain
    · have hlast := hplain.inLast_of_inDefault hk
      obtain hdef | ⟨d, w, hd, rfl, hw⟩ := c.noDefault_or k
      · rw [h.store_resetCommit_staged hlast (fun hlive => by rw [hlive.2] at hk; cases hk) hdef hl
          hthrew]
        exact (stagedValue_eq_iff rfl).2 (hh.staged k hk hdef)
      · rw [h.store_resetCommit_tail hd hw hlast hl hthrew, hh.reset d w hd hk hw]
    · -- Only plain keys are ever in the store.
      have hnone : ∀ {c : Configurator}, c.WellKeyed → c.store k = none := fun {c} hc => by
        rcases hv : c.store k with _ | v
        · rfl
        · exact absurd (hc.stored k v hv) hplain
      rw [hnone h, hnone (c := (c.resetCommit env id).1) (h.stage h.resetItems).commit]

end Configurator

namespace Daemon

variable {s : Daemon} {env : Environment} {id : ClientId} {messageId : Nat} {cs : List Command}

/-- Handles a reset. -/
def reset (s : Daemon) (env : Environment) (clientId : ClientId) : Daemon :=
  match resetHandler s.conf env clientId with
  | (c, .typeMismatch) => { s with conf := c }
  | (c, .commit outcome) => s.await clientId c outcome

/-! ## Resets as runs -/

/-- The loop makes calls up to the first one that does not answer `SUCCESS`. -/
theorem setDefaults_eq_run (s : Daemon) (id : ClientId) (kvs : ConfigPairList) : ∃ n,
    { s with conf := (setDefaults s.conf id kvs).1 } =
      run step s ((kvs.take n).map fun kv => .set (resetItem kv) id) := by
  induction kvs generalizing s with
  | nil => exact ⟨0, rfl⟩
  | cons kv kvs ih =>
    rw [setDefaults_cons]
    split
    · next h =>
      have hstep : s.step (.set (resetItem kv) id) =
          { s with conf := s.conf.stage id [resetItem kv] } := by
        rw [step, set_fst, setItems, h]
        rfl
      obtain ⟨n, hn⟩ := ih { s with conf := s.conf.stage id [resetItem kv] }
      refine ⟨n + 1, ?_⟩
      rw [List.take_succ_cons, List.map_cons, run_cons, hstep]
      exact hn
    · refine ⟨1, ?_⟩
      simp only [List.take_succ_cons, List.take_zero, List.map_cons, List.map_nil, run_cons,
        run_nil, step, set_fst]

/-- A reset erases the keys, sets the defaults, and commits or drops. -/
theorem reset_eq_run (s : Daemon) (env : Environment) (id : ClientId) : ∃ n e,
    (e = .drop id ∨ e = .commit env id .default) ∧ s.reset env id =
      run step s (.erase (.ofString "*") id ::
        ((s.conf.defaults.take n).map fun kv => .set (resetItem kv) id) ++ [e]) := by
  obtain ⟨n, hn⟩ := setDefaults_eq_run (s.step (.erase (.ofString "*") id)) id s.conf.defaults
  have hdefaults : ((s.conf.erase (.ofString "*") id).get (.ofString "default.*")).pairs =
      s.conf.defaults := rfl
  have hrun : ∀ e, run step s (.erase (.ofString "*") id ::
      ((s.conf.defaults.take n).map fun kv => .set (resetItem kv) id) ++ [e]) =
        { s with conf :=
          (setDefaults (s.conf.erase (.ofString "*") id) id s.conf.defaults).1 }.step e := by
    intro e
    rw [List.cons_append, run_cons, run_append, ← hn, run_cons, run_nil, step]
  refine ⟨n, if (setDefaults (s.conf.erase (.ofString "*") id) id s.conf.defaults).2 then
    .commit env id .default else .drop id, ?_, ?_⟩
  · split
    · exact .inr rfl
    · exact .inl rfl
  · rw [hrun, reset, resetHandler]
    dsimp only
    rw [hdefaults]
    rcases setDefaults (s.conf.erase (.ofString "*") id) id s.conf.defaults with ⟨c, _ | _⟩
    · rfl
    · rfl

theorem run_events {es : List Event} : run handle s (es.map .event) = run step s es := by
  induction es generalizing s with
  | nil => rfl
  | cons e es ih => exact ih

/-- Resets lead to no other states than the calls of clients do. -/
theorem Reached.reset (h : s.Reached) (env : Environment) (id : ClientId) :
    (s.reset env id).Reached := by
  obtain ⟨n, e, he, hrun⟩ := reset_eq_run s env id
  rw [hrun, ← run_events]
  -- Erasing a pattern is a call of clients, and so is setting the key of a default.
  refine Reachable.run h (guarded_iff_forall_mem.2 fun c hc => ?_)
  obtain ⟨e', he', rfl⟩ := List.mem_map.1 hc
  rw [List.cons_append, List.mem_cons, List.mem_append, List.mem_singleton, List.mem_map] at he'
  rcases he' with rfl | ⟨kv, hkv, rfl⟩ | rfl
  · exact .inl (by decide)
  · obtain ⟨hdef, hv⟩ := mem_defaults.1 (List.mem_of_mem_take hkv)
    exact (h.wellKeyed.stored _ _ hv).tail hdef
  · rcases he with rfl | rfl <;> trivial

/-! ## When a reset keeps its promise -/

/-- The status of the response to a reset whose hooks succeed. -/
def resetStatus (s : Daemon) (env : Environment) (clientId : ClientId) (messageId : Nat) :
    Option StatusCode :=
  ((resetHandler s.conf env clientId).2.response messageId).map Response.status

/-- What a reset promises. -/
structure Resets (s : Daemon) (env : Environment) (clientId : ClientId) (messageId : Nat) :
    Prop where
  /-- It succeeds, unless some default has another type than the value of its key. -/
  success : ¬s.conf.Mismatch → s.resetStatus env clientId messageId = some .success
  /-- If it succeeds, it leaves the factory settings, until another commit takes place. -/
  isReset : s.resetStatus env clientId messageId = some .success →
    ∀ cs, Guarded handle IdleCommand (s.reset env clientId) cs →
      s.conf.IsReset (run handle (s.reset env clientId) cs).conf
  /-- If it fails before it commits, the store is unchanged. -/
  untouched : s.resetStatus env clientId messageId = some .typeMismatch →
    (s.reset env clientId).conf.store = s.conf.store

theorem conf_reset : (s.reset env id).conf = (resetHandler s.conf env id).1 := by
  rw [reset]
  rcases resetHandler s.conf env id with ⟨c, _ | _ | _ | _⟩ <;> rfl

theorem not_threw_of_resetStatus (messageId : Nat) (hcommit : resetHandler s.conf env id =
    ((s.conf.resetCommit env id).1, .commit (s.conf.resetCommit env id).2)) :
    s.resetStatus env id messageId = some .success ↔ (s.conf.resetCommit env id).2 ≠ .threw := by
  rw [resetStatus, hcommit]
  rcases (s.conf.resetCommit env id).2 with _ | _ | _ <;>
    simp [ResetOutcome.response, resetResponse]

/-- A reset that commits keeps its promise if the commit does not throw and what the
    client has staged is harmless. -/
theorem resets_iff_of_commit (hw : s.conf.WellKeyed)
    (hl : s.conf.inFlightItems.isBucketLocked id = false) (hm : ¬s.conf.Mismatch)
    (hstored : s.conf.DefaultsStored) (hcommit : resetHandler s.conf env id =
      ((s.conf.resetCommit env id).1, .commit (s.conf.resetCommit env id).2)) :
    s.Resets env id messageId ↔ (s.conf.resetCommit env id).2 ≠ .threw ∧ s.conf.Harmless id := by
  have hsuccess := not_threw_of_resetStatus messageId hcommit
  have hconf : (s.reset env id).conf = (s.conf.resetCommit env id).1 := by
    rw [conf_reset, hcommit]
  constructor
  · intro h
    have hthrew := hsuccess.1 (h.success hm)
    -- Right after the commit, the store is already what it will be at the response.
    have hr := h.isReset (h.success hm) [] trivial
    rw [run_nil, hconf] at hr
    exact ⟨hthrew, hw.harmless_of_isReset hl hstored hthrew hr⟩
  · rintro ⟨hthrew, hh⟩
    refine ⟨fun _ => hsuccess.2 hthrew, fun _ cs hidle => ?_, fun hmis => ?_⟩
    · rw [isReset_congr (store_run_of_idle hidle), hconf]
      exact hw.isReset_of_harmless hl hthrew hh
    · rw [hsuccess.2 hthrew] at hmis
      cases hmis

/-- A reset that stops keeps its promise if the types of some default do not match. -/
theorem resets_iff_of_drop {items : ConfigPairList} (hdrop : resetHandler s.conf env id =
    ((s.conf.stage id items).drop id, .typeMismatch)) :
    s.Resets env id messageId ↔ s.conf.Mismatch := by
  have hstatus : s.resetStatus env id messageId = some .typeMismatch := by
    rw [resetStatus, hdrop]
    rfl
  constructor
  · intro h
    by_contra hm
    have hsuccess := h.success hm
    rw [hstatus] at hsuccess
    cases hsuccess
  · intro hm
    refine ⟨fun hn => absurd hm hn, fun hs => ?_, fun _ => ?_⟩
    · rw [hstatus] at hs
      cases hs
    · rw [conf_reset, hdrop]
      rfl

/-- A reset keeps its promise exactly if the types of some default do not match, or if all
    defaults have their keys in the store, the changes can be logged, and what the client
    has staged is harmless. -/
theorem resets_iff (hs : s.Reached) (hl : s.conf.inFlightItems.isBucketLocked id = false) :
    s.Resets env id messageId ↔ s.conf.Mismatch ∨ s.conf.DefaultsStored ∧
      (s.conf.stage id s.conf.resetItems).CanLog env id ∧ s.conf.Harmless id := by
  have hw := hs.wellKeyed
  have hlog : (s.conf.resetCommit env id).2 ≠ .threw ↔
      (s.conf.stage id s.conf.resetItems).CanLog env id :=
    commit_ne_threw_iff (by rw [isBucketLocked_stage_self, hl])
  rw [← hlog]
  obtain ⟨hset, hcommit⟩ | ⟨hset, items, hdrop⟩ := resetHandler_cases s.conf env id
  · obtain ⟨hm, hstored⟩ := (hw.set_defaults_iff hl).1 hset
    rw [resets_iff_of_commit hw hl hm hstored hcommit]
    exact ⟨fun h => .inr ⟨hstored, h⟩, fun h => (h.resolve_left hm).2⟩
  · rw [resets_iff_of_drop hdrop]
    -- Some default was refused: for its type, or since its key is not in the store.
    have hset := mt (hw.set_defaults_iff hl).2 hset
    refine ⟨.inl, fun h => ?_⟩
    rcases h with hm | ⟨hstored, _⟩
    · exact hm
    · exact not_not.1 fun hm => hset ⟨hm, hstored⟩

/-- A key and its default are in the store, with different values. -/
def keyAndDefault : Daemon :=
  run handle (onEmpty 100)
    [.event (.set (.ofInt32 "net.mtu" 1) 1), .event (.set (.ofInt32 "default.net.mtu" 2) 1),
      .event (.commit ⟨0, true⟩ 1 .noHooks)]

theorem resets_iff_keyAndDefault : keyAndDefault.Resets ⟨0, true⟩ 1 7 ↔
    keyAndDefault.conf.Mismatch ∨ keyAndDefault.conf.DefaultsStored ∧
      (keyAndDefault.conf.stage 1 keyAndDefault.conf.resetItems).CanLog ⟨0, true⟩ 1 ∧
        keyAndDefault.conf.Harmless 1 :=
  resets_iff (reached_run (by decide)) (by decide)

/-- A default is in the store without its key. -/
def defaultWithoutKey : Daemon :=
  run handle (onEmpty 100)
    [.event (.set (.ofInt32 "default.net.mtu" 2) 1), .event (.commit ⟨0, true⟩ 1 .noHooks)]

theorem not_forall_resets : ¬∀ (s : Daemon) (env : Environment) (id : ClientId) (messageId : Nat),
    s.Reached → s.conf.inFlightItems.isBucketLocked id = false →
      s.Resets env id messageId := by
  intro h
  have hresets := h defaultWithoutKey ⟨0, true⟩ 1 7 (reached_run (by decide)) (by decide)
  have hnone : ∀ kv ∈ defaultWithoutKey.conf.defaults,
      defaultWithoutKey.conf.store kv.key.tail = none := by decide
  have hm : ¬defaultWithoutKey.conf.Mismatch := by
    rintro ⟨d, v, w, hd, hv, hw, _⟩
    rw [show defaultWithoutKey.conf.store d.tail = none from
      hnone ⟨d, v⟩ (mem_defaults.2 ⟨hd, hv⟩)] at hw
    cases hw
  exact absurd (hresets.success hm) (by decide)

end Daemon

end SysAdmin
