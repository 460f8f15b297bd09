import SysAdmin.Configurator
import SysAdmin.Foundation.Clears

/-!
# Many operations and one commit

A client may commit after each operation, or stage many operations and commit them at once.
Both lead to the same store outside `last.*`, but for patterns: erasing a pattern stages the
erasing of the keys that match it in the live store, which holds nothing that is only staged.

* `Operation.effect`: what an operation is to do with the store, as a write or a clear;
* `Configurator.commitEach_eqOn`: committing after each operation has these effects;
* `Configurator.commitAll_eqOn`: committing once has them with the clears expanded early;
* `Configurator.commitAll_eq_commitEach_iff`: so the two differ for the keys that are not
  stored in the beginning, and whose last setting is overtaken by the erasing of a pattern.
-/

namespace SysAdmin

open Writes Clears

/-- What a client stages with one call. -/
inductive Operation
  | set (item : ConfigPair)
  | erase (key : ConfigKey)

namespace Operation

/-- The key or pattern of an operation. -/
def key : Operation → ConfigKey
  | set item => item.key
  | erase key => key

/-- What an operation is to do with the store. Erasing a pattern spares the keys of `last.*`
    and `default.*`. -/
def effect : Operation → Op ConfigKey ConfigValue
  | set item => .write item.key item.value.toOption
  | erase key =>
    if key.isWildcard then .clear fun k => k.subkeyMatches key && !(k.inLast || k.inDefault)
    else .write key none

end Operation

/-- The parameters of a commit that can be logged, and how its hooks complete: not with an
    exception that is left unhandled. -/
structure CompletedCommit where
  env : Environment
  configOpt : CommitConfig
  result : HookResult
  historyOpens : env.historyOpens = true
  handled : result ≠ .otherException

theorem HookResult.value_ne_otherException : value ≠ otherException := nofun

/-- A commit without hooks. -/
def CompletedCommit.quick : CompletedCommit :=
  ⟨⟨0, true⟩, .noHooks, .value, rfl, HookResult.value_ne_otherException⟩

namespace Configurator

variable {c : Configurator} {id : ClientId} {op : Operation} {ops : List Operation}
  {steps : List (Operation × CompletedCommit)} {m : CompletedCommit} {k : ConfigKey}
  {items : ConfigPairList} {σ : ConfigKey → Option ConfigValue}

/-- Performs an operation of a client. -/
def perform (id : ClientId) (c : Configurator) : Operation → Configurator
  | .set item => (c.set item id).1
  | .erase key => c.erase key id

/-- Whether the operation is accepted. Only a set may not be. -/
def accepts (c : Configurator) (id : ClientId) : Operation → Bool
  | .set item => (c.set item id).2.accepted
  | .erase _ => true

/-- Commits the bucket of a client and completes the hooks. -/
def commitNow (c : Configurator) (id : ClientId) (m : CompletedCommit) : Configurator :=
  match c.commit m.env id m.configOpt with
  | (c, .hooks _ _ commitId) => (c.completeHooks id commitId m.result).1
  | (c, _) => c

/-- Performs all operations and commits them at once. -/
def commitAll (c : Configurator) (id : ClientId) (ops : List Operation) (m : CompletedCommit) :
    Configurator :=
  (ops.foldl (perform id) c).commitNow id m

/-- Performs the operations and commits after each of them. -/
def commitEach (c : Configurator) (id : ClientId) (steps : List (Operation × CompletedCommit)) :
    Configurator :=
  steps.foldl (fun c step => (perform id c step.1).commitNow id step.2) c

/-- Whether all operations are accepted if there is one commit in the end. -/
def allAccepted (id : ClientId) : Configurator → List Operation → Bool
  | _, [] => true
  | c, op :: ops => c.accepts id op && allAccepted id (perform id c op) ops

/-- Whether all operations are accepted if there is a commit after each of them. -/
def eachAccepted (id : ClientId) : Configurator → List (Operation × CompletedCommit) → Bool
  | _, [] => true
  | c, step :: steps => c.accepts id step.1 &&
    eachAccepted id ((perform id c step.1).commitNow id step.2) steps

/-! ## Staging operations -/

/-- What an operation stages. -/
def itemsOf (c : Configurator) : Operation → ConfigPairList
  | .set item => [item]
  | .erase key => c.eraseItems key

theorem perform_eq (h : c.accepts id op = true) : perform id c op = c.stage id (c.itemsOf op) := by
  cases op with
  | set item =>
    have h : (c.set item id).2.accepted = true := h
    rw [perform, set_fst, setItems, if_pos h]
    rfl
  | erase key => rfl

/-- What operations stage, one after the other. -/
def itemsOfAll (c : Configurator) (ops : List Operation) : ConfigPairList := ops.flatMap c.itemsOf

/-- What an operation stages depends on the live store only. -/
theorem itemsOf_stage : (c.stage id items).itemsOf = c.itemsOf := rfl

theorem foldl_perform (h : allAccepted id c ops = true) :
    ops.foldl (perform id) c = c.stage id (c.itemsOfAll ops) := by
  induction ops generalizing c with
  | nil => rfl
  | cons op ops ih =>
    obtain ⟨hop, hrest⟩ := Bool.and_eq_true_iff.1 h
    rw [List.foldl_cons, ih hrest, perform_eq hop, itemsOfAll, itemsOf_stage, stage_stage,
      itemsOfAll, List.flatMap_cons]

theorem lastWrite_writes_ofKey {keys : List ConfigKey} :
    lastWrite k (ConfigPairList.writes (keys.map .ofKey)) =
      if k ∈ keys then some none else none := by
  induction keys with
  | nil => rfl
  | cons key keys ih =>
    have hcons : ConfigPairList.writes ((key :: keys).map .ofKey) =
        (key, none) :: ConfigPairList.writes (keys.map .ofKey) := rfl
    rw [hcons, lastWrite, ih]
    by_cases hk : key = k
    · subst hk
      by_cases hmem : key ∈ keys <;> simp [hmem]
    · by_cases hmem : k ∈ keys <;> simp [hmem, hk, Ne.symm hk]

/-- What an operation stages has its effect, expanded in the live store. -/
theorem overlay_itemsOf :
    overlay (c.itemsOf op).writes σ = op.effect.applyFrom c.store σ := by
  cases op with
  | set item => exact overlay_cons item.toWrite
  | erase key =>
    funext k
    rw [overlay_apply, itemsOf, eraseItems, lastWrite_writes_ofKey,
      LockedConfigPairMap.erasedKeys, Operation.effect]
    cases key.isWildcard with
    | false =>
      by_cases hk : k = key
      · subst hk
        simp [Op.applyFrom]
      · simp [Op.applyFrom, hk]
    | true =>
      -- A wildcard erases the keys that it matches in the live store.
      have hmem : k ∈ (c.getAllKeys key).filter (fun k => !(k.inLast || k.inDefault)) ↔
          (k.subkeyMatches key && !(k.inLast || k.inDefault) && (c.store k).isSome) = true := by
        rw [List.mem_filter, getAllKeys, MemoryCache.mem_getAllKeys, ← Option.isSome_iff_exists,
          Bool.and_eq_true, Bool.and_eq_true]
        exact and_assoc.trans and_comm
      simp only [if_true, hmem, Op.applyFrom]
      split <;> rfl

theorem overlay_itemsOfAll : overlay (c.itemsOfAll ops).writes σ =
    (ops.map Operation.effect).foldl (Op.applyFrom c.store) σ := by
  induction ops generalizing σ with
  | nil => rfl
  | cons op ops ih =>
    have happend : (c.itemsOfAll (op :: ops)).writes =
        (c.itemsOf op).writes ++ (c.itemsOfAll ops).writes := by
      rw [itemsOfAll, List.flatMap_cons]
      exact List.map_append
    rw [happend, overlay_append, overlay_itemsOf, ih]
    rfl

/-! ## Committing -/

theorem store_commitNow_eq :
    (c.commitNow id m).store = (c.commit m.env id m.configOpt).1.store := by
  rw [commitNow]
  split
  · next hcommit =>
    rw [hcommit]
    cases m.result <;> rfl
  · next hcommit => rw [hcommit]

/-- A bucket that is neither locked nor can be committed is not there. -/
theorem bucket?_eq_none (hl : c.inFlightItems.isBucketLocked id = false)
    (hc : ¬c.Committable id) : c.inFlightItems.bucket? id = none := by
  by_contra hb
  exact hc ⟨Option.isSome_iff_ne_none.2 hb, hl⟩

/-- Outside `last.*`, a commit writes the items of the bucket, if there are any. -/
theorem store_commitNow (hl : c.inFlightItems.isBucketLocked id = false)
    (hi : ∀ p ∈ c.inFlightItems.staged id, p.key.subKeys ≠ []) (hk : k.inLast = false) :
    (c.commitNow id m).store k =
      overlay (ConfigPairList.writes (c.inFlightItems.staged id)) c.store k := by
  rw [store_commitNow_eq, store_commit]
  by_cases hc : c.Committable id
  · rw [if_pos ⟨hc, logged_ne_none m.historyOpens⟩, overlay_apply, overlay_apply,
      lastWrite_writes, lastWrite_writes, lastItem_toApply hi hk]
  · rw [if_neg fun h => hc h.1, LockedConfigPairMap.staged_of_none (bucket?_eq_none hl hc)]
    rfl

/-- The bucket goes. -/
theorem bucket?_commitNow (hl : c.inFlightItems.isBucketLocked id = false) :
    (c.commitNow id m).inFlightItems.bucket? id = none := by
  rw [commitNow]
  obtain ⟨hc, h⟩ | ⟨hc, hthrew, h⟩ | ⟨hc, commitId, _, h⟩ := commit_cases c m.env id m.configOpt
  · rw [h]
    exact bucket?_eq_none hl hc
  · exact absurd hthrew (logged_ne_none m.historyOpens)
  · rw [h]
    cases hopt : m.configOpt with
    | noHooks => simp [bucket?_drop]
    | default | templateOnly =>
      cases hr : m.result with
      | value | externalRunnerError => simp [completeHooks, bucket?_drop]
      | otherException => exact absurd hr m.handled

/-- All keys stored have subkeys. -/
def StoresNonempty (c : Configurator) : Prop := ∀ k v, c.store k = some v → k.subKeys ≠ []

theorem StoresNonempty.itemsOf (h : c.StoresNonempty) (hop : op.key.subKeys ≠ []) :
    ∀ p ∈ c.itemsOf op, p.key.subKeys ≠ [] := by
  intro p hp
  cases op with
  | set item =>
    rw [List.mem_singleton.1 hp]
    exact hop
  | erase key =>
    obtain ⟨k, hk, rfl⟩ := List.mem_map.1 hp
    rw [LockedConfigPairMap.erasedKeys] at hk
    split at hk
    · obtain ⟨⟨v, hv⟩, _⟩ := MemoryCache.mem_getAllKeys.1 (List.mem_filter.1 hk).1
      exact h k v hv
    · rw [List.mem_singleton.1 hk]
      exact hop

theorem StoresNonempty.commitNow (h : c.StoresNonempty)
    (hi : ∀ p ∈ c.inFlightItems.staged id, p.key.subKeys ≠ []) :
    (c.commitNow id m).StoresNonempty := by
  intro k v hv
  rw [store_commitNow_eq] at hv
  rcases store_or_mem_toApply hv with hv | ⟨_, hp⟩
  · exact h k v hv
  · rcases mem_toApply hp with hp | ⟨q, hq, rfl⟩
    · exact hi _ hp
    · rw [ConfigKey.subKeys_lastKey (hi q hq)]
      exact List.cons_ne_nil _ _

/-- The store outside `last.*`. -/
def live : Set ConfigKey := {k | k.inLast = false}

/-- The items that a client without a bucket stages are all there is in its bucket. -/
theorem staged_stage_of_none (hb : c.inFlightItems.bucket? id = none) :
    (c.stage id items).inFlightItems.staged id = items := by
  rw [staged_stage, if_pos rfl, LockedConfigPairMap.staged_of_none hb, List.nil_append]

theorem isBucketLocked_stage_of_none (hb : c.inFlightItems.bucket? id = none) :
    (c.stage id items).inFlightItems.isBucketLocked id = false := by
  rw [isBucketLocked_stage_self, LockedConfigPairMap.isBucketLocked_of_none hb]

/-- These items are what is committed. -/
theorem commitNow_stage (hb : c.inFlightItems.bucket? id = none)
    (hi : ∀ p ∈ items, p.key.subKeys ≠ []) :
    Set.EqOn ((c.stage id items).commitNow id m).store (overlay items.writes c.store) live := by
  intro k hk
  rw [store_commitNow (isBucketLocked_stage_of_none hb) (by rwa [staged_stage_of_none hb]) hk,
    staged_stage_of_none hb, store_stage]

/-- Committing all operations at once has their effects, with the clears
    expanded in the store from before. -/
theorem commitAll_eqOn (hb : c.inFlightItems.bucket? id = none) (hs : c.StoresNonempty)
    (hops : ∀ op ∈ ops, op.key.subKeys ≠ []) (ha : allAccepted id c ops = true) :
    Set.EqOn (c.commitAll id ops m).store
      ((ops.map Operation.effect).foldl (Op.applyFrom c.store) c.store) live := by
  rw [commitAll, foldl_perform ha, ← overlay_itemsOfAll]
  refine commitNow_stage hb fun p hp => ?_
  obtain ⟨op, hop, hp⟩ := List.mem_flatMap.1 hp
  exact hs.itemsOf (hops op hop) p hp

/-- Committing after each operation has their effects. -/
theorem commitEach_eqOn (hb : c.inFlightItems.bucket? id = none) (hs : c.StoresNonempty)
    (hops : ∀ step ∈ steps, step.1.key.subKeys ≠ []) (ha : eachAccepted id c steps = true) :
    Set.EqOn (c.commitEach id steps).store
      ((steps.map fun step => step.1.effect).foldl Op.apply c.store) live := by
  induction steps generalizing c with
  | nil => exact fun _ _ => rfl
  | cons step steps ih =>
    obtain ⟨op, m⟩ := step
    have hi := hs.itemsOf (hops _ List.mem_cons_self)
    obtain ⟨hop, hrest⟩ := Bool.and_eq_true_iff.1 ha
    rw [perform_eq hop] at hrest
    have hstored : ((c.stage id (c.itemsOf op)).commitNow id m).StoresNonempty :=
      StoresNonempty.commitNow hs (by rwa [staged_stage_of_none hb])
    have hnext := ih (bucket?_commitNow (isBucketLocked_stage_of_none hb)) hstored
      (fun step hstep => hops step (List.mem_cons_of_mem _ hstep)) hrest
    -- The first commit has the effect of its operation; the others have theirs on top of it.
    have hone : Set.EqOn ((c.stage id (c.itemsOf op)).commitNow id m).store
        (op.effect.apply c.store) live := by
      rw [← Op.applyFrom_self, ← overlay_itemsOf]
      exact commitNow_stage hb hi
    rw [commitEach, List.foldl_cons, ← commitEach, perform_eq hop, List.map_cons, List.foldl_cons]
    exact hnext.trans (foldl_apply_eqOn hone)

/-- Committing once leaves the same store outside `last.*` as committing after each
    operation, exactly if no key that is not stored in the beginning is overtaken: set, and
    erased by a pattern after the last operation that names it. -/
theorem commitAll_eq_commitEach_iff (c : Configurator) (id : ClientId)
    (steps : List (Operation × CompletedCommit)) (m : CompletedCommit)
    (hb : c.inFlightItems.bucket? id = none) (hs : c.StoresNonempty)
    (hops : ∀ step ∈ steps, step.1.key.subKeys ≠ [])
    (hall : allAccepted id c (steps.map Prod.fst) = true)
    (heach : eachAccepted id c steps = true) :
    (∀ k, k.inLast = false →
      (c.commitAll id (steps.map Prod.fst) m).store k = (c.commitEach id steps).store k) ↔
    ∀ k, k.inLast = false → c.store k = none →
      ¬Overtaken (steps.map fun step => step.1.effect) k := by
  have hone := commitAll_eqOn (m := m) hb hs (List.forall_mem_map.2 hops) hall
  have hmany := commitEach_eqOn hb hs hops heach
  refine forall₂_congr fun k hk => ?_
  rw [hone hk, hmany hk, List.map_map]
  exact foldl_applyFrom_eq_iff

/-- A key is set, erased by its name and set again. -/
def setAgain : List (Operation × CompletedCommit) :=
  [(.set (.ofInt32 "a.b" 1), .quick), (.erase (.ofString "a.b"), .quick),
    (.set (.ofInt32 "a.b" 2), .quick)]

theorem commitAll_eq_commitEach_iff_setAgain :
    (∀ k, k.inLast = false →
      ((onEmpty "/s".toList .ofIds 10).commitAll 1 (setAgain.map Prod.fst) .quick).store k =
        ((onEmpty "/s".toList .ofIds 10).commitEach 1 setAgain).store k) ↔
    ∀ k, k.inLast = false → (onEmpty "/s".toList .ofIds 10).store k = none →
      ¬Overtaken (setAgain.map fun step => step.1.effect) k :=
  commitAll_eq_commitEach_iff _ 1 setAgain .quick rfl nofun (by decide) (by decide) (by decide)

/-- A key is set, and erased by a pattern. -/
def erasedByPattern : List (Operation × CompletedCommit) :=
  [(.set (.ofInt32 "a.b" 1), .quick), (.erase (.ofString "a.*"), .quick)]

/-- With one commit the key stays, and with two it goes. -/
theorem commitAll_ne_commitEach_erasedByPattern :
    allAccepted 1 (onEmpty "/s".toList .ofIds 10) (erasedByPattern.map Prod.fst) = true ∧
    eachAccepted 1 (onEmpty "/s".toList .ofIds 10) erasedByPattern = true ∧
    ((onEmpty "/s".toList .ofIds 10).commitAll 1 (erasedByPattern.map Prod.fst) .quick).store
      (.ofString "a.b") = some (.ofType (.int32 1)) ∧
    ((onEmpty "/s".toList .ofIds 10).commitEach 1 erasedByPattern).store (.ofString "a.b") = none :=
  ⟨by decide, by decide, by decide, by decide⟩

end Configurator

end SysAdmin
