import SysAdmin.Requests

/-!
# What a commit does to the store

A commit writes the items of its bucket to the store, in order, and behind them the values
from before to `last.*`. It logs what it takes for a change, and runs the hooks for it.

* `Configurator.Changes`: writing the bucket changes the value of a key;
* `prunesExactly_iff`: a commit finds these changes, if its bucket erases no key that is not
  in the store, and none that holds the int32 `0`;
* `store_commit_items`: what is in the store after a commit, key by key.
-/

namespace SysAdmin

open Machine Writes

namespace Configurator

variable {c : Configurator} {id : ClientId} {k : ConfigKey} {p : ConfigPair}

/-! ## Changes -/

/-- The value of a key when the items of a bucket have been written, in order. -/
def valueAfter (c : Configurator) (id : ClientId) (k : ConfigKey) : Option ConfigValue :=
  overlay (c.inFlightItems.staged id).writes c.store k

/-- The items of a bucket change the value of a key outside `last.*`. -/
def Changes (c : Configurator) (id : ClientId) (k : ConfigKey) : Prop :=
  k.inLast = false ∧ c.valueAfter id k ≠ c.store k

/-- Pruning leaves one pair for each key whose value changes, with the value after it; these
    are the keys that are logged, and those whose hooks are run. -/
structure PrunesExactly (c : Configurator) (id : ClientId) : Prop where
  nodup : ((c.pruneUnchangedValues id).map ConfigPair.key).Nodup
  mem_iff : ∀ p, p ∈ c.pruneUnchangedValues id ↔
    c.Changes id p.key ∧ p.value.toOption = c.valueAfter id p.key
  logged_iff : ∀ env k, (∃ d ∈ (c.newCommit env id).items, d.2.key = k) ↔ c.Changes id k
  hooks_iff : ∀ env configOpt changed runServices commitId,
    (c.commit env id configOpt).2 = .hooks changed runServices commitId →
      ∀ k, (∃ p ∈ changed, p.key = k) ↔ c.Changes id k

/-- No key outside `last.*` is erased that is not in the store, or holds the int32 `0`. -/
def ErasesTyped (c : Configurator) (id : ClientId) : Prop :=
  ∀ p, lastItem p.key (c.inFlightItems.staged id) = some p → p.key.inLast = false →
    p.value.empty = true → c.store p.key ≠ none ∧ c.store p.key ≠ some (.ofType (.int32 0))

theorem valueAfter_of_lastItem (h : lastItem k (c.inFlightItems.staged id) = some p) :
    c.valueAfter id k = p.value.toOption := by
  rw [valueAfter, overlay_apply, lastWrite_writes, h]
  rfl

theorem valueAfter_of_none (h : lastItem k (c.inFlightItems.staged id) = none) :
    c.valueAfter id k = c.store k := by
  rw [valueAfter, overlay_apply, lastWrite_writes, h]
  rfl

/-- A key that changes has been staged. -/
theorem Changes.exists_lastItem (h : c.Changes id k) :
    ∃ p, lastItem k (c.inFlightItems.staged id) = some p ∧ p.key = k := by
  rcases hp : lastItem k (c.inFlightItems.staged id) with _ | p
  · exact absurd (valueAfter_of_none hp) h.2
  · exact ⟨p, rfl, (mem_of_lastItem hp).2⟩

/-- An item is taken for a change exactly if it is one, unless it erases a key that is not
    there or holds the int32 `0`. -/
theorem isChange_iff_ne (hk : p.key.Named) :
    (c.isChange p = true ↔ p.value.toOption ≠ c.store p.key) ↔
      (p.value.empty = true →
        c.store p.key ≠ none ∧ c.store p.key ≠ some (.ofType (.int32 0))) := by
  rw [isChange_iff hk.not_wildcard hk.readable]
  rcases hv : c.store p.key with _ | v
  · cases hempty : p.value.empty with
    | true => simp [ConfigValue.toOption_of_empty hempty]
    | false => simp [ConfigValue.toOption_of_not_empty hempty]
  · have hne := MemoryCache.not_empty_of_store hv
    have heq := ConfigValue.eqOp_iff_of_not_empty (w := p.value) hne
    rw [← Bool.not_eq_true] at hne
    simp only [Option.some.injEq, forall_eq', ← Bool.not_eq_true, heq]
    cases hempty : p.value.empty with
    | true =>
      have hvp : v ≠ p.value := fun h => hne (h ▸ hempty)
      simp [ConfigValue.toOption_of_empty hempty, hvp]
    | false => simp [ConfigValue.toOption_of_not_empty hempty, eq_comm]

/-- Pruning keeps the items that are taken for changes. -/
theorem mem_prune_iff_of_lastItem {k : ConfigKey}
    (h : lastItem k (c.inFlightItems.staged id) = some p) (hl : k.inLast = false) :
    p ∈ c.pruneUnchangedValues id ↔ c.isChange p = true := by
  obtain rfl := (mem_of_lastItem h).2
  simp [mem_pruneUnchangedValues, h, hl]

theorem mem_prune_iff (hk : ∀ p ∈ c.inFlightItems.staged id, p.key.Named)
    (h : c.ErasesTyped id) :
    p ∈ c.pruneUnchangedValues id ↔
      c.Changes id p.key ∧ p.value.toOption = c.valueAfter id p.key := by
  constructor
  · intro hp
    obtain ⟨hlast, hl, hchange⟩ := mem_pruneUnchangedValues.1 hp
    have hafter := valueAfter_of_lastItem hlast
    have hne := (isChange_iff_ne (hk p (mem_of_lastItem hlast).1)).2 (h p hlast hl)
    exact ⟨⟨hl, hafter ▸ hne.1 hchange⟩, hafter.symm⟩
  · rintro ⟨hc, hv⟩
    obtain ⟨q, hq, hkey⟩ := hc.exists_lastItem
    -- The pair is the last item itself, since both have the key and the value.
    have hqp : q = p := by
      rw [valueAfter_of_lastItem hq] at hv
      cases p
      cases q
      rw [ConfigPair.mk.injEq]
      exact ⟨hkey, (ConfigValue.toOption_inj hv).symm⟩
    subst hqp
    have hne := (isChange_iff_ne (hk q (mem_of_lastItem hq).1)).2 (h q hq hc.1)
    exact (mem_prune_iff_of_lastItem hq hc.1).2 (hne.2 (hv ▸ hc.2))

/-- The keys of the pairs left are those that change. -/
theorem exists_mem_prune_iff (hk : ∀ p ∈ c.inFlightItems.staged id, p.key.Named)
    (h : c.ErasesTyped id) :
    (∃ p ∈ c.pruneUnchangedValues id, p.key = k) ↔ c.Changes id k := by
  constructor
  · rintro ⟨p, hp, rfl⟩
    exact ((mem_prune_iff hk h).1 hp).1
  · intro hc
    obtain ⟨p, hp, rfl⟩ := hc.exists_lastItem
    exact ⟨p, (mem_prune_iff hk h).2 ⟨hc, (valueAfter_of_lastItem hp).symm⟩, rfl⟩

theorem changed_of_hooks {env : Environment} {configOpt : CommitConfig} {changed : ConfigPairList}
    {runServices : Bool} {commitId : CommitId}
    (h : (c.commit env id configOpt).2 = .hooks changed runServices commitId) :
    changed = c.pruneUnchangedValues id := by
  obtain ⟨_, hc⟩ | ⟨_, _, hc⟩ | ⟨_, commitId, _, hc⟩ := commit_cases c env id configOpt
  · rw [hc] at h
    cases h
  · rw [hc] at h
    cases h
  · rw [hc] at h
    split at h
    · cases h
    · cases h
      rfl

/-- What is logged is what pruning has left. -/
theorem snd_newCommit (env : Environment) :
    (c.newCommit env id).items.map Prod.snd = c.pruneUnchangedValues id := by
  simp only [newCommit, TransactionManager.newCommit, TransactionManager.generateDeltas,
    List.map_map, Function.comp_def, List.map_id']

/-- Pruning leaves the changes exactly if no key is erased that is not in the store, or holds
    the int32 `0`. -/
theorem prunesExactly_iff (c : Configurator) (id : ClientId)
    (hk : ∀ p ∈ c.inFlightItems.staged id, p.key.Named) :
    c.PrunesExactly id ↔ c.ErasesTyped id := by
  constructor
  · intro h p hp hl
    rw [← isChange_iff_ne (hk p (mem_of_lastItem hp).1), ← mem_prune_iff_of_lastItem hp hl,
      h.mem_iff p, Changes, valueAfter_of_lastItem hp]
    simp [hl]
  · intro h
    exact {
      nodup := nodup_pruneUnchangedValues
      mem_iff := fun p => mem_prune_iff hk h
      logged_iff := fun env k => by
        rw [← exists_mem_prune_iff hk h, ← snd_newCommit env]
        simp only [List.mem_map, exists_exists_and_eq_and]
      hooks_iff := fun env configOpt changed runServices commitId hhooks k => by
        rw [changed_of_hooks hhooks, exists_mem_prune_iff hk h] }

end Configurator

namespace Daemon

open Configurator

/-- A zero is stored, and another value is staged in its place. -/
def zeroSet : List RequestEvent := [setCommand "a" 0, commitCommand, setCommand "a" 1]

theorem prunesExactly_iff_zeroSet :
    (run serve (onEmpty 10) zeroSet).conf.PrunesExactly 1 ↔
      (run serve (onEmpty 10) zeroSet).conf.ErasesTyped 1 :=
  prunesExactly_iff _ 1 (keysIn_named_run.staged_of_not_locked (by decide))

/-- A zero is stored, and erasing it is staged. -/
def zeroErased : List RequestEvent := [setCommand "a" 0, commitCommand, command (.erase "a")]

/-- Erasing a zero is not taken for a change, and erasing what is not there is. -/
theorem not_prunesExactly_erased :
    ¬(run serve (onEmpty 10) zeroErased).conf.PrunesExactly 1 ∧
      ¬(run serve (onEmpty 10) [command (.erase "a")]).conf.PrunesExactly 1 := by
  constructor
  · intro h
    have hprune : (run serve (onEmpty 10) zeroErased).conf.pruneUnchangedValues 1 = [] := by decide
    have hmem := (h.mem_iff (.ofKey (.ofString "a"))).2 ⟨⟨by decide, by decide⟩, by decide⟩
    rw [hprune] at hmem
    cases hmem
  · intro h
    have hmem : (ConfigPair.ofKey (.ofString "a")) ∈
        (run serve (onEmpty 10) [command (.erase "a")]).conf.pruneUnchangedValues 1 := by decide
    exact ((h.mem_iff _).1 hmem).1.2 (by decide)

end Daemon

/-! ## The store after a commit -/

/-- Keys of `last.*` are those of different keys. -/
theorem ConfigKey.Plain.lastKey_inj {k k' : ConfigKey} (hk : k.Plain) (hk' : k'.Plain)
    (h : k.lastKey = k'.lastKey) : k = k' := by
  have hsub := congrArg ConfigKey.subKeys h
  rw [subKeys_lastKey hk.nonempty, subKeys_lastKey hk'.nonempty, List.cons.injEq] at hsub
  exact ConfigKey.ext hsub.2

namespace Configurator

variable {c : Configurator} {id : ClientId} {k : ConfigKey} {p : ConfigPair} {env : Environment}
  {configOpt : CommitConfig}

/-- The key is the one of `last.*` for a key of the bucket that is itself neither there nor in
    `default.*`. -/
def SavesLast (c : Configurator) (id : ClientId) (k : ConfigKey) : Prop :=
  ∃ p ∈ c.inFlightItems.staged id,
    p.key.inDefault = false ∧ p.key.inLast = false ∧ p.key.lastKey = k

theorem oldItem_of_live (hk : p.key.Plain) (hd : p.key.inDefault = false)
    (hl : p.key.inLast = false) :
    c.oldItem p = some ⟨p.key.lastKey, (c.store p.key).getD .none⟩ := by
  simp [oldItem_eq hk, hd, hl]

/-- Of the pairs of `last.*` for the bucket, the one for a key has its value. -/
theorem lastItem_oldItems (hi : ∀ p ∈ c.inFlightItems.staged id, p.key.Plain)
    (hp : p ∈ c.inFlightItems.staged id) (hd : p.key.inDefault = false)
    (hl : p.key.inLast = false) :
    lastItem p.key.lastKey ((c.inFlightItems.staged id).filterMap c.oldItem) =
      some ⟨p.key.lastKey, (c.store p.key).getD .none⟩ := by
  refine lastItem_of_unique (p := ⟨p.key.lastKey, (c.store p.key).getD .none⟩)
    (List.mem_filterMap.2 ⟨p, hp, oldItem_of_live (hi p hp) hd hl⟩) fun q hq hkey => ?_
  obtain ⟨r, hr, hold⟩ := List.mem_filterMap.1 hq
  have hrp : r.key = p.key :=
    (hi r hr).lastKey_inj (hi p hp) ((key_of_oldItem hold).symm.trans hkey)
  rw [oldItem_of_live (hi r hr) (hrp ▸ hd) (hrp ▸ hl), hrp] at hold
  exact (Option.some.inj hold).symm

theorem lastItem_oldItems_eq_none (hi : ∀ p ∈ c.inFlightItems.staged id, p.key.Plain)
    (hk : ¬c.SavesLast id k) :
    lastItem k ((c.inFlightItems.staged id).filterMap c.oldItem) = none := by
  refine lastItem_eq_none_iff.2 fun q hq hkey => ?_
  obtain ⟨r, hr, hold⟩ := List.mem_filterMap.1 hq
  rw [key_of_oldItem hold] at hkey
  rw [oldItem_eq (hi r hr)] at hold
  split at hold
  · cases hold
  · next hlive =>
    rw [Bool.or_eq_true, not_or, Bool.not_eq_true, Bool.not_eq_true] at hlive
    exact hk ⟨r, hr, hlive.1, hlive.2, hkey⟩

/-- A commit that does not throw writes what it applies. -/
theorem store_commit_of_not_threw (hc : c.Committable id)
    (ht : (c.commit env id configOpt).2 ≠ .threw) :
    (c.commit env id configOpt).1.store k =
      ((lastItem k (c.toApply id)).map fun p => p.value.toOption).getD (c.store k) := by
  have hlog : (c.logged env id).2 ≠ none := logged_ne_none_iff.2 ((commit_ne_threw_iff hc.2).1 ht)
  rw [store_commit, if_pos ⟨hc, hlog⟩, overlay_apply, lastWrite_writes]

/-- After a commit, a key of the bucket has the value of its last item, and its key of `last.*`
    the value from before; a key of `default.*` or `last.*` has the value of its last item, too,
    unless the value of another key is saved there; and all other keys are as they were. -/
theorem store_commit_items (c : Configurator) (env : Environment) (id : ClientId)
    (configOpt : CommitConfig) (hc : c.Committable id)
    (ht : (c.commit env id configOpt).2 ≠ .threw)
    (hi : ∀ p ∈ c.inFlightItems.staged id, p.key.Plain) :
    (∀ k p, k.inDefault = false → k.inLast = false →
      lastItem k (c.inFlightItems.staged id) = some p →
        (c.commit env id configOpt).1.store k = p.value.toOption ∧
        (c.commit env id configOpt).1.store k.lastKey = c.store k) ∧
    (∀ k p, k.inDefault = true ∨ k.inLast = true →
      lastItem k (c.inFlightItems.staged id) = some p → ¬c.SavesLast id k →
        (c.commit env id configOpt).1.store k = p.value.toOption) ∧
    ∀ k, lastItem k (c.inFlightItems.staged id) = none → ¬c.SavesLast id k →
      (c.commit env id configOpt).1.store k = c.store k := by
  -- The items that save old values only decide about the keys they are saved at.
  have hother : ∀ k, ¬c.SavesLast id k →
      lastItem k (c.toApply id) = lastItem k (c.inFlightItems.staged id) := fun k hk => by
    rw [toApply, lastItem_append, lastItem_oldItems_eq_none hi hk, Option.none_or]
  simp only [store_commit_of_not_threw hc ht]
  refine ⟨fun k p hd hl hp => ⟨?_, ?_⟩, fun k p _ hp hk => ?_, fun k hp hk => ?_⟩
  · rw [lastItem_toApply (fun p hp => (hi p hp).nonempty) hl, hp]
    rfl
  · obtain ⟨hmem, rfl⟩ := mem_of_lastItem hp
    rw [toApply, lastItem_append, lastItem_oldItems hi hmem hd hl]
    rcases hv : c.store p.key with _ | v
    · rfl
    · exact ConfigValue.toOption_of_not_empty (MemoryCache.not_empty_of_store hv)
  · rw [hother k hk, hp]
    rfl
  · rw [hother k hk, hp]
    rfl

end Configurator

namespace Daemon

/-- A value is stored, and two others are staged in its place. -/
def setThrice : List RequestEvent :=
  [setCommand "a" 1, commitCommand, setCommand "a" 2, setCommand "a" 3]

theorem store_commit_items_setThrice :
    ((run serve (onEmpty 10) setThrice).conf.commit ⟨0, true⟩ 1 .noHooks).1.store
        (.ofString "a") = some (.ofType (.int32 3)) ∧
      ((run serve (onEmpty 10) setThrice).conf.commit ⟨0, true⟩ 1 .noHooks).1.store
        (ConfigKey.ofString "a").lastKey =
          (run serve (onEmpty 10) setThrice).conf.store (.ofString "a") :=
  (Configurator.store_commit_items _ ⟨0, true⟩ 1 .noHooks (by decide) (by decide) (by decide)).1
    (.ofString "a") (.ofInt32 "a" 3) (by decide) (by decide) (by decide)

end Daemon

end SysAdmin
