import SysAdmin.Foundation.Machine
import SysAdmin.MemoryCache

/-!
# Restarting the daemon

A restarted daemon loads the files and nothing else, so the files have to hold
what the live store held: they *agree* (`MemoryCache.Agrees`).

A commit writes its items to the live store, while the storage writes the whole
bucket of the client. This is not the same: the storage keeps the bucket after
its commit, and the next commit of the client writes all of it once more.

* `CacheCommit`: what a client stages and commits in one go;
* `MemoryCache.NoStale`: nothing that a commit writes once more has changed since;
* `MemoryCache.always_agrees_iff`: files and live store agree after every commit
  of a run exactly as long as no commit writes something stale.
-/

namespace SysAdmin

open Writes Machine
open LocalYAMLStorage (Writable)

/-- A commit of a client: what it stages, at least one item, and its id. -/
structure CacheCommit (root : Path) where
  id : ClientId
  items : ConfigPairList
  nonempty : items ≠ []
  writable : ∀ p ∈ items, Writable root p

namespace MemoryCache

variable {root : Path}

/-- Stages the items of a commit and commits them. -/
def step (c : MemoryCache) (e : CacheCommit root) : MemoryCache := c.setAndCommit e.id e.items

/-- Loading the files gives what the live store holds. -/
def Agrees (c : MemoryCache) : Prop :=
  ∃ m, c.backingStore.getAll = some m ∧ ∀ k, m.find? k = c.getAll.find? k

/-- What the storage kept from the last commits of the client is rewritten by
    this one, or is still what the live store holds. -/
def NoStale (c : MemoryCache) (e : CacheCommit root) : Prop :=
  ∀ k v, lastWrite k e.items.writes = none →
    lastWrite k (c.backingStore.inFlightItems.staged e.id).writes = some v → c.store k = v

/-- Between commits, nothing is staged in the cache, and all that has reached the
    storage can be written and found back. -/
structure Settled (root : Path) (c : MemoryCache) : Prop where
  root_eq : c.backingStore.root = root
  written : LocalYAMLStorage.Written root c.backingStore.files
  quiet : c.Quiet
  kept_writable : ∀ id, ∀ p ∈ c.backingStore.inFlightItems.staged id, Writable root p

variable {c : MemoryCache} {e : CacheCommit root}

theorem settled_onEmpty : (onEmpty root).Settled root where
  root_eq := rfl
  written := LocalYAMLStorage.written_new
  quiet := quiet_onEmpty
  kept_writable _ _ hp := by cases hp

theorem Settled.writable_kept_append (h : c.Settled root) :
    ∀ p ∈ c.backingStore.inFlightItems.staged e.id ++ e.items, Writable c.backingStore.root p := by
  intro p hp
  rw [h.root_eq]
  rcases List.mem_append.1 hp with hp | hp
  · exact h.kept_writable e.id p hp
  · exact e.writable p hp

/-- The disk gets what the storage kept, and then the items of the client. -/
theorem diskStore_step (h : c.Settled root) : (c.step e).backingStore.diskStore =
    overlay (ConfigPairList.writes (c.backingStore.inFlightItems.staged e.id) ++ e.items.writes)
      c.backingStore.diskStore := by
  have hw := h.writable_kept_append (e := e)
  rw [step, backingStore_setAndCommit h.quiet, ConfigPairList.writes, ConfigPairList.writes,
    ← List.map_append]
  exact LocalYAMLStorage.diskStore_groupSet (s := { c.backingStore with inFlightItems := _ }) hw

theorem Settled.step (h : c.Settled root) : (c.step e).Settled root where
  root_eq := by
    rw [MemoryCache.step, backingStore_setAndCommit h.quiet]
    exact h.root_eq
  written := by
    have hwritten : LocalYAMLStorage.Written c.backingStore.root (c.step e).backingStore.files := by
      rw [MemoryCache.step, backingStore_setAndCommit h.quiet]
      exact LocalYAMLStorage.Written.groupSet (s := { c.backingStore with inFlightItems := _ })
        (h.root_eq.symm ▸ h.written) h.writable_kept_append
    exact h.root_eq ▸ hwritten
  quiet := h.quiet.setAndCommit
  kept_writable id p hp := by
    rw [MemoryCache.step, backingStore_setAndCommit h.quiet] at hp
    by_cases hid : id = e.id
    · subst hid
      rw [← h.root_eq]
      exact h.writable_kept_append p (LockedConfigPairMap.staged_insertAll_self ▸ hp)
    · -- Another client's bucket is what it was, or has been aged out.
      simp only [LocalYAMLStorage.groupSet, LockedConfigPairMap.staged,
        LockedConfigPairMap.getBucket, LockedConfigPairMap.bucket?_insertAll_of_ne hid] at hp
      split at hp
      · cases hp
      · exact h.kept_writable id p hp

/-- Files and live store agree if the disk holds what the live store holds. -/
theorem agrees_iff (h : c.Settled root) : c.Agrees ↔ c.backingStore.diskStore = c.store := by
  obtain ⟨m, hm, hvalues⟩ :=
    LocalYAMLStorage.getAll_eq (s := c.backingStore) (h.root_eq ▸ h.written)
  have hfind : ∀ k, m.find? k = (c.backingStore.diskStore k).map fun v => ⟨k, v⟩ := by
    intro k
    rw [← hvalues]
    rcases hv : m.values k with _ | v
    · exact ConfigPairMap.values_eq_none_iff.1 hv
    · exact ConfigPairMap.values_eq_some_iff.1 hv
  have hinj : ∀ k, Function.Injective (Option.map fun v : ConfigValue => ConfigPair.mk k v) :=
    fun k => Option.map_injective fun v w hvw => congrArg ConfigPair.value hvw
  simp only [Agrees, hm, Option.some.injEq, exists_eq_left', find?_getAll, hfind, find?_values,
    (hinj _).eq_iff, funext_iff]

theorem agrees_onEmpty : (onEmpty root).Agrees :=
  ⟨.empty, rfl, fun _ => rfl⟩

/-- One commit keeps the files and the live store in agreement exactly if it
    writes nothing stale. -/
theorem agrees_step_iff (h : c.Settled root) (hc : c.Agrees) : (c.step e).Agrees ↔ c.NoStale e := by
  rw [agrees_iff h.step, diskStore_step h, step, store_setAndCommit h.quiet, (agrees_iff h).1 hc,
    overlay_append_eq_iff]
  rfl

/-- From an empty directory, files and live store agree after every commit of a run if and
    only if no commit of it writes something stale. -/
theorem always_agrees_iff (root : Path) (es : List (CacheCommit root)) :
    Always step Agrees (onEmpty root) es ↔ Guarded step NoStale (onEmpty root) es :=
  always_iff_guarded settled_onEmpty (fun _ _ h => h.step) agrees_onEmpty
    fun _ _ h hc => agrees_step_iff h hc

/-- Loading the files and reading a key gives what reading the live store gives. -/
theorem Agrees.find? (h : c.Agrees) (k : ConfigKey) :
    (c.backingStore.getAll.map fun m => m.find? k) = some (c.getAll.find? k) := by
  obtain ⟨m, hm, hfind⟩ := h
  rw [hm, Option.map_some, hfind]

/-- The commit of one int32. -/
def commitOf (id : ClientId) (key : String) (v : Int32)
    (h : Writable "/s".toList (.ofInt32 key v)) : CacheCommit "/s".toList :=
  ⟨id, [.ofInt32 key v], by simp, by simpa using h⟩

/-- Client 1 writes a key, client 2 changes it, and then a commit of client 1 to
    another key sets it back in the files, but not in the live store. -/
def staleRun : List (CacheCommit "/s".toList) :=
  [commitOf 1 "net.mtu" 1 ⟨by decide, by decide⟩, commitOf 2 "net.mtu" 2 ⟨by decide, by decide⟩,
    commitOf 1 "net.vlan" 3 ⟨by decide, by decide⟩]

theorem not_always_agrees : ¬ ∀ (root : Path) (es : List (CacheCommit root)),
    Always step Agrees (onEmpty root) es := by
  intro h
  have hrun := (h "/s".toList staleRun).last
  exact absurd (hrun.find? (.ofString "net.mtu")) (by decide)

end MemoryCache

end SysAdmin
