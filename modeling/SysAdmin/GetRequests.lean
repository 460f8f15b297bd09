import SysAdmin.Requests

/-!
# Reading the store

The response to a request to get a key, or the keys of a pattern.

* `ConfigKey.Selects`: the keys that a client asks for;
* `Daemon.get_run`: the response lists the committed pairs of these keys, each once and
  readable as a command to set it would be, in all states that requests lead to. What is
  staged does not matter.
-/

namespace SysAdmin

open Machine Writes Configurator ProtobufTranslator
open Sysadminctl (MappedField)

/-- The pairs of a response to get a key. -/
def Sysadminctl.Response.kvs (r : Sysadminctl.Response) : List MappedField :=
  match r.payload with
  | some (.get kvs) => kvs
  | some (.commit _) | some (.reset _) | some (.dump ..) | some (.blame ..) | some (.inflight _)
  | none => []

namespace SysAdminController

/-- The response with the pairs of a key, or a pattern. -/
def getResponse (valueMap : ConfigPairMap) (id : UInt32) : Sysadminctl.Response :=
  let getResp := translateFromGet valueMap.pairs
  { getResp with
    status := if getResp.kvs.length > 0 then some .success else getResp.status
    id := some id }

/-- Handles a request to get a key. -/
def getHandler (c : Configurator) (key : String) (id : UInt32) : Sysadminctl.Response :=
  getResponse (c.get (.ofString key)) id

end SysAdminController

open SysAdminController (getHandler getResponse)

namespace ConfigKey

/-- The keys a client asks for: the key itself or, with wildcards, the keys with at least as
    many subkeys that have the same subkeys where there is no wildcard. -/
def Selects (p k : ConfigKey) : Prop :=
  if "*" ∈ p.subKeys then
    p.subKeys.length ≤ k.subKeys.length ∧
      ∀ (i : Nat) s, p.subKeys[i]? = some s → s ≠ "*" → k.subKeys[i]? = some s
  else k = p

end ConfigKey

namespace Configurator

variable {c : Configurator} {key : ConfigKey}

/-- The fields are those of the committed pairs with the keys the client asks for. -/
structure Lists (c : Configurator) (key : ConfigKey) (kvs : List MappedField)
    (pairs : ConfigPairList) : Prop where
  mem_iff : ∀ p, p ∈ pairs ↔ c.store p.key = some p.value ∧ key.Selects p.key
  nodup : (pairs.map ConfigPair.key).Nodup
  read : (kvs.map fun field => translateToSet field.key field.value) = pairs.map some

/-- Getting a key, or a pattern, gives the pairs of the keys asked for. -/
theorem mem_pairs_get (hs : ∀ k v, c.store k = some v → k.isWildcard = false) {p : ConfigPair} :
    p ∈ (c.get key).pairs ↔ c.store p.key = some p.value ∧ key.Selects p.key := by
  have hvalues : c.store p.key = some p.value ↔ c.systemStore.values.find? p.key = some p :=
    ConfigPairMap.values_eq_some_iff
  rw [ConfigKey.Selects]
  split
  · next hkey =>
    -- No stored key is a wildcard, and on such keys matching is covering.
    have hw : key.isWildcard = true := by simpa [ConfigKey.isWildcard] using hkey
    have hfind : (c.get key).find? p.key = _ := MemoryCache.find?_get_wildcard hw
    rw [ConfigPairMap.mem_pairs, hfind, hvalues]
    split
    · next hm =>
      refine ⟨fun hp => ⟨hp, ?_⟩, fun hp => hp.1⟩
      exact (ConfigKey.subkeyMatches_iff_covers (hs _ _ (hvalues.2 hp))).1 hm
    · next hm =>
      refine iff_of_false (by simp) fun hp => hm ?_
      exact (ConfigKey.subkeyMatches_iff_covers (hs _ _ (hvalues.2 hp.1))).2 hp.2
  · next hkey =>
    have hw : key.isWildcard = false := by simpa [ConfigKey.isWildcard] using hkey
    have hpairs : (c.get key).pairs = (c.store key).toList.map fun v => ⟨key, v⟩ :=
      MemoryCache.pairs_get hw
    rw [hpairs, List.mem_map]
    constructor
    · rintro ⟨v, hv, rfl⟩
      exact ⟨Option.mem_toList.1 hv, rfl⟩
    · rintro ⟨hp, rfl⟩
      exact ⟨p.value, Option.mem_toList.2 hp, rfl⟩

/-- Only the store is read. -/
theorem getHandler_congr {c' : Configurator} {text : String} {id : UInt32}
    (h : c'.systemStore = c.systemStore) : getHandler c' text id = getHandler c text id := by
  rw [getHandler, getHandler, get, get, h]

/-- The response lists the pairs of the keys asked for. -/
theorem getHandler_eq (hs : ∀ k v, c.store k = some v → k.Named) (text : String) (id : UInt32) :
    ∃ kvs pairs, c.Lists (.ofString text) kvs pairs ∧ getHandler c text id =
      ⟨some (.get kvs), some id, some (if kvs = [] then .keyNotFound else .success)⟩ := by
  have hmem := @mem_pairs_get c (.ofString text) fun k v hv => (hs k v hv).not_wildcard
  have hread : ∀ p ∈ (c.get (.ofString text)).pairs, p.key.Readable ∧ p.value.empty = false := by
    intro p hp
    have hv := (hmem.1 hp).1
    exact ⟨(hs _ _ hv).readable, MemoryCache.not_empty_of_store hv⟩
  have hlen := length_addKvs fun p hp => (hread p hp).2
  refine ⟨addKvs (c.get (.ofString text)).pairs, _,
    ⟨fun p => hmem, ConfigPairMap.nodup_pairs _, translateToSet_addKvs hread⟩, ?_⟩
  rw [getHandler, getResponse, translateFromGet]
  rcases hpairs : (c.get (.ofString text)).pairs with _ | ⟨p, ps⟩
  · rfl
  · rw [hpairs] at hlen
    have hne : addKvs (p :: ps) ≠ [] := List.ne_nil_of_length_pos (by simp [hlen])
    simp [Sysadminctl.Response.kvs, hlen, hne]

end Configurator

namespace Daemon

/-- The request makes no commit. -/
def OnlyStages (s : Daemon) (e : RequestEvent) : Prop := s.commitCall e = none

theorem systemStore_run_of_onlyStages {s : Daemon} {es : List RequestEvent}
    (h : Guarded serve OnlyStages s es) :
    (run serve s es).conf.systemStore = s.conf.systemStore := by
  induction es generalizing s with
  | nil => rfl
  | cons e es ih => rw [run_cons, ih h.2, systemStore_serve_of_none h.1]

/-- In all states that requests lead to, the response to a request to get a key
    lists the committed pairs asked for, each once, and readable as what is stored. What is
    staged, now or by further requests, does not matter. -/
theorem get_run {n : Nat} (es : List RequestEvent) (text : String) (id : UInt32) :
    (∃ kvs pairs, (run serve (onEmpty n) es).conf.Lists (.ofString text) kvs pairs ∧
      getHandler (run serve (onEmpty n) es).conf text id =
        ⟨some (.get kvs), some id, some (if kvs = [] then .keyNotFound else .success)⟩) ∧
    (∀ items, getHandler { (run serve (onEmpty n) es).conf with inFlightItems := items } text id =
      getHandler (run serve (onEmpty n) es).conf text id) ∧
    ∀ es', Guarded serve OnlyStages (run serve (onEmpty n) es) es' →
      getHandler (run serve (run serve (onEmpty n) es) es').conf text id =
        getHandler (run serve (onEmpty n) es).conf text id := by
  refine ⟨getHandler_eq (fun k v hv => keysIn_named_run.stored k v hv) text id,
    fun _ => getHandler_congr rfl, fun es' hes' => ?_⟩
  exact getHandler_congr (systemStore_run_of_onlyStages hes')

/-- What is staged is not in the response. -/
example : getHandler (run serve (onEmpty 100)
    [setCommand "net.mtu" 1, commitCommand, setCommand "net.mtu" 2, setCommand "net.vlan" 3]).conf
    "net.*" 7 =
      ⟨some (.get [⟨"net.mtu", some ⟨some (.int32val 1)⟩⟩]), some 7, some .success⟩ := by
  decide

end Daemon

end SysAdmin
