import SysAdmin.HistoryRestart
import SysAdmin.Replies

/-!
# The Rust client

The client takes the message of a response apart with the functions generated for it: to
*take* a payload gives the one that is set, or an empty one if the response has another
payload. From the message of a value that has no field set the client cannot make a value;
it panics (`none`).

* `inFlightResponse_iff`: from the response to `inflight`, the client reads what is staged
  only if nothing is. It takes the payload of the response to `get` (`takeGet`), though the
  one for `inflight` has it all (`mapM_fromMappedField`);
* `Daemon.blameResponse_iff`: from the response to `blame`, the client reads the commits to a
  key, unless one of them has erased it, or has an id that does not fit into the message.
-/

namespace SysAdmin

open Machine
open Sysadminctl (MappedField)

namespace RustClient

/-! ## Messages -/

/-- The fields of the response to `get`, which are none for another payload. -/
def takeGet (r : Sysadminctl.Response) : List MappedField :=
  match r.payload with
  | some (.get kvs) => kvs
  | some (.commit _) | some (.reset _) | some (.dump ..) | some (.blame ..) | some (.inflight _)
  | none => []

/-- The entries of the response to `blame`, which are none for another payload. -/
def takeBlame (r : Sysadminctl.Response) : List Sysadminctl.BlameEntry :=
  match r.payload with
  | some (.blame _ entries) => entries
  | some (.get _) | some (.commit _) | some (.reset _) | some (.dump ..) | some (.inflight _)
  | none => []

/-- The id of a response, by default zero. -/
def getId (r : Sysadminctl.Response) : UInt32 := r.id.getD 0

/-- The status of a response, by default the first one. -/
def getStatus (r : Sysadminctl.Response) : StatusCode := r.status.getD .success

/-! ## Values -/

/-- A value. -/
inductive SysadminValue
  | int32 (v : Int32)
  | strval (v : String)
  | bool (v : Bool)
  | int32List (v : List Int32)
  | boolList (v : List Bool)
  | strvalList (v : List String)
  deriving DecidableEq

/-- The value in a message. Panics if no field is set. -/
def SysadminValue.fromConfigValue (cv : Sysadminctl.ConfigValue) : Option SysadminValue :=
  match cv.value with
  | some (.int32val v) => some (.int32 v)
  | some (.strval v) => some (.strval v)
  | some (.boolval v) => some (.bool v)
  | some (.int32list list) => some (.int32List list)
  | some (.boollist list) => some (.boolList list)
  | some (.stringlist list) => some (.strvalList list)
  | none => none

/-- A key with its value, if it has one. -/
structure Kvs where
  key : String
  value : Option SysadminValue
  deriving DecidableEq

/-- The pair in a field. -/
def Kvs.fromMappedField (m : MappedField) : Option Kvs :=
  match m.value with
  | some cv => (SysadminValue.fromConfigValue cv).map fun v => ⟨m.key, some v⟩
  | none => some ⟨m.key, none⟩

/-! ## Responses -/

/-- The response to `inflight`. -/
structure InFlightResponse where
  id : UInt32
  status : StatusCode
  kvs : List Kvs
  deriving DecidableEq

/-- What the client makes of the response to `inflight`. It takes the payload of `get`. -/
def InFlightResponse.fromResponse (r : Sysadminctl.Response) : Option InFlightResponse :=
  ((takeGet r).mapM Kvs.fromMappedField).map fun kvs => ⟨getId r, getStatus r, kvs⟩

/-- A commit to a key. -/
structure BlameEntry where
  commitId : UInt32
  commitTime : Option Nat
  val : SysadminValue
  deriving DecidableEq

/-- The commit in an entry. -/
def BlameEntry.fromBlameEntry (r : Sysadminctl.BlameEntry) : Option BlameEntry :=
  (SysadminValue.fromConfigValue r.val).map fun val => ⟨r.commitId, r.commitTime, val⟩

/-- The response to `blame`. -/
structure BlameResponse where
  id : UInt32
  status : StatusCode
  entries : List BlameEntry
  deriving DecidableEq

/-- What the client makes of the response to `blame`. -/
def BlameResponse.fromResponse (r : Sysadminctl.Response) : Option BlameResponse :=
  ((takeBlame r).mapM BlameEntry.fromBlameEntry).map fun entries =>
    ⟨getId r, getStatus r, entries⟩

/-! ## Staged items -/

/-- A typed value as the client has it. -/
def SysadminValue.ofType : ValueType → SysadminValue
  | .int32 v => int32 v
  | .string v => strval v
  | .bool v => bool v
  | .int32list v => int32List v
  | .stringlist v => strvalList v
  | .boollist v => boolList v

/-- A staged item as the client has it, without a value if it erases the key. -/
def Kvs.ofPair (p : ConfigPair) : Kvs :=
  ⟨p.key.toString, p.value.toOption.map fun v => .ofType v.value⟩

open ProtobufTranslator

/-- The client reads a value exactly if there is one. -/
theorem fromConfigValue_copyConfigValue (v : ConfigValue) :
    SysadminValue.fromConfigValue (copyConfigValue v) =
      if v.empty then none else some (.ofType v.value) := by
  obtain ⟨value, empty, h⟩ := v
  cases empty with
  | true => rfl
  | false =>
    cases value with
    | int32 v | string v | bool v | int32list v | boollist v | stringlist v => rfl

/-- The payload for `inflight` holds what is staged. -/
theorem mapM_fromMappedField {items : ConfigPairList} {kvs : List MappedField}
    (h : (translateFromInFlight items).payload = some (.inflight kvs)) :
    kvs.mapM Kvs.fromMappedField = some (items.map Kvs.ofPair) := by
  rw [translateFromInFlight] at h
  obtain rfl := Sysadminctl.ResponsePayload.inflight.inj (Option.some.inj h)
  refine mapM_map_eq_some fun item _ => ?_
  cases hv : item.value.empty with
  | true => simp [Kvs.fromMappedField, Kvs.ofPair, ConfigValue.toOption, hv]
  | false =>
    simp [Kvs.fromMappedField, fromConfigValue_copyConfigValue, Kvs.ofPair, ConfigValue.toOption,
      hv]

/-- The client reads what is staged only if nothing is. -/
theorem inFlightResponse_iff (items : ConfigPairList) (id : UInt32) (status : StatusCode) :
    (InFlightResponse.fromResponse
        { translateFromInFlight items with id := some id, status := some status }).map
          InFlightResponse.kvs = some (items.map Kvs.ofPair) ↔
      items = [] := by
  have hread : (InFlightResponse.fromResponse
      { translateFromInFlight items with id := some id, status := some status }).map
        InFlightResponse.kvs = some [] := rfl
  rw [hread, Option.some.injEq, eq_comm, List.map_eq_nil_iff]

/-- Of one staged item, the client reads nothing. -/
theorem inFlightResponse_one : ¬∀ items : ConfigPairList,
    (InFlightResponse.fromResponse
        { translateFromInFlight items with id := some 7, status := some .success }).map
          InFlightResponse.kvs = some (items.map Kvs.ofPair) := by
  intro h
  have hone := h [.ofInt32 "a" 1]
  revert hone
  decide

/-! ## Commits to a key -/

/-- An entry of the client tells a commit to a key: it has its id, and the value if there is
    one. -/
def BlameEntry.Tells (e : BlameEntry) (t : CommitId × ConfigValue) : Prop :=
  e.commitId.toNat = t.1 ∧ (t.2.empty = false → e.val = .ofType t.2.value)

/-- An entry is read, and tells the commit, if there is a value and the id fits. -/
theorem exists_fromBlameEntry_iff {commitId : CommitId} {time : Option Nat} {v : ConfigValue} :
    (∃ e, BlameEntry.fromBlameEntry ⟨.ofNat commitId, time, copyConfigValue v⟩ = some e ∧
      e.Tells (commitId, v)) ↔ v.empty = false ∧ commitId < UInt32.size := by
  rw [BlameEntry.fromBlameEntry, fromConfigValue_copyConfigValue]
  cases hv : v.empty with
  | true => simp
  | false =>
    simp [BlameEntry.Tells, hv]

/-- The response to `blame` is read, and tells the deltas, if they have values and the ids
    fit. -/
theorem blameResponse_deltas_iff {key : ConfigKey} {deltas : List BlameDelta} {id : UInt32}
    {status : StatusCode} :
    (∃ r, BlameResponse.fromResponse
        { translateFromBlame key deltas with id := some id, status := some status } = some r ∧
      List.Forall₂ BlameEntry.Tells r.entries
        (deltas.map fun d => (d.commitId, d.delta.2.value))) ↔
      ∀ d ∈ deltas, d.delta.2.value.empty = false ∧ d.commitId < UInt32.size := by
  have hread : BlameResponse.fromResponse
      { translateFromBlame key deltas with id := some id, status := some status } =
        (deltas.mapM fun d => BlameEntry.fromBlameEntry
          ⟨.ofNat d.commitId, d.commitTime, copyConfigValue d.delta.2.value⟩).map
            fun entries => ⟨id, status, entries⟩ := by
    rw [BlameResponse.fromResponse, translateFromBlame, takeBlame, List.mapM_map]
    rfl
  have hexists : (∃ r, BlameResponse.fromResponse
        { translateFromBlame key deltas with id := some id, status := some status } = some r ∧
      List.Forall₂ BlameEntry.Tells r.entries
        (deltas.map fun d => (d.commitId, d.delta.2.value))) ↔
      ∃ entries, (deltas.mapM fun d => BlameEntry.fromBlameEntry
          ⟨.ofNat d.commitId, d.commitTime, copyConfigValue d.delta.2.value⟩) = some entries ∧
        List.Forall₂ (fun e d => BlameEntry.Tells e (d.commitId, d.delta.2.value)) entries
          deltas := by
    simp [hread, List.forall₂_map_right_iff]
  -- All entries are read exactly if each one is.
  rw [hexists, exists_mapM_forall₂_iff]
  simp only [exists_fromBlameEntry_iff]

end RustClient

/-! ### Commits of the daemon -/

/-- A commit has one delta for each of its keys, which is the key of both sides. -/
structure CommitHistory.OnePerKey (commit : CommitHistory) : Prop where
  key_eq : ∀ d ∈ commit.items, d.1.key = d.2.key
  nodup : (commit.items.map fun d => d.2.key).Nodup

/-- The value a commit has written for a key, Empty if it has erased it. -/
def CommitHistory.wrote (commit : CommitHistory) (key : ConfigKey) : Option ConfigValue :=
  (commit.items.find? fun d => d.2.key = key).map fun d => d.2.value

theorem CommitHistory.OnePerKey.getDelta_eq {commit : CommitHistory} (h : commit.OnePerKey)
    (key : ConfigKey) :
    AllCommitHistories.getDelta key commit = commit.items.find? fun d => d.2.key = key := by
  rw [AllCommitHistories.getDelta]
  rcases hd : commit.items.find? fun d => d.2.key = key with _ | d
  · rw [hd]
    refine ParentLinks.foldl_eq_none (P := fun d : ConfigDelta => d.1.key = key)
      fun d hmem => ?_
    rw [h.key_eq d hmem]
    simpa using List.find?_eq_none.1 hd d hmem
  · have hmem := List.mem_of_find?_eq_some hd
    have hkey : d.2.key = key := by simpa using List.find?_some hd
    rw [hd]
    refine ParentLinks.foldl_eq_some (P := fun d : ConfigDelta => d.1.key = key) hmem
      ((h.key_eq d hmem).trans hkey) ?_
    intro d' hmem' hkey'
    rw [h.key_eq d' hmem', ← hkey] at hkey'
    exact List.inj_on_of_nodup_map h.nodup hmem' hmem hkey'

namespace Configurator

variable {c : Configurator} {env : Environment} {id : ClientId}

/-- The retained commits that have written a key, from the youngest to the oldest, each with
    its id and the value. -/
def writers (c : Configurator) (key : ConfigKey) : List (CommitId × ConfigValue) :=
  c.commits.reverse.filterMap fun commit => (commit.wrote key).map fun v => (commit.id, v)

/-- The deltas found for a key are those of the commits that have written it. -/
theorem blame_eq_writers (h : ∀ commit ∈ c.commits, commit.OnePerKey) (key : ConfigKey) :
    (c.commitHistory.commitHistory.blame key).map (fun d => (d.commitId, d.delta.2.value)) =
      c.writers key := by
  rw [AllCommitHistories.blame, ← List.filterMap_reverse, List.map_filterMap, writers]
  refine List.filterMap_congr fun commit hcommit => ?_
  rw [(h commit (List.mem_reverse.1 hcommit)).getDelta_eq, CommitHistory.wrote]
  simp only [Option.map_map, Function.comp_def]

theorem KeysIn.onePerKey_newCommit {P Q : ConfigKey → Prop} (rule : KeyRule P Q)
    (h : c.KeysIn P Q) (hl : c.inFlightItems.isBucketLocked id = false) :
    (c.newCommit env id).OnePerKey := by
  have hitems : (c.newCommit env id).items = _ := generateDeltas_eq fun p hp =>
    rule.not_wildcard _ (rule.store _ (h.staged_of_not_locked hl p (mem_staged_of_mem_prune hp)))
  constructor
  · intro d hd
    rw [hitems] at hd
    obtain ⟨p, -, rfl⟩ := List.mem_map.1 hd
    rfl
  · rw [hitems, List.map_map]
    exact nodup_pruneUnchangedValues

end Configurator

namespace Daemon

variable {s : Daemon}

/-- The response to `blame`. -/
def blameResponse (s : Daemon) (id : UInt32) (key : String) : Sysadminctl.Response :=
  let deltas := s.conf.commitHistory.commitHistory.blame (.ofString key)
  let notFound := (s.conf.get (.ofString key)).pairs.length = 0 ∧ deltas.length = 0
  { ProtobufTranslator.translateFromBlame (.ofString key) deltas with
    status := some (if notFound then .keyNotFound else .success)
    id := some id }

/-- All keys are keys that clients can name, and all commits have one delta for a key. -/
def Logs (s : Daemon) : Prop :=
  s.conf.KeysIn ConfigKey.Named ConfigKey.Named ∧ ∀ commit ∈ s.conf.commits, commit.OnePerKey

theorem logs_start {root : Path} {history : LocalHistoryStorage} {n : Nat} :
    (start (.onEmpty root history n)).Logs :=
  ⟨Configurator.pairsIn_onEmpty, fun _ h => absurd h List.not_mem_nil⟩

theorem logs_serve (h : s.Logs) (e : RequestEvent) : (s.serve e).Logs := by
  refine ⟨keysIn_serve keyRule_named h.1 (names_named h.1 e), fun commit hcommit => ?_⟩
  obtain hmem | ⟨call, hcall, hl, rfl⟩ := mem_commits_serve hcommit
  · exact h.2 commit hmem
  · exact (keysIn_commitCall keyRule_named h.1 (names_named h.1 e) hcall).onePerKey_newCommit
      keyRule_named hl

theorem logs_run {es : List RequestEvent} (h : s.Logs) : (run serve s es).Logs :=
  (Always.of_step serve (I := Logs) (G := fun _ _ => True) h (fun _ e hs _ => logs_serve hs e)
    (guarded_of_forall fun _ _ => trivial)).last

/-- From the response to `blame`, the client reads the commits that have written the key,
    exactly if none of them has erased it and their ids fit into the message. -/
theorem blameResponse_iff (root : Path) (history : LocalHistoryStorage) (n : Nat)
    (es : List RequestEvent) (id : UInt32) (key : String) :
    let s := run serve (start (.onEmpty root history n)) es
    (∃ r, RustClient.BlameResponse.fromResponse (s.blameResponse id key) = some r ∧
      List.Forall₂ RustClient.BlameEntry.Tells r.entries (s.conf.writers (.ofString key))) ↔
      ∀ t ∈ s.conf.writers (.ofString key), t.2.empty = false ∧ t.1 < UInt32.size := by
  intro s
  have hs : s.Logs := logs_run logs_start
  rw [← Configurator.blame_eq_writers hs.2, List.forall_mem_map]
  exact RustClient.blameResponse_deltas_iff

/-- A key is set and erased, each with a commit. -/
def setErase : List RequestEvent :=
  [setCommand "a" 1, commitCommand, command (.erase "a"), commitCommand]

/-- The client panics at the commit that has erased the key. -/
theorem blameResponse_erased : ¬∃ r, RustClient.BlameResponse.fromResponse
    ((run serve (onEmpty 10) setErase).blameResponse 7 "a") = some r := by
  have hpanic : RustClient.BlameResponse.fromResponse
      ((run serve (onEmpty 10) setErase).blameResponse 7 "a") = none := by decide
  simp [hpanic]

end Daemon

end SysAdmin
