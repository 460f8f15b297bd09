import SysAdmin.AtomicReads
import SysAdmin.RustRequests
import SysAdmin.RustResponses

/-!
# Calls of the Rust client

A call of the Rust client writes the frame of a request, reads the frame of a response, and makes of
it what the type of the request asks for. The client does not look at the id of the response, and
panics if a value of it has no field that is set.

Here the client is connected to the server: it makes its calls one after the other, each when the
response to the one before has come (`Waits`), and anything may happen on the other connections.

* `complete_response`: the required fields of all responses are set, and the values in those that
  the client looks at;
* `sound_calls`: what a call returns is made of the response to its own command, and has its id. No
  call panics, but for `blame`, and a call to get keys returns what has been committed to them.
-/

namespace SysAdmin

open Machine Framing SysAdminController ProtobufTranslator

/-! ## Complete responses -/

/-- What is required of a response is set, and so are the values of the pairs in it. -/
structure Sysadminctl.Response.Complete (r : Sysadminctl.Response) : Prop where
  status : r.status.isSome = true
  value : ∀ kvs, r.payload = some (.get kvs) → ∀ field ∈ kvs, ∃ v, field.value = some ⟨some v⟩

/-- There is a response, and it is complete. -/
def IsComplete (o : ResponseType) : Prop := ∃ r : Sysadminctl.Response, o = some r ∧ r.Complete

section complete

variable {id : UInt32} {status : StatusCode} {c : Callees} {clientId : ClientId}

theorem complete_statusResponse : (statusResponse id status).Complete :=
  ⟨rfl, fun _ h => by cases h⟩

theorem isComplete_statusResponse : IsComplete (some (statusResponse id status)) :=
  ⟨_, rfl, complete_statusResponse⟩

/-- Only pairs with values are listed. -/
theorem exists_value_of_mem_addKvs {items : ConfigPairList} {field : Sysadminctl.MappedField}
    (h : field ∈ addKvs items) : ∃ v, field.value = some ⟨some v⟩ := by
  obtain ⟨item, hitem, rfl⟩ := List.mem_map.1 h
  have hempty : item.value.empty = false := by simpa using (List.mem_filter.1 hitem).2
  simp only [copyConfigValue, hempty]
  cases item.value.value with
  | int32 | string | bool | int32list | stringlist | boollist => exact ⟨_, rfl⟩

theorem exists_value_of_translateFromGet {items : ConfigPairList}
    {kvs : List Sysadminctl.MappedField} (h : (translateFromGet items).payload = some (.get kvs)) :
    ∀ field ∈ kvs, ∃ v, field.value = some ⟨some v⟩ := by
  rw [translateFromGet] at h
  split at h
  · cases h
    exact fun field hfield => absurd hfield List.not_mem_nil
  · cases h
    exact fun field hfield => exists_value_of_mem_addKvs hfield

theorem isComplete_setResponse {conf : ConfigPair} {setStatus : SetStatus} :
    IsComplete (some (setResponse id conf setStatus)) := by
  cases setStatus with
  | success | successNewKey => exact ⟨_, rfl, rfl, fun kvs h => exists_value_of_translateFromGet h⟩
  | typeMismatch | lockedQueue => exact isComplete_statusResponse

theorem isComplete_of_onError {type : Exception → Bool} (e : Exception) (o : ResponseType)
    (h : onError type (statusResponse id status) e = some o) : IsComplete o := by
  rw [onError] at h
  split at h
  · rw [← Option.some.inj h]
    exact isComplete_statusResponse
  · cases h

theorem isComplete_of_onCommitError {response : CommitId → Sysadminctl.Response}
    (hr : ∀ commitId, (response commitId).Complete) (e : Exception) (o : ResponseType)
    (h : onCommitError response e = some o) : IsComplete o := by
  cases e with
  | commitError what commitId =>
    rw [← Option.some.inj h]
    exact ⟨_, rfl, hr commitId⟩
  | externalRunnerError | rollbackError | protobufError | other => cases h

/-- All handlers give complete responses, if there is something to get only for keys with values. -/
theorem Callees.isComplete_handler (c : Callees) (clientId : ClientId) (m : Sysadminctl.Command)
    {payload : Sysadminctl.Payload} (hreset : payload ≠ .reset)
    (hget : ∀ key valueMap, c.get key = .ok valueMap → (getResponse valueMap m.id).Complete) :
    (c.handler clientId m payload).Yields IsComplete := by
  cases payload with
  | set key value =>
    rw [handler, setHandler]
    split
    · exact isComplete_statusResponse
    · split
      · exact isComplete_statusResponse
      · refine Futures.Call.yields_after fun last => ?_
        split
        · exact isComplete_statusResponse
        · exact Futures.Call.yields_after fun _ => isComplete_setResponse
  | get key =>
    rw [handler, getHandler]
    rcases hmap : c.get (.ofString key) with e | valueMap
    · trivial
    · exact ⟨_, rfl, hget _ _ hmap⟩
  | commit config =>
    exact (Futures.Call.yields_thenValue fun _ => ⟨_, rfl, rfl, fun _ h => by cases h⟩).thenError
      (isComplete_of_onCommitError fun _ => ⟨rfl, fun _ h => by cases h⟩)
  | drop => exact Futures.Call.yields_after fun _ => isComplete_statusResponse
  | firehooks =>
    exact Futures.Call.yields_after fun _ =>
      (Futures.Call.yields_thenValue fun _ => isComplete_statusResponse).thenError
        isComplete_of_onError
  | erase key => exact Futures.Call.yields_after fun _ => isComplete_statusResponse
  | rollback commitId =>
    exact (((Futures.Call.yields_thenValue fun _ => isComplete_statusResponse).thenError
      isComplete_of_onError).thenError isComplete_of_onError).thenError isComplete_of_onError
  | reset => exact absurd rfl hreset
  | dump =>
    exact Futures.Call.yields_after fun _ => Futures.Call.yields_after fun _ =>
      ⟨_, rfl, rfl, fun _ h => by cases h⟩
  | trigger hook =>
    exact Futures.Call.yields_after fun _ =>
      (Futures.Call.yields_thenValue fun _ => isComplete_statusResponse).thenError
        isComplete_of_onError
  | blame key =>
    exact Futures.Call.yields_after fun _ => Futures.Call.yields_after fun _ =>
      ⟨_, rfl, rfl, fun _ h => by cases h⟩
  | inflight => exact Futures.Call.yields_after fun _ => ⟨_, rfl, rfl, fun _ h => by cases h⟩

end complete

namespace Daemon

variable {s : Daemon}

/-- The response to a request to get keys is complete: the store has no Empty values. -/
theorem complete_getResponse (h : s.conf.KeysIn ConfigKey.Named ConfigKey.Named) (key : ConfigKey)
    (id : UInt32) : (getResponse (s.conf.get key) id).Complete := by
  refine ⟨?_, fun kvs hkvs => exists_value_of_translateFromGet hkvs⟩
  have hvalue : ∀ p ∈ (s.conf.get key).pairs, p.value.empty = false := fun p hp =>
    MemoryCache.not_empty_of_store ((Configurator.mem_pairs_get
      fun k v hv => (h.stored k v hv).not_wildcard).1 hp).1
  have hlen := length_addKvs hvalue
  rw [getResponse]
  dsimp only
  rw [translateFromGet]
  rcases hpairs : (s.conf.get key).pairs with _ | ⟨p, ps⟩
  · rfl
  · rw [hpairs] at hlen
    simp [Sysadminctl.Response.kvs, hlen]

/-- All responses are complete. -/
theorem complete_response (h : s.conf.KeysIn ConfigKey.Named ConfigKey.Named) {env : Environment}
    {hooks : HookAnswers} {clientId : ClientId} {m : Sysadminctl.Command} {result : HookResult}
    {o : ResponseType} (ho : s.response env hooks clientId m result = .value o) : IsComplete o := by
  have hyields : ∀ payload, m.payload = some payload → payload ≠ .reset →
      (s.callees env hooks result).dispatch clientId m = .value o → IsComplete o := by
    intro payload hm hreset h'
    rw [Callees.dispatch, hm] at h'
    refine (Callees.isComplete_handler _ _ _ hreset fun key valueMap hget => ?_).of_value h'
    rw [← Except.ok.inj hget]
    exact complete_getResponse h key m.id
  rw [response] at ho
  rcases hm : m.payload with _ | payload
  · rw [hm, Callees.dispatch, hm] at ho
    cases ho
  · cases payload with
    | reset =>
      rw [hm] at ho
      refine Futures.Call.Yields.of_value ?_ ho
      rw [resetFuture]
      split
      · exact isComplete_statusResponse
      · exact (Futures.Call.yields_thenValue fun _ => ⟨_, rfl, rfl, fun _ h => by cases h⟩)
          |>.thenError (isComplete_of_onCommitError fun _ => ⟨rfl, fun _ h => by cases h⟩)
    | set | get | commit | drop | firehooks | erase | rollback | dump | trigger | blame
    | inflight =>
      rw [hm] at ho
      exact hyields _ hm (fun h => by cases h) ho

end Daemon

namespace RustClient

/-! ## What calls return -/

/-- The response to `get`. -/
structure GetResponse where
  id : UInt32
  status : StatusCode
  kvs : List Kvs
  deriving DecidableEq

def GetResponse.fromResponse (r : Sysadminctl.Response) : Option GetResponse :=
  ((takeGet r).mapM Kvs.fromMappedField).map fun kvs => ⟨getId r, getStatus r, kvs⟩

/-- The response to `commit`. -/
structure CommitResponse where
  id : UInt32
  status : StatusCode
  commitId : Option UInt32
  deriving DecidableEq

def CommitResponse.fromResponse (r : Sysadminctl.Response) : CommitResponse where
  id := getId r
  status := getStatus r
  commitId :=
    match r.payload with
    | some (.commit commitId) => some commitId
    | some (.get _) | some (.reset _) | some (.dump ..) | some (.blame ..) | some (.inflight _)
    | none => none

/-- The response to `reset`. -/
structure ResetResponse where
  id : UInt32
  status : StatusCode
  commitId : UInt32
  deriving DecidableEq

def ResetResponse.fromResponse (r : Sysadminctl.Response) : ResetResponse where
  id := getId r
  status := getStatus r
  commitId :=
    match r.payload with
    | some (.reset commitId) => commitId.getD 0
    | some (.get _) | some (.commit _) | some (.dump ..) | some (.blame ..) | some (.inflight _)
    | none => 0

/-- The response to `dump`. -/
structure DumpResponse where
  id : UInt32
  status : StatusCode
  templatehooks : List String
  servicehooks : List String
  deriving DecidableEq

def DumpResponse.fromResponse (r : Sysadminctl.Response) : DumpResponse :=
  match r.payload with
  | some (.dump templatehooks servicehooks) =>
    ⟨getId r, getStatus r, templatehooks, servicehooks⟩
  | some (.get _) | some (.commit _) | some (.reset _) | some (.blame ..) | some (.inflight _)
  | none => ⟨getId r, getStatus r, [], []⟩

/-- A response of which only the id and the status matter. -/
structure GenericResponse where
  id : UInt32
  status : StatusCode
  deriving DecidableEq

def GenericResponse.fromResponse (r : Sysadminctl.Response) : GenericResponse :=
  ⟨getId r, getStatus r⟩

/-- What `send_command` returns, by the types of requests. -/
inductive SendResult
  | generic (r : GenericResponse)
  | get (r : GetResponse)
  | commit (r : CommitResponse)
  | reset (r : ResetResponse)
  | dump (r : DumpResponse)
  | blame (r : BlameResponse)
  | inFlight (r : InFlightResponse)
  deriving DecidableEq

/-- The id of a result. -/
def SendResult.id : SendResult → UInt32
  | generic r => r.id
  | get r => r.id
  | commit r => r.id
  | reset r => r.id
  | dump r => r.id
  | blame r => r.id
  | inFlight r => r.id

/-- What a request makes of a response (`into`), or `none` where it panics. -/
def Request.fromResponse (request : Request) (r : Sysadminctl.Response) : Option SendResult :=
  match request with
  | .set _ | .drop | .fireHooks | .eraseKey _ | .rollback _ | .triggerHook _ =>
    some (.generic (.fromResponse r))
  | .get _ => (GetResponse.fromResponse r).map .get
  | .commit _ => some (.commit (.fromResponse r))
  | .reset => some (.reset (.fromResponse r))
  | .dumpHooks => some (.dump (.fromResponse r))
  | .blame _ => (BlameResponse.fromResponse r).map .blame
  | .inFlight => (InFlightResponse.fromResponse r).map .inFlight

/-- A request for the commits to a key. -/
def Request.isBlame : Request → Bool
  | .blame _ => true
  | .set _ | .get _ | .commit _ | .drop | .fireHooks | .eraseKey _ | .rollback _ | .reset
  | .dumpHooks | .triggerHook _ | .inFlight => false

theorem exists_mapM_fromMappedField {kvs : List Sysadminctl.MappedField}
    (h : ∀ field ∈ kvs, ∃ v, field.value = some ⟨some v⟩) :
    ∃ fields, kvs.mapM Kvs.fromMappedField = some fields := by
  induction kvs with
  | nil => exact ⟨[], rfl⟩
  | cons field kvs ih =>
    obtain ⟨fields, hfields⟩ := ih fun f hf => h f (List.mem_cons_of_mem _ hf)
    obtain ⟨v, hv⟩ := h field List.mem_cons_self
    have hfield : ∃ kv, Kvs.fromMappedField field = some kv := by
      rw [Kvs.fromMappedField, hv]
      cases v with
      | int32val | strval | boolval | int32list | boollist | stringlist => exact ⟨_, rfl⟩
    obtain ⟨kv, hkv⟩ := hfield
    exact ⟨kv :: fields, by rw [List.mapM_cons, hkv, hfields]; rfl⟩

/-- A complete response makes no call panic, but for `blame`. -/
theorem exists_fromResponse {request : Request} {r : Sysadminctl.Response} (h : r.Complete)
    (hblame : request.isBlame = false) :
    ∃ result, request.fromResponse r = some result ∧ result.id = getId r := by
  have hget : ∀ field ∈ takeGet r, ∃ v, field.value = some ⟨some v⟩ := by
    rw [takeGet]
    split
    · next kvs hkvs => exact h.value kvs hkvs
    all_goals exact fun field hfield => absurd hfield List.not_mem_nil
  obtain ⟨fields, hfields⟩ := exists_mapM_fromMappedField hget
  cases request with
  | get key =>
    exact ⟨.get ⟨getId r, getStatus r, fields⟩,
      by rw [Request.fromResponse, GetResponse.fromResponse, hfields]; rfl, rfl⟩
  | inFlight =>
    exact ⟨.inFlight ⟨getId r, getStatus r, fields⟩,
      by rw [Request.fromResponse, InFlightResponse.fromResponse, hfields]; rfl, rfl⟩
  | blame => cases hblame
  | dumpHooks =>
    refine ⟨_, rfl, ?_⟩
    rw [DumpResponse.fromResponse]
    split <;> rfl
  | set | drop | fireHooks | eraseKey | rollback | triggerHook | commit | reset =>
    exact ⟨_, rfl, rfl⟩

/-- The pairs of a response to get keys, as the client has them. -/
theorem mapM_fromMappedField_of_readsAs {kvs : List Sysadminctl.MappedField}
    {pairs : ConfigPairList}
    (h : (kvs.map fun field => translateToSet field.key field.value) = pairs.map some) :
    kvs.mapM Kvs.fromMappedField = some (pairs.map Kvs.ofPair) := by
  induction kvs generalizing pairs with
  | nil =>
    obtain rfl : pairs = [] := by simpa using h.symm
    rfl
  | cons field kvs ih =>
    rcases pairs with _ | ⟨p, pairs⟩
    · cases h
    rw [List.map_cons, List.map_cons, List.cons.injEq] at h
    have hfield : Kvs.fromMappedField field = some (Kvs.ofPair p) := by
      obtain ⟨v, hv, rfl⟩ := Option.map_eq_some_iff.1 h.1
      obtain ⟨cv, hcv, hvalue⟩ := Option.bind_eq_some_iff.1 hv
      obtain ⟨x, hx, rfl⟩ := Option.map_eq_some_iff.1 hvalue
      rw [Kvs.fromMappedField, hcv]
      dsimp only
      rw [SysadminValue.fromConfigValue, hx, Kvs.ofPair, ConfigKey.toString_ofString]
      cases x with
      | int32val | strval | boolval | int32list | boollist | stringlist => rfl
    rw [List.mapM_cons, hfield, ih h.2]
    rfl

namespace SysadminClient

variable {R : RustMessages.Runtime} {timeOf : String → Option ℕ}
  {serializeToString : Sysadminctl.Response → List UInt8}

/-! ## Calls over a connection -/

section waits

variable (R) (serializeToString) (parseFromArray : List UInt8 → ℤ → Sysadminctl.Command)
  (surroundings : ℕ → Surroundings) (calls : List Call) (k : ℕ)

/-- The server reads from the connection of the client what its calls have written, of which the
    last one is made when all before it have been answered. -/
def Waits (s : TcpServer) : TcpEvent → Prop
  | .read serial data => serial = k → s.arrivedOn k ++ data.bytes <+:
      (LengthType.uint32 true).memory.frames
        ((calls.take ((TcpServer.deframe true (s.bytesOn k)).1.length + 1)).map (Call.bytes R))
  | .accept _ | .closed _ | .complete .. => True

instance (s : TcpServer) : ∀ e, Decidable (Waits R calls k s e)
  | .read serial _ => inferInstanceAs (Decidable (serial = k → _ <+: _))
  | .accept _ | .closed _ | .complete .. => .isTrue trivial

/-- The server, with a client that waits for the responses to its calls. -/
def step (s : TcpServer) (e : TcpEvent) : Option TcpServer :=
  if Waits R calls k s e then s.step true serializeToString parseFromArray surroundings e else none

end waits

variable {parseFromArray : List UInt8 → ℤ → Sysadminctl.Command} {surroundings : ℕ → Surroundings}
  {calls : List Call} {k : ℕ} {s s' : TcpServer} {t : OneofServer Sysadminctl.Response}

/-- What holds of the server, with the one for whole commands in the place of its bytes. -/
structure Waiting (R : RustMessages.Runtime) (serializeToString : Sysadminctl.Response → List UInt8)
    (parseFromArray : List UInt8 → ℤ → Sysadminctl.Command) (calls : List Call) (k : ℕ)
    (s : TcpServer) (t : OneofServer Sysadminctl.Response) : Prop where
  refines : s.Refines true serializeToString parseFromArray t
  inOrder : t.InOrder k
  arrived : s.arrivedOn k <+: (LengthType.uint32 true).memory.frames (calls.map (Call.bytes R))

theorem waiting_start {d : Daemon} :
    Waiting R serializeToString parseFromArray calls k (.start d) (.start d) where
  refines := TcpServer.refines_start
  inOrder := ⟨List.nil_prefix, Nat.zero_le _⟩
  arrived := List.nil_prefix

/-- So many responses have been written. -/
theorem Waiting.length_deframe
    (h : Waiting R serializeToString parseFromArray calls k s t) :
    (TcpServer.deframe true (s.bytesOn k)).1.length = (t.writtenOn k).length := by
  have hlt : ∀ p ∈ (t.writtenOn k).map fun w => serializeToString w.item,
      p.length < (LengthType.uint32 true).memory.bound := by
    refine List.forall_mem_map.2 fun w hw => ?_
    have hle := h.refines.length_le (List.mem_of_mem_filter hw)
    have huint : UInt32.size = 2 ^ 32 := rfl
    change _ < 2 ^ 32
    omega
  have hall := LengthField.deframe_frames_append hlt []
  rw [List.append_nil, LengthField.deframe_of_incomplete (LengthField.incomplete_nil _),
    List.append_nil] at hall
  rw [h.refines.bytesOn_eq, TcpServer.deframe, hall, List.length_map]

theorem Waiting.step (h : Waiting R serializeToString parseFromArray calls k s t)
    (hparse : ReadsAs R parseFromArray)
    (hlarge : ∀ call ∈ calls, (call.bytes R).length < 2 ^ 31)
    (hsize : ∀ id, (serializeToString (statusResponse id .messageSizeError)).length ≤
      UInt32.size - 1) {e : TcpEvent}
    (hstep : step R serializeToString parseFromArray surroundings calls k s e = some s') :
    Waiting R serializeToString parseFromArray calls k s'
      (run (OneofServer.step (TcpServer.sendResponse serializeToString) surroundings) t
        (s.events true parseFromArray e)) := by
  rw [SysadminClient.step] at hstep
  split at hstep
  swap
  · cases hstep
  next hwaits =>
  obtain ⟨s'', hs'', hrefines⟩ := h.refines.step surroundings hsize e
  obtain rfl : s' = s'' := Option.some.inj (hstep.symm.trans hs'')
  -- The client sends a call when all before it have been answered: one command is open at most.
  have hguarded := h.refines.guarded_events surroundings h.inOrder (e := e) fun data hread => by
    rw [hread] at hwaits
    have hpre : TcpServer.commandsIn true parseFromArray (s.arrivedOn k ++ data.bytes) <+:
        (calls.take ((TcpServer.deframe true (s.bytesOn k)).1.length + 1)).map Call.command :=
      TcpServer.commandsIn_prefix (fun call hcall => hlarge call (List.mem_of_mem_take hcall))
        (fun call hcall => parseFromArray_bytes hparse (hlarge call (List.mem_of_mem_take hcall)))
        (hwaits rfl)
    have hlen := hpre.length_le
    rw [List.length_map, List.length_take, h.length_deframe] at hlen
    omega
  refine ⟨hrefines, h.inOrder.run h.refines.orderly (OneofServer.writesOne_sendReply hsize)
    hguarded, ?_⟩
  obtain heq | ⟨data, rfl, heq⟩ := TcpServer.arrivedOn_step surroundings (k := k) hstep
  · rw [heq]
    exact h.arrived
  · rw [heq]
    refine (hwaits rfl).trans ?_
    rw [List.map_take]
    exact LengthField.frames_take_prefix _ _

/-! ## What a client gets -/

/-- A call returns with the response to its own command for the result of the hooks that has come,
    and does not panic, but for `blame`. A call to get keys returns what a store has answered. -/
structure Returns (commands : List ServedCommand) (completed : List (ℕ × HookResult))
    (a : AtomicStore ConfigKey ConfigValue ℕ) (call : Call) (number : ℕ)
    (r : Sysadminctl.Response) : Prop where
  answers : ∃ c, commands[number]? = some c ∧ c.message = call.command ∧ ∃ result r',
    (number, result) ∈ completed ∧ c.response result = .value (some r') ∧
      (r = r' ∨ r = statusResponse call.client.id .messageSizeError)
  fromResponse : call.request.isBlame = false →
    ∃ result, call.request.fromResponse r = some result ∧ result.id = call.client.id
  get : ∀ key, call.request = .get key → ∃ answer, (number, answer) ∈ a.answers ∧
    (call.request.fromResponse r = some (.get ⟨call.client.id, .messageSizeError, []⟩) ∨
      ∃ pairs : ConfigPairList, (∀ p, p ∈ pairs ↔ answer p.key = some p.value) ∧
        (pairs.map ConfigPair.key).Nodup ∧
          call.request.fromResponse r = some (.get ⟨call.client.id,
            if pairs = [] then .keyNotFound else .success, pairs.map Kvs.ofPair⟩))

variable (R timeOf serializeToString calls k) in
/-- What has been written to the client are the frames of responses, each of which is read, and with
    which its calls return one after the other. All of its commands but the last one at most
    have been answered. -/
structure Answered (s : TcpServer) (a : AtomicStore ConfigKey ConfigValue ℕ)
    (rs : List Sysadminctl.Response) : Prop where
  bytesOn_eq : s.bytesOn k = (LengthType.uint32 true).memory.frames (rs.map serializeToString)
  receive_eq : ∀ r ∈ rs,
    receive R timeOf ((LengthType.uint32 true).memory.frame (serializeToString r)) = some r
  messagesOn_prefix : s.server.messagesOn k <+: calls.map Call.command
  length_le : (s.server.messagesOn k).length ≤ rs.length + 1
  returns : ∀ (i : ℕ) r, rs[i]? = some r → ∃ call number, calls[i]? = some call ∧
    (s.server.numbersOn k)[i]? = some number ∧
      Returns s.server.commands s.server.completed a call number r

/-- What is written for a command is complete. -/
theorem complete_written {size : Sysadminctl.Response → ℕ} {c : ServedCommand}
    {completed : List (ℕ × HookResult)} {w : Written Sysadminctl.Response}
    (hc : ∀ result o, c.response result = .value o → IsComplete o)
    (h : OneofServer.Answers (sendReply (SysAdmin.send size)) completed w c) :
    w.item.Complete := by
  obtain ⟨-, -, result, r, -, hr, hsend⟩ := h
  obtain ⟨r', hr', hcomplete⟩ := hc result _ hr
  obtain rfl : r = r' := Option.some.inj hr'
  obtain heq | heq := OneofServer.eq_of_sendReply hsend
  · rwa [heq]
  · rw [heq]
    exact complete_statusResponse

/-- What a call to get keys makes of the response that is written for it. -/
theorem fromResponse_get {answer : ConfigKey → Option ConfigValue} {key : String}
    {kvs : List Sysadminctl.MappedField} {id : UInt32} (h : ListsAnswer answer kvs) :
    ∃ pairs : ConfigPairList, (∀ p, p ∈ pairs ↔ answer p.key = some p.value) ∧
      (pairs.map ConfigPair.key).Nodup ∧
        (Request.get key).fromResponse (kvsResponse kvs id) = some (.get ⟨id,
          if pairs = [] then .keyNotFound else .success, pairs.map Kvs.ofPair⟩) := by
  obtain ⟨pairs, hpairs, hnodup, hread⟩ := h
  refine ⟨pairs, hpairs, hnodup, ?_⟩
  have hnil : kvs = [] ↔ pairs = [] := by
    rw [← List.map_eq_nil_iff (f := fun field => translateToSet field.key field.value), hread,
      List.map_eq_nil_iff]
  rw [Request.fromResponse, GetResponse.fromResponse]
  change (((kvs.mapM Kvs.fromMappedField).map _).map _) = _
  rw [mapM_fromMappedField_of_readsAs hread]
  simp [kvsResponse, getId, getStatus, hnil]

/-- The response that is written for a call is what it returns with. -/
theorem returns_of_written {size : Sysadminctl.Response → ℕ}
    {a : AtomicStore ConfigKey ConfigValue ℕ} {c : ServedCommand} {call : Call}
    {w : Written Sysadminctl.Response} (hatomic : t.Atomic a)
    (hcommand : t.commands[w.number]? = some c) (hmessage : c.message = call.command)
    (hid : ∀ result o, c.response result = .value o → HasId c.message.id o)
    (hcomplete : w.item.Complete)
    (h : OneofServer.Answers (sendReply (SysAdmin.send size)) t.completed w c) :
    Returns t.commands t.completed a call w.number w.item := by
  obtain ⟨-, hitemId, result, r, hcompleted, hr, hsend⟩ := h
  obtain ⟨r', hr', hrid⟩ := hid result _ hr
  -- The command that is answered is that of the call.
  obtain rfl : r = r' := Option.some.inj hr'
  have hmessageId : c.message.id = call.client.id := by rw [hmessage]; rfl
  rw [hmessageId] at hrid hitemId
  have hitem := OneofServer.eq_of_sendReply hsend
  rw [hrid, Option.getD_some] at hitem
  refine ⟨⟨c, hcommand, hmessage, result, r, hcompleted, hr, hitem⟩, fun hblame => ?_,
    fun key hkey => ?_⟩
  · obtain ⟨returned, hreturned, hreturnedId⟩ := exists_fromResponse hcomplete hblame
    refine ⟨returned, hreturned, ?_⟩
    rw [hreturnedId, getId, hitemId, Option.getD_some]
  · have hpayload : c.message.payload = some (.get key) := by
      rw [hmessage, Call.command, hkey]
      rfl
    obtain ⟨answer, kvs, hmem, hkvs, hresponse⟩ :=
      hatomic.answered w.number c key hcommand hpayload
    rw [hresponse result, Futures.Completion.value.injEq, Option.some.injEq, hmessageId] at hr
    refine ⟨answer, hmem, hitem.symm.imp (fun heq => ?_) fun heq => ?_⟩
    · rw [hkey, heq]
      rfl
    · rw [hkey, heq, ← hr]
      exact fromResponse_get hkvs

theorem complete_commands {ω : Type} {write : Sysadminctl.Response → List ω} {n : ℕ}
    (es : List OneofEvent) :
    ∀ c ∈ (run (OneofServer.step write surroundings) (.start (.onEmpty n)) es).commands,
      ∀ result o, c.response result = .value o → IsComplete o :=
  OneofServer.forall_commands_run (P := fun d => d.conf.KeysIn ConfigKey.Named ConfigKey.Named)
    (fun _ e hd => Daemon.keysIn_request hd e)
    (fun _ _ _ _ hd _ _ ho => Daemon.complete_response hd ho) Daemon.keysIn_onEmpty es

/-- The responses that a client which waits has got are those to its calls, one after the other. -/
theorem Waiting.exists_returns {a : AtomicStore ConfigKey ConfigValue ℕ}
    (h : Waiting R serializeToString parseFromArray calls k s t) (hatomic : t.Atomic a)
    (hcomplete : ∀ c ∈ t.commands, ∀ result o, c.response result = .value o → IsComplete o)
    (hparse : SysadminClient.ReadsAs R parseFromArray)
    (hread : ReadsResponses R timeOf serializeToString)
    (hlarge : ∀ call ∈ calls, (call.bytes R).length < 2 ^ 31) :
    ∃ rs, Answered R timeOf serializeToString calls k s a rs := by
  have hserver := h.refines.server_eq
  have hcommands : s.server.commands = t.commands := by rw [hserver]; rfl
  have hcompleted : s.server.completed = t.completed := by rw [hserver]; rfl
  have hmessages : s.server.messagesOn k = t.messagesOn k := by rw [hserver]; rfl
  have hnumbers : s.server.numbersOn k = t.numbersOn k := by rw [hserver]; rfl
  have hcalls : t.messagesOn k <+: calls.map Call.command := by
    rw [h.refines.messagesOn_eq]
    exact TcpServer.commandsIn_prefix hlarge
      (fun call hcall => parseFromArray_bytes hparse (hlarge call hcall)) h.arrived
  have hwritten : ∀ w ∈ t.writtenOn k, w.item.Complete := by
    intro w hw
    obtain ⟨c, hc, hanswers⟩ := h.refines.orderly.written_get w (List.mem_of_mem_filter hw)
    exact complete_written (hcomplete c (List.mem_of_getElem? hc)) hanswers
  refine ⟨(t.writtenOn k).map Written.item, ?_, List.forall_mem_map.2 fun w hw => ?_,
    hmessages ▸ hcalls, ?_, fun i r hr => ?_⟩
  · rw [h.refines.bytesOn_eq, List.map_map]
    rfl
  · obtain ⟨c, -, -, hid, -⟩ := h.refines.orderly.written_get w (List.mem_of_mem_filter hw)
    have hle := h.refines.length_le (List.mem_of_mem_filter hw)
    have huint : UInt32.size = 2 ^ 32 := rfl
    have hlen : (serializeToString w.item).length < 2 ^ 32 := by omega
    obtain ⟨m, hm, hitem⟩ := hread w.item (by rw [hid]; rfl) (hwritten w hw).status hlen
    rw [← List.append_nil (LengthField.frame _ _)]
    exact receive_frame hlen hm hitem []
  · rw [hmessages, List.length_map, OneofServer.length_messagesOn]
    exact h.inOrder.length_le
  · rw [hcommands, hcompleted, hnumbers]
    rw [List.getElem?_map] at hr
    obtain ⟨w, hw, rfl⟩ := Option.map_eq_some_iff.1 hr
    obtain ⟨hnumber, c, hc, -, hmessage, hanswers⟩ := h.inOrder.answers h.refines.orderly hw
    -- the command is the one of the call with the same index
    have hcall : (calls.map Call.command)[i]? = some c.message := by
      obtain ⟨rest, hrest⟩ := hcalls
      rw [← hrest, List.getElem?_append_left (List.getElem?_eq_some_iff.1 hmessage).1, hmessage]
    rw [List.getElem?_map] at hcall
    obtain ⟨call, hget, hcall⟩ := Option.map_eq_some_iff.1 hcall
    exact ⟨call, w.number, hget, hnumber, returns_of_written hatomic hc hcall.symm
      (h.refines.orderly.hasId c (List.mem_of_getElem? hc))
      (hwritten w (List.mem_of_getElem? hw)) hanswers⟩

/-- In all runs, the bytes that have been written to a client which waits are the frames of as many
    responses as its calls have got, each of which is read, and a call returns with the one to its
    own command, whatever happens on the other connections. The calls to get keys return what a
    store has answered on which the commits of all clients are done at once. -/
theorem sound_calls (surroundings : ℕ → Surroundings) (n k : ℕ) (es : List TcpEvent)
    {s : TcpServer} (hparse : ReadsAs R parseFromArray)
    (hread : ReadsResponses R timeOf serializeToString)
    (hlarge : ∀ call ∈ calls, (call.bytes R).length < 2 ^ 31)
    (hsize : ∀ id, (serializeToString (statusResponse id .messageSizeError)).length ≤
      UInt32.size - 1)
    (h : runPartial (step R serializeToString parseFromArray surroundings calls k)
      (.start (.onEmpty n)) es = some s) :
    let a := run AtomicStore.step (.start fun _ => none)
      (OneofServer.operations (TcpServer.sendResponse serializeToString) surroundings
        (.start (.onEmpty n))
        (trace (step R serializeToString parseFromArray surroundings calls k)
          (TcpServer.events true parseFromArray) (.start (.onEmpty n)) es))
    s.server.daemon.conf.store = a.values ∧ (a.answers.map Prod.fst).Nodup ∧
      ∃ rs, Answered R timeOf serializeToString calls k s a rs := by
  intro a
  have hwaiting := rel_of_runPartial (R := Waiting R serializeToString parseFromArray calls k)
    (fun _ _ _ _ hw => hw.step hparse hlarge hsize) waiting_start h
  have hatomic : OneofServer.Atomic _ a := OneofServer.atomic_start.run _
  refine ⟨?_, hatomic.nodup,
    hwaiting.exists_returns hatomic (complete_commands _) hparse hread hlarge⟩
  rw [hwaiting.refines.server_eq]
  exact hatomic.store_eq

/-- A client gets a key that another one has set and committed. -/
def getCommitted : List TcpEvent :=
  [.accept 5, .accept 6,
    .read 1 ⟨[11, 0, 0, 0, 10, 7, 10, 1, 97, 18, 2, 8, 1, 48, 7], by decide, by decide⟩,
    .read 1 ⟨[6, 0, 0, 0, 26, 2, 8, 3, 48, 8], by decide, by decide⟩,
    .read 0 ⟨[9, 0, 0, 0, 48, 7, 80], by decide, by decide⟩,
    .read 0 ⟨[1, 18, 3, 10, 1, 97], by decide, by decide⟩]

theorem sound_calls_getCommitted :
    ∃ s a rs, runPartial (step .standard
        (RustMessages.serializeByNumber .standard RustMessages.timeText)
        (fun bs _ => (((RustMessages.command .standard).parseFromBytes bs).bind
          RustMessages.Command.read).getD ⟨none, 0, none⟩) (fun _ => .quiet)
          [⟨⟨1, 7⟩, .get "a"⟩] 0) (.start (.onEmpty 3)) getCommitted = some s ∧
      s.server.daemon.conf.store = a.values ∧
        Answered .standard RustMessages.ofTimeText
          (RustMessages.serializeByNumber .standard RustMessages.timeText) [⟨⟨1, 7⟩, .get "a"⟩]
            0 s a rs := by
  obtain ⟨s, hs⟩ := Option.isSome_iff_exists.1 (show (runPartial (step .standard
    (RustMessages.serializeByNumber .standard RustMessages.timeText)
    (fun bs _ => (((RustMessages.command .standard).parseFromBytes bs).bind
      RustMessages.Command.read).getD ⟨none, 0, none⟩) (fun _ => .quiet)
      [⟨⟨1, 7⟩, .get "a"⟩] 0) (.start (.onEmpty 3)) getCommitted).isSome = true by decide +kernel)
  obtain ⟨hstore, -, rs, hrs⟩ := sound_calls (fun _ => .quiet) 3 0 getCommitted
    (fun bs m c hm hc => by rw [hm, Option.bind_some, hc, Option.getD_some])
    (readsResponses_of_writesFields (.refl _) RustMessages.ofTimeText_timeText
      (RustMessages.writesFields_serializeByNumber _ _)) (by decide +kernel)
    RustMessages.length_serializeByNumber_statusResponse hs
  exact ⟨s, _, rs, hs, hstore, hrs⟩

end SysadminClient

end RustClient

end SysAdmin
