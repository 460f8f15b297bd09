import SysAdmin.RustMessages
import SysAdmin.RustValues
import SysAdmin.TcpServer

/-!
# Requests of the Rust client

The client makes a message of a request, with the ids that it has for all of them, and writes its
size and its bytes. It panics if the message is not initialized, or if the size that has been
computed is not the number of bytes.

* `exists_send_request`: it never panics, and the message is that of the request;
* `messagesOn_calls`: a server that reads the bytes of some requests gets their commands, one after
  the other. What its protobuf library reads is a parameter.
-/

namespace SysAdmin

open Framing

/-! ## Messages as the daemon reads them -/

namespace RustMessages

/-- What a payload says, if its required fields are set. -/
def CommandPayload.read : CommandPayload → Option Sysadminctl.Payload
  | .set v => v.key.map fun key => .set key v.value
  | .get v => v.map .get
  | .commit v => some (.commit v)
  | .drop _ => some .drop
  | .firehooks _ => some .firehooks
  | .erase v => v.map .erase
  | .rollback v => v.map .rollback
  | .reset _ => some .reset
  | .dump _ => some .dump
  | .trigger v => v.map .trigger
  | .blame v => v.map .blame
  | .inflight _ => some .inflight

/-- What a command says, if its required fields are set. -/
def Command.read (m : Command) : Option Sysadminctl.Command := do
  let id ← m.id
  match m.payload with
  | none => return ⟨none, id, m.xid⟩
  | some payload => return ⟨some (← payload.read), id, m.xid⟩

end RustMessages

namespace RustClient

/-! ## Requests -/

/-- The requests that the client has a type for. -/
inductive Request
  | set (v : Set)
  | get (key : String)
  | commit (config : CommitConfig)
  | drop
  | fireHooks
  | eraseKey (key : String)
  | rollback (id : UInt32)
  | reset
  | dumpHooks
  | triggerHook (hook : String)
  | blame (key : String)
  | inFlight
  deriving DecidableEq

/-- The message of a request (`into_buf`), as a payload (`set_payload`). -/
def Request.intoBuf : Request → RustMessages.CommandPayload
  | .set v => .set ⟨some v.key, some v.value.toConfigValue⟩
  | .get key => .get (some key)
  | .commit config => .commit (some config)
  | .drop => .drop ()
  | .fireHooks => .firehooks ()
  | .eraseKey key => .erase (some key)
  | .rollback id => .rollback (some id)
  | .reset => .reset ()
  | .dumpHooks => .dump ()
  | .triggerHook hook => .trigger (some hook)
  | .blame key => .blame (some key)
  | .inFlight => .inflight ()

/-- What a request is about. -/
def Request.payload : Request → Sysadminctl.Payload
  | .set v => v.intoBuf
  | .get key => .get key
  | .commit config => .commit (some config)
  | .drop => .drop
  | .fireHooks => .firehooks
  | .eraseKey key => .erase key
  | .rollback id => .rollback id
  | .reset => .reset
  | .dumpHooks => .dump
  | .triggerHook hook => .trigger hook
  | .blame key => .blame key
  | .inFlight => .inflight

/-- The client, with the ids of its commands. -/
structure SysadminClient where
  xid : UInt32
  id : UInt32

namespace SysadminClient

/-- A command without a payload. -/
def makeCommand (client : SysadminClient) : RustMessages.Command :=
  ⟨some client.id, some client.xid, none⟩

/-- The command of a request. -/
def request (client : SysadminClient) (r : Request) : RustMessages.Command :=
  { client.makeCommand with payload := some r.intoBuf }

/-- What `send` writes to the stream, or `none` where it panics or fails before. -/
def send (R : RustMessages.Runtime) (command : RustMessages.Command) : Option (List UInt8) :=
  if (RustMessages.command R).isInitialized command then
    let size := (RustMessages.command R).computeSize command
    ((RustMessages.command R).writeToBytes command).bind fun bytes =>
      if size = .ofNat bytes.length then
        some ((LengthType.uint32 true).memory.encode size.toNat ++ bytes)
      else none
  else none

variable {R : RustMessages.Runtime} (client : SysadminClient) (r : Request)

theorem isInitialized_request :
    (RustMessages.command R).isInitialized (client.request r) = true := by
  cases r with
  | set v =>
    change (((RustMessages.configValue R).isInitialized v.value.toConfigValue && true && true) &&
      true && true) = true
    rw [RustMessages.isInitialized_configValue]
    rfl
  | get | commit | drop | fireHooks | eraseKey | rollback | reset | dumpHooks | triggerHook
  | blame | inFlight => rfl

theorem read_request :
    (client.request r).read = some ⟨some r.payload, client.id, some client.xid⟩ := by
  cases r <;> rfl

/-- The assertions of `send` hold of all messages that are initialized. -/
theorem send_of_isInitialized {command : RustMessages.Command}
    (h : (RustMessages.command R).isInitialized command = true) :
    ∃ bytes, (RustMessages.command R).writeToBytes command = some bytes ∧
      send R command =
        some ((LengthType.uint32 true).memory.encode (bytes.length % 2 ^ 32) ++ bytes) := by
  have hwrite : (RustMessages.command R).writeToBytes command =
      some ((RustMessages.command R).writeToWithCachedSizes command) := if_pos h
  refine ⟨_, hwrite, ?_⟩
  rw [send, if_pos h, hwrite, Option.bind_some,
    RustMessages.Message.computeSize_of_writeToBytes hwrite, if_pos rfl, UInt32.toNat_ofNat']

/-- Each request is written, whatever is in it. Unless it takes 4 GiB, it is written as a frame,
    from which the generated code reads the message of the request. -/
theorem exists_send_request (R : RustMessages.Runtime) (client : SysadminClient) (r : Request) :
    ∃ bytes, send R (client.request r) =
        some ((LengthType.uint32 true).memory.encode (bytes.length % 2 ^ 32) ++ bytes) ∧
      (bytes.length < 2 ^ 32 →
        send R (client.request r) = some ((LengthType.uint32 true).memory.frame bytes) ∧
        (RustMessages.command R).parseFromBytes bytes = some (client.request r) ∧
        (client.request r).read = some ⟨some r.payload, client.id, some client.xid⟩) := by
  obtain ⟨bytes, hwrite, hsend⟩ := send_of_isInitialized (isInitialized_request client r)
  refine ⟨bytes, hsend, fun hlen => ⟨?_, ?_, read_request client r⟩⟩
  · rw [hsend, Nat.mod_eq_of_lt hlen]
    rfl
  · exact RustMessages.Message.parseFromBytes_of_writeToBytes hwrite hlen

/-! ## Requests over a connection -/

/-- A request, with the ids that the client has then. -/
structure Call where
  client : SysadminClient
  request : Request

namespace Call

variable (R) in
/-- The bytes of the message. -/
def bytes (call : Call) : List UInt8 :=
  (RustMessages.command R).writeToWithCachedSizes (call.client.request call.request)

/-- The command as the daemon is to get it. -/
def command (call : Call) : Sysadminctl.Command :=
  ⟨some call.request.payload, call.client.id, some call.client.xid⟩

end Call

variable (R) in
/-- The protobuf library of the server reads what the generated code of the client reads. -/
def ReadsAs (parseFromArray : List UInt8 → ℤ → Sysadminctl.Command) : Prop :=
  ∀ bs m c, (RustMessages.command R).parseFromBytes bs = some m → m.read = some c →
    parseFromArray bs bs.length = c

variable {parseFromArray : List UInt8 → ℤ → Sysadminctl.Command} {calls : List Call}

/-- The calls write the frames of their messages, unless they are too large. -/
theorem mapM_send (hlarge : ∀ call ∈ calls, (call.bytes R).length < 2 ^ 31) :
    ∃ sent, (calls.mapM fun call => send R (call.client.request call.request)) = some sent ∧
      sent.flatten = (LengthType.uint32 true).memory.frames (calls.map (Call.bytes R)) := by
  induction calls with
  | nil => exact ⟨[], rfl, rfl⟩
  | cons call calls ih =>
    obtain ⟨sent, hsent, hflat⟩ := ih fun c hc => hlarge c (List.mem_cons_of_mem _ hc)
    obtain ⟨bytes, hwrite, hsend⟩ :=
      send_of_isInitialized (isInitialized_request (R := R) call.client call.request)
    have hbytes : bytes = call.bytes R :=
      (Option.some.inj ((if_pos (isInitialized_request call.client call.request)).symm.trans
        hwrite)).symm
    have hlt : bytes.length < 2 ^ 32 := by
      have := hlarge call List.mem_cons_self
      rw [← hbytes] at this
      omega
    rw [Nat.mod_eq_of_lt hlt] at hsend
    refine ⟨(LengthType.uint32 true).memory.frame bytes :: sent, ?_, ?_⟩
    · simp only [List.mapM_cons, hsend, hsent]
      rfl
    · rw [List.flatten_cons, hflat, List.map_cons, LengthField.frames_cons, hbytes]

/-- The server reads the command of each message. -/
theorem parseFromArray_bytes (hparse : ReadsAs R parseFromArray) {call : Call}
    (hlarge : (call.bytes R).length < 2 ^ 31) :
    parseFromArray (call.bytes R) (call.bytes R).length = call.command := by
  refine hparse _ _ _ ?_ (read_request call.client call.request)
  refine RustMessages.Message.parseFromBytes_of_writeToBytes ?_ (by omega)
  exact if_pos (isInitialized_request call.client call.request)

/-- The commands that the server gets from what some calls have written are those of the calls,
    one after the other, however the bytes are cut into chunks and interleaved with those of other
    connections. -/
theorem messagesOn_calls {serializeToString : Sysadminctl.Response → List UInt8}
    (surroundings : ℕ → Surroundings) (d : Daemon) (k : ℕ) (hparse : ReadsAs R parseFromArray)
    (hlarge : ∀ call ∈ calls, (call.bytes R).length < 2 ^ 31)
    (hsize : ∀ id, (serializeToString
      (SysAdminController.statusResponse id .messageSizeError)).length ≤ UInt32.size - 1) :
    ∃ sent, (calls.mapM fun call => send R (call.client.request call.request)) = some sent ∧
      ∀ es, ∃ s,
        Machine.runPartial (TcpServer.step true serializeToString parseFromArray surroundings)
          (.start d) es = some s ∧
        (s.arrivedOn k <+: sent.flatten → s.server.messagesOn k <+: calls.map Call.command) ∧
        (s.arrivedOn k = sent.flatten → s.server.messagesOn k = calls.map Call.command) := by
  obtain ⟨sent, hsent, hflat⟩ := mapM_send hlarge
  refine ⟨sent, hsent, fun es => ?_⟩
  obtain ⟨s, hs, hrefines⟩ :=
    TcpServer.exists_refines true serializeToString parseFromArray surroundings d es hsize
  have hcommand := fun call hcall => parseFromArray_bytes hparse (hlarge call hcall)
  have hmessages : s.server.messagesOn k =
      TcpServer.commandsIn true parseFromArray (s.arrivedOn k) := by
    rw [← hrefines.messagesOn_eq k, hrefines.server_eq]
    rfl
  refine ⟨s, hs, fun hpre => ?_, fun heq => ?_⟩
  · rw [hmessages]
    exact TcpServer.commandsIn_prefix hlarge hcommand (hflat ▸ hpre)
  · rw [hmessages, heq, hflat]
    exact TcpServer.commandsIn_frames hlarge hcommand

/-- The client drops what is staged, twice. -/
theorem messagesOn_calls_drop :
    ∃ sent, ([⟨⟨1, 7⟩, .drop⟩, ⟨⟨1, 8⟩, .drop⟩].mapM fun (call : Call) =>
        send .standard (call.client.request call.request)) = some sent ∧
      ∀ es, ∃ s,
        Machine.runPartial (TcpServer.step true (fun _ => [0x30, 7, 0x38, 0])
          (fun bs _ => (((RustMessages.command .standard).parseFromBytes bs).bind
            RustMessages.Command.read).getD ⟨none, 0, none⟩) fun _ => .quiet)
          (.start (.onEmpty 3)) es = some s ∧
        (s.arrivedOn 0 <+: sent.flatten → s.server.messagesOn 0 <+:
          [⟨some .drop, 7, some 1⟩, ⟨some .drop, 8, some 1⟩]) ∧
        (s.arrivedOn 0 = sent.flatten → s.server.messagesOn 0 =
          [⟨some .drop, 7, some 1⟩, ⟨some .drop, 8, some 1⟩]) :=
  messagesOn_calls _ _ _
    (fun bs m c hm hc => by rw [hm, Option.bind_some, hc, Option.getD_some])
    (by decide +kernel) fun _ => by decide

end SysadminClient

end RustClient

end SysAdmin
