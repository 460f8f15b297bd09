import Mathlib.Logic.Function.Basic
import SysAdmin.Foundation.Simulations
import SysAdmin.OneofProtocols
import SysAdmin.ProtobufProtocol

/-!
# The server over streams of bytes

`TcpServer` reads chunks of bytes from its connections. `OnDataReceived` adds them to the buffer of
the connection and calls the virtual `HandleMessage` in its loop, whenever there is a message. What
is written are the frames of the responses.

`exists_run`: in any run the loop ends for each chunk, and the server does what it does for whole
commands (`OneofServer`): for those that the bytes of the connection frame, one after the other
(`deframe`), however these are cut into chunks and interleaved with those of other connections.
-/

namespace SysAdmin

open Machine Framing SysAdminController

namespace ProtobufProtocol

/-! ## The loop with its handler -/

variable {MessageType σ : Type*} (T : LengthType) (parseFromArray : List UInt8 → ℤ → MessageType)
  (handleMessage : MessageType → σ → σ)

/-- Parses and handles the message in the buffer if it is ready. -/
def handleReadyWith (b : FramedBuffer) (s : σ) : FramedBuffer × σ :=
  if b.ready T then (.empty, handleMessage (parseFromArray b.bytes (toInt b.fullSize)) s)
  else (b, s)

/-- The loop of `OnDataReceived` with what `HandleMessage` changes, for so many rounds at most. -/
def receiveLoopWith (data : List UInt8) : ℕ → FramedBuffer × σ → ℕ → Option (FramedBuffer × σ)
  | 0, _, _ => none
  | fuel + 1, (b, s), bytesUsed =>
    if bytesUsed < data.length then
      let (b, used) := b.addData T (data.drop bytesUsed) (T.wrap (data.length - bytesUsed))
      receiveLoopWith data fuel (handleReadyWith T parseFromArray handleMessage b s)
        (T.wrap (bytesUsed + used))
    else some (b, s)

/-- Takes a chunk of data, and handles the messages that it completes. -/
def onDataReceivedWith (b : FramedBuffer) (s : σ) (data : List UInt8) : Option (FramedBuffer × σ) :=
  receiveLoopWith T parseFromArray handleMessage data (data.length + 1) (b, s) 0

variable {T parseFromArray handleMessage}

variable (T parseFromArray handleMessage) in
/-- The messages of the loop are handled one after the other. -/
theorem receiveLoopWith_eq (data : List UInt8) (fuel : ℕ) (p : ProtobufProtocol MessageType)
    (s : σ) (n : ℕ) :
    receiveLoopWith T parseFromArray handleMessage data fuel
        (p.buffer, p.handled.foldl (fun s m => handleMessage m s) s) n =
      (receiveLoop T parseFromArray data fuel p n).map fun p =>
        (p.buffer, p.handled.foldl (fun s m => handleMessage m s) s) := by
  induction fuel generalizing p n with
  | zero => rfl
  | succ fuel ih =>
    rw [receiveLoopWith, receiveLoop]
    split
    · dsimp only
      rw [← ih, handleReadyWith, handleReady]
      split
      · rw [List.foldl_append]
        rfl
      · rfl
    · rfl

variable (parseFromArray handleMessage) in
/-- A chunk completes the messages whose frames end in it. -/
theorem onDataReceivedWith_eq {data r : List UInt8} (hT : data.length < T.bound)
    (hr : T.memory.Incomplete r) (s : σ) :
    onDataReceivedWith T parseFromArray handleMessage (.holding T r) s data =
      some (.holding T (T.memory.deframe (r ++ data)).2,
        ((T.memory.deframe (r ++ data)).1.map fun payload =>
          parseFromArray payload (toInt payload.length)).foldl
            (fun s m => handleMessage m s) s) := by
  have h := receiveLoop_eq (p := ⟨.holding T r, [], []⟩) parseFromArray hT
    (show data.length < data.length + 1 + 0 by omega) (Nat.zero_le _) rfl hr
  have hloop := receiveLoopWith_eq T parseFromArray handleMessage data (data.length + 1)
    ⟨.holding T r, [], []⟩ s 0
  rw [h, List.drop_zero] at hloop
  exact hloop

end ProtobufProtocol

/-! ## The server -/

/-- What the buffer of a read holds: some bytes, and no more than libuv suggests to allocate. -/
structure Chunk where
  bytes : List UInt8
  ne_nil : bytes ≠ []
  length_le : bytes.length ≤ 65536

/-- The server, the buffers of its protocol objects by the serial numbers of their connections, and
    what has been read from which connection. -/
structure TcpServer where
  server : OneofServer (List UInt8)
  buffers : ℕ → FramedBuffer
  arrived : List (ℕ × List UInt8)

/-- What happens to the server: a connection is accepted, a read gives some bytes, or none, or
    fails, and hooks complete. -/
inductive TcpEvent
  | accept (id : ClientId)
  | read (serial : ℕ) (data : Chunk)
  | closed (serial : ℕ)
  | complete (hooks : AwaitedHooks) (result : HookResult)

namespace TcpServer

variable (lowestFirst : Bool) (serializeToString : Sysadminctl.Response → List UInt8)
  (parseFromArray : List UInt8 → ℤ → Sysadminctl.Command) (surroundings : ℕ → Surroundings)

/-- What `Send` writes for a response. -/
def sendFrame (r : Sysadminctl.Response) : Except MessageSizeError (List (List UInt8)) :=
  sendBytes (.uint32 lowestFirst) (serializeToString r)

/-- A server without connections. -/
def start (d : Daemon) : TcpServer := ⟨.start d, fun _ => .empty, []⟩

/-- Hands an event on to the server for whole commands. -/
def onServer (s : TcpServer) (e : OneofEvent) : TcpServer :=
  { s with
    server := s.server.step (sendReply (sendFrame lowestFirst serializeToString)) surroundings e }

/-- Handles one event. -/
def step (s : TcpServer) : TcpEvent → Option TcpServer
  | .accept id => some
    { s.onServer lowestFirst serializeToString surroundings (.connect id) with
      buffers := if id ∈ s.server.connections.map Connection.id then s.buffers
        else Function.update s.buffers s.server.nextSerial .empty }
  | .closed serial =>
    some (s.onServer lowestFirst serializeToString surroundings (.disconnect serial))
  | .complete hooks result =>
    some (s.onServer lowestFirst serializeToString surroundings (.complete hooks result))
  | .read serial data =>
    match s.server.connections.find? fun conn => conn.serial = serial with
    | none => some s
    | some conn =>
      (ProtobufProtocol.onDataReceivedWith (.uint32 lowestFirst) parseFromArray
        (fun m server => server.handleMessage
          (sendReply (sendFrame lowestFirst serializeToString)) surroundings conn m)
        (s.buffers serial) s.server data.bytes).map fun (buffer, server) =>
          { server
            buffers := Function.update s.buffers serial buffer
            arrived := s.arrived ++ [(serial, data.bytes)] }

/-- The bytes that have been read from a connection. -/
def arrivedOn (s : TcpServer) (serial : ℕ) : List UInt8 :=
  (s.arrived.filter fun x => x.1 = serial).flatMap Prod.snd

/-- The bytes that have been written to a connection. -/
def bytesOn (s : TcpServer) (serial : ℕ) : List UInt8 :=
  (s.server.writtenOn serial).flatMap Written.item

/-! ## Bytes and commands -/

/-- The payloads that some bytes frame, and the bytes behind them. -/
abbrev deframe (bytes : List UInt8) : List (List UInt8) × List UInt8 :=
  (LengthType.uint32 lowestFirst).memory.deframe bytes

/-- The commands that some bytes frame. -/
def commandsIn (bytes : List UInt8) : List Sysadminctl.Command :=
  (deframe lowestFirst bytes).1.map fun payload => parseFromArray payload (toInt payload.length)

/-- What happens to the server for whole commands. -/
def events (s : TcpServer) : TcpEvent → List OneofEvent
  | .accept id => [.connect id]
  | .closed serial => [.disconnect serial]
  | .complete hooks result => [.complete hooks result]
  | .read serial data =>
    (commandsIn lowestFirst parseFromArray
      ((deframe lowestFirst (s.arrivedOn serial)).2 ++ data.bytes)).map (.message serial)

/-- What is written for a response of the server for whole commands. -/
def sendResponse (r : Sysadminctl.Response) : List Sysadminctl.Response :=
  sendReply (SysAdmin.send fun r => (serializeToString r).length) r

/-- The bytes of a response that has been written. -/
def frameItems (r : Sysadminctl.Response) : List (List UInt8) :=
  match sendFrame lowestFirst serializeToString r with
  | .ok items => items
  | .error _ => []

/-- The server over streams has written the frames of what the other one has written, which has
    got the commands that the bytes of each connection frame, and its buffers hold the bytes
    behind them. -/
structure Refines (s : TcpServer) (t : OneofServer Sysadminctl.Response) : Prop where
  orderly : t.Orderly (sendResponse serializeToString)
  server_eq : s.server = t.mapWritten (frameItems lowestFirst serializeToString)
  arrived_lt : ∀ x ∈ s.arrived, x.1 < t.nextSerial
  buffers_eq : ∀ k, t.Open k →
    s.buffers k = .holding (.uint32 lowestFirst) (deframe lowestFirst (s.arrivedOn k)).2
  messagesOn_eq : ∀ k, t.messagesOn k = commandsIn lowestFirst parseFromArray (s.arrivedOn k)

variable {lowestFirst serializeToString parseFromArray} {s : TcpServer}
  {t : OneofServer Sysadminctl.Response} {d : Daemon}

theorem bound_uint32 : (LengthType.uint32 lowestFirst).bound = 2 ^ 32 := rfl

variable (lowestFirst) in
theorem sendFrame_of_large {r : Sysadminctl.Response}
    (h : (serializeToString r).length > UInt32.size - 1) :
    sendFrame lowestFirst serializeToString r = .error ⟨"Message too large to transfer"⟩ ∧
      SysAdmin.send (fun r => (serializeToString r).length) r =
        .error "Message too large to transfer" := ⟨if_pos h, if_pos h⟩

variable (lowestFirst) in
theorem sendFrame_of_small {r : Sysadminctl.Response}
    (h : ¬ (serializeToString r).length > UInt32.size - 1) :
    sendFrame lowestFirst serializeToString r =
        .ok (frameItems lowestFirst serializeToString r) ∧
      (frameItems lowestFirst serializeToString r).flatten =
        (LengthType.uint32 lowestFirst).memory.frame (serializeToString r) ∧
      SysAdmin.send (fun r => (serializeToString r).length) r = .ok [r] := by
  have hlt : (serializeToString r).length < (LengthType.uint32 lowestFirst).bound := by
    have hsize : UInt32.size = 2 ^ 32 := rfl
    rw [bound_uint32]
    omega
  have hframe : sendFrame lowestFirst serializeToString r =
      .ok [(LengthType.uint32 lowestFirst).memory.encode (serializeToString r).length,
        serializeToString r] := by
    rw [sendFrame, sendBytes, LengthType.wrap_eq hlt, List.take_length]
    exact if_neg h
  refine ⟨by rw [frameItems, hframe], ?_, if_neg h⟩
  rw [frameItems, hframe]
  simp [LengthField.frame]

/-- The bytes that are written for a response are those of what is sent. -/
theorem sendReply_sendFrame (r : Sysadminctl.Response) :
    sendReply (sendFrame lowestFirst serializeToString) r =
      (sendResponse serializeToString r).flatMap (frameItems lowestFirst serializeToString) := by
  rw [sendResponse, sendReply, sendReply]
  by_cases hr : (serializeToString r).length > UInt32.size - 1
  · obtain ⟨hf, hs⟩ := sendFrame_of_large lowestFirst hr
    rw [hf, hs]
    dsimp only
    by_cases he : (serializeToString (statusResponse (r.id.getD 0) .messageSizeError)).length >
        UInt32.size - 1
    · obtain ⟨hf, hs⟩ := sendFrame_of_large lowestFirst he
      rw [hf, hs]
      rfl
    · obtain ⟨hf, _, hs⟩ := sendFrame_of_small lowestFirst he
      rw [hf, hs]
      exact (List.append_nil _).symm
  · obtain ⟨hf, _, hs⟩ := sendFrame_of_small lowestFirst hr
    rw [hf, hs]
    exact (List.append_nil _).symm

/-! ## What one event does -/

theorem arrivedOn_append {data : List UInt8} {k j : ℕ}
    {buffers : ℕ → FramedBuffer} {server : OneofServer (List UInt8)} :
    ({ server, buffers, arrived := s.arrived ++ [(k, data)] } : TcpServer).arrivedOn j =
      s.arrivedOn j ++ if k = j then data else [] := by
  rw [arrivedOn, List.filter_append, List.flatMap_append, arrivedOn]
  by_cases hk : k = j
  · simp [hk]
  · simp [hk]

/-- Only a read adds to what has been read. -/
theorem arrivedOn_step {s' : TcpServer} {e : TcpEvent} {k : ℕ}
    (h : s.step lowestFirst serializeToString parseFromArray surroundings e = some s') :
    s'.arrivedOn k = s.arrivedOn k ∨
      ∃ data, e = .read k data ∧ s'.arrivedOn k = s.arrivedOn k ++ data.bytes := by
  cases e with
  | accept | closed | complete =>
    rw [step, Option.some.injEq] at h
    rw [← h]
    exact .inl rfl
  | read serial data =>
    rw [step] at h
    split at h
    · rw [← Option.some.inj h]
      exact .inl rfl
    · obtain ⟨⟨buffer, server⟩, -, rfl⟩ := Option.map_eq_some_iff.1 h
      rw [arrivedOn_append]
      by_cases hk : serial = k
      · rw [if_pos hk, hk]
        exact .inr ⟨data, rfl, rfl⟩
      · rw [if_neg hk, List.append_nil]
        exact .inl rfl

theorem deframe_append (bytes data : List UInt8) : (deframe lowestFirst (bytes ++ data)).2 =
    (deframe lowestFirst ((deframe lowestFirst bytes).2 ++ data)).2 := by
  rw [deframe, LengthField.deframe_append LengthType.memory_exact]

theorem commandsIn_append (bytes data : List UInt8) :
    commandsIn lowestFirst parseFromArray (bytes ++ data) =
      commandsIn lowestFirst parseFromArray bytes ++
        commandsIn lowestFirst parseFromArray ((deframe lowestFirst bytes).2 ++ data) := by
  rw [commandsIn, deframe, LengthField.deframe_append LengthType.memory_exact, List.map_append]
  rfl

section

variable {α : Type} {xs : List α} {serialize : α → List UInt8} {command : α → Sysadminctl.Command}
  {bytes : List UInt8}

theorem frames_lt (hlarge : ∀ x ∈ xs, (serialize x).length < 2 ^ 31) :
    ∀ p ∈ xs.map serialize, p.length < (LengthType.uint32 lowestFirst).memory.bound :=
  List.forall_mem_map.2 fun x hx => (hlarge x hx).trans (by
    change 2 ^ 31 < (LengthType.uint32 lowestFirst).bound
    rw [bound_uint32]
    decide)

theorem map_parseFromArray (hlarge : ∀ x ∈ xs, (serialize x).length < 2 ^ 31)
    (hparse : ∀ x ∈ xs, parseFromArray (serialize x) (serialize x).length = command x) :
    ((xs.map serialize).map fun payload => parseFromArray payload (toInt payload.length)) =
      xs.map command := by
  rw [List.map_map]
  refine List.map_congr_left fun x hx => ?_
  rw [Function.comp_apply, toInt_eq (hlarge x hx), hparse x hx]

/-- The bytes of some frames give the commands that these are parsed as. -/
theorem commandsIn_frames (hlarge : ∀ x ∈ xs, (serialize x).length < 2 ^ 31)
    (hparse : ∀ x ∈ xs, parseFromArray (serialize x) (serialize x).length = command x) :
    commandsIn lowestFirst parseFromArray
      ((LengthType.uint32 lowestFirst).memory.frames (xs.map serialize)) = xs.map command := by
  have hall := LengthField.deframe_frames_append
    (L := (LengthType.uint32 lowestFirst).memory) (frames_lt hlarge) []
  rw [List.append_nil, LengthField.deframe_of_incomplete (LengthField.incomplete_nil _),
    List.append_nil] at hall
  rw [commandsIn, deframe, hall, map_parseFromArray hlarge hparse]

/-- The first bytes of some frames give the first commands. -/
theorem commandsIn_prefix (hlarge : ∀ x ∈ xs, (serialize x).length < 2 ^ 31)
    (hparse : ∀ x ∈ xs, parseFromArray (serialize x) (serialize x).length = command x)
    (h : bytes <+: (LengthType.uint32 lowestFirst).memory.frames (xs.map serialize)) :
    commandsIn lowestFirst parseFromArray bytes <+: xs.map command := by
  rw [← map_parseFromArray hlarge hparse]
  exact (LengthField.deframe_prefix (frames_lt hlarge) h).map _

end

theorem Refines.of_onServer (h : s.Refines lowestFirst serializeToString parseFromArray t)
    (hsize : ∀ id, (serializeToString (statusResponse id .messageSizeError)).length ≤
      UInt32.size - 1) (e : OneofEvent) (buffers : ℕ → FramedBuffer)
    (hserial : t.nextSerial ≤ (t.step (sendResponse serializeToString) surroundings e).nextSerial)
    (hbuffers : ∀ k, (t.step (sendResponse serializeToString) surroundings e).Open k →
      buffers k = .holding (.uint32 lowestFirst) (deframe lowestFirst (s.arrivedOn k)).2)
    (he : ∀ k m, e ≠ .message k m) :
    ({ s.onServer lowestFirst serializeToString surroundings e with buffers } : TcpServer).Refines
      lowestFirst serializeToString parseFromArray
        (t.step (sendResponse serializeToString) surroundings e) where
  orderly := h.orderly.step (OneofServer.writesOne_sendReply hsize)
  server_eq := by
    rw [← OneofServer.step_mapWritten sendReply_sendFrame, ← h.server_eq]
    rfl
  arrived_lt x hx := (h.arrived_lt x hx).trans_le hserial
  buffers_eq := hbuffers
  messagesOn_eq k := (OneofServer.messagesOn_step e he).trans (h.messagesOn_eq k)

theorem arrivedOn_of_ge (h : s.Refines lowestFirst serializeToString parseFromArray t) {k : ℕ}
    (hk : t.nextSerial ≤ k) : s.arrivedOn k = [] := by
  have hnil : (s.arrived.filter fun x => x.1 = k) = [] :=
    List.filter_eq_nil_iff.2 fun x hx hxk =>
      absurd (h.arrived_lt x hx) (by rw [of_decide_eq_true hxk]; omega)
  rw [arrivedOn, hnil]
  rfl

theorem Refines.accept (h : s.Refines lowestFirst serializeToString parseFromArray t)
    (hsize : ∀ id, (serializeToString (statusResponse id .messageSizeError)).length ≤
      UInt32.size - 1) (id : ClientId) :
    ∃ s', s.step lowestFirst serializeToString parseFromArray surroundings (.accept id) = some s' ∧
      s'.Refines lowestFirst serializeToString parseFromArray
        (t.step (sendResponse serializeToString) surroundings (.connect id)) := by
  refine ⟨_, rfl, h.of_onServer surroundings hsize (.connect id) _ ?_ (fun k hopen => ?_) nofun⟩
  · rw [OneofServer.step]
    split
    · exact le_rfl
    · exact Nat.le_succ _
  · have hconns : s.server.connections = t.connections := by rw [h.server_eq]; rfl
    have hnext : s.server.nextSerial = t.nextSerial := by rw [h.server_eq]; rfl
    rw [OneofServer.step] at hopen
    rw [hconns, hnext]
    split at hopen
    · next hid =>
      rw [if_pos hid]
      exact h.buffers_eq k hopen
    · next hid =>
      rw [if_neg hid]
      rw [OneofServer.Open, List.map_append, List.mem_append] at hopen
      rcases hopen with hopen | hk
      · obtain ⟨conn, hconn, rfl⟩ := List.mem_map.1 hopen
        rw [Function.update_of_ne (h.orderly.serial_lt conn hconn).ne]
        exact h.buffers_eq _ hopen
      · -- nothing has been read from the new connection
        obtain rfl : k = t.nextSerial := List.mem_singleton.1 hk
        rw [Function.update_self, arrivedOn_of_ge h le_rfl, deframe,
          LengthField.deframe_of_incomplete (LengthField.incomplete_nil _)]
        exact FramedBuffer.holding_nil.symm

theorem Refines.read (h : s.Refines lowestFirst serializeToString parseFromArray t)
    (hsize : ∀ id, (serializeToString (statusResponse id .messageSizeError)).length ≤
      UInt32.size - 1) (serial : ℕ) (data : Chunk) :
    ∃ s', s.step lowestFirst serializeToString parseFromArray surroundings (.read serial data) =
        some s' ∧
      s'.Refines lowestFirst serializeToString parseFromArray
        (run (OneofServer.step (sendResponse serializeToString) surroundings) t
          (s.events lowestFirst parseFromArray (.read serial data))) := by
  have hconns : s.server.connections = t.connections := by rw [h.server_eq]; rfl
  rw [step, events, hconns]
  rcases hconn : t.connections.find? (fun conn => conn.serial = serial) with _ | conn
  · rw [hconn, OneofServer.run_messages_of_none hconn]
    exact ⟨s, rfl, h⟩
  · have hmem : conn ∈ t.connections := List.mem_of_find?_eq_some hconn
    obtain rfl : conn.serial = serial := by simpa using List.find?_some hconn
    have hopen : t.Open conn.serial := List.mem_map_of_mem hmem
    have hdata : data.bytes.length < (LengthType.uint32 lowestFirst).bound :=
      data.length_le.trans_lt (by rw [bound_uint32]; decide)
    -- The buffer holds the rest of the stream, and hands over what is complete with the chunk.
    have hreceived := ProtobufProtocol.onDataReceivedWith_eq parseFromArray
      (fun m server => OneofServer.handleMessage
        (sendReply (sendFrame lowestFirst serializeToString)) surroundings server conn m) hdata
      (LengthField.incomplete_deframe LengthType.memory_exact (s.arrivedOn conn.serial)) s.server
    rw [h.server_eq, OneofServer.foldl_handleMessage_mapWritten sendReply_sendFrame] at hreceived
    rw [hconn, OneofServer.run_messages hconn]
    dsimp only
    rw [h.buffers_eq _ hopen, h.server_eq, hreceived]
    refine ⟨_, rfl, ?_⟩
    obtain ⟨hc, hn, -⟩ := OneofServer.foldl_handleMessage_frame (k := 0)
      (sendResponse serializeToString) surroundings t conn (commandsIn lowestFirst parseFromArray
        ((deframe lowestFirst (s.arrivedOn conn.serial)).2 ++ data.bytes))
    refine ⟨?_, rfl, ?_, fun k hk => ?_, fun k => ?_⟩
    · rw [← OneofServer.run_messages hconn]
      exact h.orderly.run (OneofServer.writesOne_sendReply hsize) _
    · rw [hn]
      refine List.forall_mem_append.2 ⟨h.arrived_lt, List.forall_mem_singleton.2 ?_⟩
      exact h.orderly.serial_lt conn hmem
    · rw [OneofServer.Open, hc] at hk
      rw [arrivedOn_append]
      dsimp only
      by_cases hk' : conn.serial = k
      · rw [if_pos hk', ← hk', Function.update_self]
        exact congrArg (FramedBuffer.holding _) (deframe_append _ _).symm
      · rw [if_neg hk', List.append_nil, Function.update_of_ne (Ne.symm hk')]
        exact h.buffers_eq k hk
    · rw [arrivedOn_append, (OneofServer.foldl_handleMessage_frame _ _ _ _ _).2.2, h.messagesOn_eq]
      by_cases hk' : conn.serial = k
      · rw [if_pos hk', if_pos hk', ← hk']
        exact (commandsIn_append _ _).symm
      · rw [if_neg hk', if_neg hk', List.append_nil, List.append_nil]

theorem Refines.step (h : s.Refines lowestFirst serializeToString parseFromArray t)
    (hsize : ∀ id, (serializeToString (statusResponse id .messageSizeError)).length ≤
      UInt32.size - 1) (e : TcpEvent) :
    ∃ s', s.step lowestFirst serializeToString parseFromArray surroundings e = some s' ∧
      s'.Refines lowestFirst serializeToString parseFromArray
        (run (OneofServer.step (sendResponse serializeToString) surroundings) t
          (s.events lowestFirst parseFromArray e)) := by
  cases e with
  | accept id => exact h.accept surroundings hsize id
  | read serial data => exact h.read surroundings hsize serial data
  | closed serial =>
    have hsub : (t.connections.filter fun conn => conn.serial ≠ serial).Sublist t.connections :=
      List.filter_sublist
    exact ⟨_, rfl, h.of_onServer surroundings hsize (.disconnect serial) s.buffers le_rfl
      (fun k hopen => h.buffers_eq k ((hsub.map _).subset hopen)) nofun⟩
  | complete hooks result =>
    exact ⟨_, rfl, h.of_onServer surroundings hsize (.complete hooks result) s.buffers le_rfl
      h.buffers_eq nofun⟩

theorem refines_start :
    (start d).Refines lowestFirst serializeToString parseFromArray (.start d) where
  orderly := OneofServer.orderly_start
  server_eq := rfl
  arrived_lt _ h := absurd h List.not_mem_nil
  buffers_eq _ h := absurd h List.not_mem_nil
  messagesOn_eq k := by
    have hnil : deframe lowestFirst [] = ([], []) :=
      LengthField.deframe_of_incomplete (LengthField.incomplete_nil _)
    change [] = commandsIn lowestFirst parseFromArray []
    rw [commandsIn, hnil]
    rfl

/-- The responses that have been written are small enough to be sent. -/
theorem Refines.length_le (h : s.Refines lowestFirst serializeToString parseFromArray t)
    {w : Written Sysadminctl.Response} (hw : w ∈ t.written) :
    (serializeToString w.item).length ≤ UInt32.size - 1 := by
  obtain ⟨c, -, -, -, result, r, -, -, hr⟩ := h.orderly.written_get w hw
  have hmem : w.item ∈ sendReply (SysAdmin.send fun r => (serializeToString r).length) r := by
    rw [← sendResponse, hr]
    exact List.mem_singleton_self _
  have hsend := OneofServer.send_of_mem hmem
  refine Nat.not_lt.1 fun hlarge => ?_
  rw [SysAdmin.send, if_pos hlarge] at hsend
  cases hsend

/-- What has been written to a connection are the frames of its responses. -/
theorem Refines.bytesOn_eq (h : s.Refines lowestFirst serializeToString parseFromArray t) (k : ℕ) :
    s.bytesOn k = (LengthType.uint32 lowestFirst).memory.frames
      ((t.writtenOn k).map fun w => serializeToString w.item) := by
  have hframe : ∀ w ∈ t.writtenOn k, (frameItems lowestFirst serializeToString w.item).flatten =
      (LengthType.uint32 lowestFirst).memory.frame (serializeToString w.item) := fun w hw =>
    (sendFrame_of_small lowestFirst (h.length_le (List.mem_of_mem_filter hw)).not_gt).2.1
  have hwritten : s.server.writtenOn k =
      OneofServer.pieces (frameItems lowestFirst serializeToString) (t.writtenOn k) := by
    rw [h.server_eq]
    exact OneofServer.filter_pieces
  rw [bytesOn, hwritten, OneofServer.pieces, List.flatMap_assoc, LengthField.frames,
    List.flatMap_map]
  refine List.flatMap_congr fun w hw => ?_
  rw [← hframe w hw, List.flatMap_map]
  exact List.flatMap_id

/-- A command that comes over a connection comes behind the responses to all before it, if no more
    commands come than have been answered, and one. -/
theorem Refines.guarded_events (h : s.Refines lowestFirst serializeToString parseFromArray t)
    {k : ℕ} (hinOrder : t.InOrder k) {e : TcpEvent} (hle : ∀ data, e = .read k data →
      (commandsIn lowestFirst parseFromArray (s.arrivedOn k ++ data.bytes)).length ≤
        (t.writtenOn k).length + 1) :
    Guarded (OneofServer.step (sendResponse serializeToString) surroundings)
      (OneofServer.Sequential k) t (s.events lowestFirst parseFromArray e) := by
  cases e with
  | accept | closed | complete => exact ⟨trivial, trivial⟩
  | read serial data =>
    rw [events]
    by_cases hk : serial = k
    · subst hk
      have hlen := hle data rfl
      have hwritten := hinOrder.isPrefix.length_le
      rw [commandsIn_append, List.length_append, ← h.messagesOn_eq,
        OneofServer.length_messagesOn] at hlen
      rw [List.length_map] at hwritten
      generalize commandsIn lowestFirst parseFromArray
        ((deframe lowestFirst (s.arrivedOn serial)).2 ++ data.bytes) = ms at hlen ⊢
      -- At most one command is complete with the chunk.
      rcases ms with _ | ⟨m, _ | ⟨m', ms⟩⟩
      · trivial
      · refine ⟨fun _ _ => ?_, trivial⟩
        rw [List.length_singleton] at hlen
        omega
      · rw [List.length_cons, List.length_cons] at hlen
        omega
    · exact OneofServer.guarded_messages_of_ne hk _

variable (lowestFirst serializeToString parseFromArray) in
/-- The server with its buffers is never stuck, and refines the one for whole commands. -/
theorem exists_refines (d : Daemon) (es : List TcpEvent)
    (hsize : ∀ id, (serializeToString (statusResponse id .messageSizeError)).length ≤
      UInt32.size - 1) :
    ∃ s, runPartial (step lowestFirst serializeToString parseFromArray surroundings) (start d)
        es = some s ∧
      s.Refines lowestFirst serializeToString parseFromArray
        (run (OneofServer.step (sendResponse serializeToString) surroundings) (.start d)
          (trace (step lowestFirst serializeToString parseFromArray surroundings)
            (events lowestFirst parseFromArray) (start d) es)) := by
  have hstep := fun s t e (h : Refines lowestFirst serializeToString parseFromArray s t) =>
    h.step surroundings hsize e
  exact exists_run_of_simulation hstep refines_start es

variable (lowestFirst serializeToString parseFromArray) in
/-- However the bytes of the connections are cut into chunks and interleaved, the loop ends for each
    of them. The commands that have come over a connection are those that its bytes frame, in their
    order, and what has been written to it are the frames of responses. Each of these answers
    a command of this connection, with its id, and no other response answers the same one. A
    command that has come over a connection which is still there has been answered, or it waits
    for hooks, or its handler has failed. -/
theorem exists_run (d : Daemon) (es : List TcpEvent)
    (hsize : ∀ id, (serializeToString (statusResponse id .messageSizeError)).length ≤
      UInt32.size - 1) :
    ∃ s t, runPartial (step lowestFirst serializeToString parseFromArray surroundings) (start d)
        es = some s ∧
      t = run (OneofServer.step (sendResponse serializeToString) surroundings) (.start d)
        (trace (step lowestFirst serializeToString parseFromArray surroundings)
          (events lowestFirst parseFromArray) (start d) es) ∧
      s.server = t.mapWritten (frameItems lowestFirst serializeToString) ∧
      t.Orderly (sendResponse serializeToString) ∧
      ∀ k, t.messagesOn k = commandsIn lowestFirst parseFromArray (s.arrivedOn k) ∧
        s.bytesOn k = (LengthType.uint32 lowestFirst).memory.frames
          ((t.writtenOn k).map fun w => serializeToString w.item) := by
  obtain ⟨s, hs, h⟩ :=
    exists_refines lowestFirst serializeToString parseFromArray surroundings d es hsize
  exact ⟨s, _, hs, rfl, h.server_eq, h.orderly, fun k => ⟨h.messagesOn_eq k, h.bytesOn_eq k⟩⟩

/-- A command comes in two chunks, and another client connects meanwhile. -/
def dropInChunks : List TcpEvent :=
  [.accept 5, .read 0 ⟨[4, 0, 0, 0, 0x22], by decide, by decide⟩, .accept 6,
    .read 0 ⟨[0, 0x30, 7], by decide, by decide⟩]

theorem exists_run_drop :
    ∃ (s : TcpServer) (t : OneofServer Sysadminctl.Response),
      runPartial (step true (fun _ => [0x30, 7, 0x38, 0]) (fun _ _ => ⟨some .drop, 7, none⟩)
        fun _ => .quiet) (start (.onEmpty 3)) dropInChunks = some s ∧
      s.server = t.mapWritten (frameItems true fun _ => [0x30, 7, 0x38, 0]) ∧
      t.messagesOn 0 = commandsIn true (fun _ _ => ⟨some .drop, 7, none⟩) (s.arrivedOn 0) := by
  have hsize : ∀ id, ((fun _ => [0x30, 7, 0x38, 0] : Sysadminctl.Response → List UInt8)
      (statusResponse id .messageSizeError)).length ≤ UInt32.size - 1 := fun _ => by
    change 4 ≤ UInt32.size - 1
    decide
  obtain ⟨s, t, hs, -, hserver, -, hk⟩ := exists_run true (fun _ => [0x30, 7, 0x38, 0])
    (fun _ _ => ⟨some .drop, 7, none⟩)
    (fun _ => .quiet) (.onEmpty 3) dropInChunks hsize
  exact ⟨s, t, hs, hserver, (hk 0).1⟩

end TcpServer

end SysAdmin
