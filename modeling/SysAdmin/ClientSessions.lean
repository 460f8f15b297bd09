import SysAdmin.ClientReceive
import SysAdmin.TcpServer

/-!
# Sessions of the Python client

A client, its connection and the server, as one system. The client makes one call after the other:
it writes the frame of a message, and reads the response in pieces, as they arrive. The server may
read the bytes in other pieces, and anything may happen on its other connections meanwhile.

A call may raise an exception, and the client may go on with another call on the same connection,
which then reads what is left of the response before.

* `sound_session`: the first exception is never that of the assertion that a response has the id of
  its message, and as long as there is none, what a call returns is what the handler of this very
  command has answered;
* `exists_run_assertion`: behind a call that has raised an exception, the assertion may fail.
-/

namespace SysAdmin

open Machine Framing

namespace SysAdminClient

/-! ## The client -/

/-- Where the client is: between two calls, before the length of the response to a message, or with
    so many bytes of it left and the others read. -/
inductive Phase
  | idle
  | length (message : Sysadminctl.Command)
  | body (message : Sysadminctl.Command) (bytesLeft : ℕ) (outData : List UInt8)
  deriving DecidableEq

/-- How many bytes the client asks for. -/
def Phase.asked : Phase → ℕ
  | idle => 0
  | length _ => 4
  | body _ bytesLeft _ => min bytesLeft 4096

/-- What the client does next: it goes on reading, returns a response, or raises an exception, which
    may be that of the assertion on the ids. -/
inductive Progress
  | reads (phase : Phase)
  | returns (response : Sysadminctl.Response)
  | raises (assertion : Bool)

section

variable (lowestFirst : Bool) (fromString : List UInt8 → Option Sysadminctl.Response)

/-- The end of a call, with all bytes of the response. -/
def finish (message : Sysadminctl.Command) (data : List UInt8) : Progress :=
  match fromString data with
  | none => .raises false
  | some response =>
    if response.id.getD 0 = message.id then .returns response else .raises true

/-- The loop of `full_recv`, with what it has read. -/
def continueBody (message : Sysadminctl.Command) (bytesLeft : ℕ) (outData : List UInt8) :
    Progress :=
  if bytesLeft > 0 then .reads (.body message bytesLeft outData)
  else finish fromString message outData

/-- What the client does with the bytes that it gets. -/
def Phase.onData (data : List UInt8) : Phase → Progress
  | idle => .reads idle
  | length message =>
    match unpack lowestFirst data with
    | none => .raises false
    | some recvlen => continueBody fromString message recvlen []
  | body message bytesLeft outData =>
    continueBody fromString message (bytesLeft - data.length) (outData ++ data)

end

/-! ## The system -/

/-- The server, and a client on one of its connections: where it is, what it has written, how many
    bytes it has read, its calls, what they have returned, and which exceptions they have raised. -/
structure Session where
  tcp : TcpServer
  phase : Phase
  sent : List UInt8
  received : ℕ
  calls : List Sysadminctl.Command
  returned : List Sysadminctl.Response
  raised : List Bool

/-- What happens: something at the server, a call, which may raise an exception when so many bytes
    have been written, some bytes that the client gets, or an exception instead. -/
inductive SessionEvent
  | server (e : TcpEvent)
  | call (m : Sysadminctl.Command)
  | callFails (m : Sysadminctl.Command) (n : ℕ)
  | recv (n : ℕ)
  | recvFails

/-- The message of a call. -/
def SessionEvent.message? : SessionEvent → Option Sysadminctl.Command
  | .call m | .callFails m _ => some m
  | .server _ | .recv _ | .recvFails => none

namespace Session

variable (lowestFirst : Bool) (serializeResponse : Sysadminctl.Response → List UInt8)
  (parseFromArray : List UInt8 → ℤ → Sysadminctl.Command) (surroundings : ℕ → Surroundings)
  (serializeToString : Sysadminctl.Command → List UInt8)
  (fromString : List UInt8 → Option Sysadminctl.Response) (k : ℕ)

/-- The server starts, and the client has not done anything. -/
def start (d : Daemon) : Session := ⟨.start d, .idle, [], 0, [], [], []⟩

/-- Goes on. Behind an exception, the client may make another call. -/
def next (s : Session) : Progress → Session
  | .reads phase => { s with phase }
  | .returns response => { s with phase := .idle, returned := s.returned ++ [response] }
  | .raises assertion => { s with phase := .idle, raised := s.raised ++ [assertion] }

/-- The server reads from the connection of the client what the client has written. -/
def Delivers (s : Session) : TcpEvent → Prop
  | .read serial data => serial = k → s.tcp.arrivedOn k ++ data.bytes <+: s.sent
  | .accept _ | .closed _ | .complete .. => True

instance (s : Session) : ∀ e, Decidable (s.Delivers k e)
  | .read serial _ => inferInstanceAs (Decidable (serial = k → _ <+: _))
  | .accept _ | .closed _ | .complete .. => .isTrue trivial

/-- Does one step, if it can be done. -/
def step (s : Session) : SessionEvent → Option Session
  | .server e =>
    if s.Delivers k e then
      (s.tcp.step lowestFirst serializeResponse parseFromArray surroundings e).map
        fun tcp => { s with tcp }
    else none
  | .call m =>
    if s.phase = .idle then
      match written lowestFirst serializeToString m with
      | none => some (s.next (.raises false))
      | some data =>
        some { s with phase := .length m, sent := s.sent ++ data, calls := s.calls ++ [m] }
    else none
  | .callFails m n =>
    if s.phase = .idle then
      match written lowestFirst serializeToString m with
      | none => some (s.next (.raises false))
      | some data =>
        some ({ s with sent := s.sent ++ data.take n, calls := s.calls ++ [m] }.next
          (.raises false))
    else none
  | .recv n =>
    if 0 < n ∧ n ≤ s.phase.asked ∧ s.received + n ≤ (s.tcp.bytesOn k).length then
      let data := ((s.tcp.bytesOn k).drop s.received).take n
      some ({ s with received := s.received + n }.next (s.phase.onData lowestFirst fromString data))
    else none
  | .recvFails => if s.phase.asked = 0 then none else some (s.next (.raises false))

/-! ## What holds of a session -/

/-- The length of the first responses, with theirs before them. -/
def readBytes (t : OneofServer Sysadminctl.Response) (i : ℕ) : ℕ :=
  ((LengthType.uint32 lowestFirst).memory.frames
    (((t.writtenOn k).map fun w => serializeResponse w.item).take i)).length

/-- All that has been written are the frames of the calls. -/
def SentAll (s : Session) : Prop :=
  s.sent = (LengthType.uint32 lowestFirst).memory.frames (s.calls.map serializeToString)

/-- The client is where it is in the bytes that the server writes: behind the responses to the
    calls that have returned, or in the one to the next call. -/
def Reading (s : Session) (t : OneofServer Sysadminctl.Response) : Prop :=
  match s.phase with
  | .idle => s.SentAll lowestFirst serializeToString ∧ s.calls.length = s.returned.length ∧
    s.received = readBytes lowestFirst serializeResponse k t s.returned.length
  | .length m => s.SentAll lowestFirst serializeToString ∧ s.calls[s.returned.length]? = some m ∧
    s.received = readBytes lowestFirst serializeResponse k t s.returned.length
  | .body m bytesLeft outData =>
    s.SentAll lowestFirst serializeToString ∧ s.calls[s.returned.length]? = some m ∧
    ∃ w rest, (t.writtenOn k)[s.returned.length]? = some w ∧
      outData ++ rest = serializeResponse w.item ∧ rest.length = bytesLeft ∧
      s.received = readBytes lowestFirst serializeResponse k t s.returned.length + 4 +
        outData.length

/-- A message that the server reads as itself. -/
def Legible (m : Sysadminctl.Command) : Prop :=
  (serializeToString m).length < 2 ^ 31 ∧
    parseFromArray (serializeToString m) (serializeToString m).length = m

/-- What holds of a session without exceptions, with the server for whole commands in the place of
    the other one. -/
structure Valid (s : Session) (t : OneofServer Sysadminctl.Response) : Prop where
  refines : s.tcp.Refines lowestFirst serializeResponse parseFromArray t
  inOrder : t.InOrder k
  arrived : s.tcp.arrivedOn k <+: s.sent
  sent : s.sent <+:
    (LengthType.uint32 lowestFirst).memory.frames (s.calls.map serializeToString)
  legible : ∀ m ∈ s.calls, Legible parseFromArray serializeToString m
  returned : s.returned <+: (t.writtenOn k).map Written.item
  calls_le : s.calls.length ≤ s.returned.length + 1
  reading : s.Reading lowestFirst serializeResponse serializeToString k t

/-- No call has raised an exception, or the first exception is not that of the assertion. -/
def Sound (s : Session) : Prop :=
  (s.raised = [] ∧
    ∃ t, s.Valid lowestFirst serializeResponse parseFromArray serializeToString k t) ∨
  s.raised.head? = some false

variable {lowestFirst serializeResponse parseFromArray surroundings serializeToString fromString k}
  {s s' : Session} {t : OneofServer Sysadminctl.Response} {d : Daemon} {m : Sysadminctl.Command}

theorem valid_start : (start d).Valid lowestFirst serializeResponse parseFromArray
    serializeToString k (.start d) where
  refines := TcpServer.refines_start
  inOrder := ⟨List.nil_prefix, Nat.zero_le _⟩
  arrived := List.nil_prefix
  sent := List.nil_prefix
  legible _ h := absurd h List.not_mem_nil
  returned := List.nil_prefix
  calls_le := Nat.zero_le _
  reading := ⟨rfl, rfl, rfl⟩

variable (lowestFirst serializeResponse) in
theorem readBytes_append {t' : OneofServer Sysadminctl.Response} {i : ℕ}
    {new : List (Written Sysadminctl.Response)} (h : t'.writtenOn k = t.writtenOn k ++ new)
    (hi : i ≤ (t.writtenOn k).length) :
    readBytes lowestFirst serializeResponse k t' i =
      readBytes lowestFirst serializeResponse k t i := by
  rw [readBytes, h, List.map_append, List.take_append_of_le_length (by rwa [List.length_map]),
    readBytes]

section server

variable (h : s.Valid lowestFirst serializeResponse parseFromArray serializeToString k t)

include h

theorem Valid.returned_le : s.returned.length ≤ (t.writtenOn k).length := by
  have := h.returned.length_le
  rwa [List.length_map] at this

/-- The commands that bytes of the client frame are those of its first calls. -/
theorem Valid.commandsIn_prefix {bytes : List UInt8} (hbytes : bytes <+: s.sent) :
    TcpServer.commandsIn lowestFirst parseFromArray bytes <+: s.calls := by
  have hpre := TcpServer.commandsIn_prefix (fun m hm => (h.legible m hm).1)
    (fun m hm => (h.legible m hm).2) (hbytes.trans h.sent)
  rwa [List.map_id' s.calls] at hpre

/-- The server gets a command of the client only when it has answered all before it. -/
theorem Valid.guarded_events {e : TcpEvent} (he : s.Delivers k e) :
    Guarded (OneofServer.step (TcpServer.sendResponse serializeResponse) surroundings)
      (OneofServer.Sequential k) t (s.tcp.events lowestFirst parseFromArray e) := by
  refine h.refines.guarded_events surroundings h.inOrder fun data hread => ?_
  rw [hread] at he
  -- at most one call has not returned
  have hle := (h.commandsIn_prefix (he rfl)).length_le
  exact hle.trans (h.calls_le.trans (Nat.succ_le_succ h.returned_le))

/-- Whatever happens at the server, the client stays where it is in the bytes. -/
theorem Valid.server {e : TcpEvent} {tcp : TcpServer} (he : s.Delivers k e)
    (hstep : s.tcp.step lowestFirst serializeResponse parseFromArray surroundings e = some tcp)
    (hsize : ∀ id, (serializeResponse
      (SysAdminController.statusResponse id .messageSizeError)).length ≤ UInt32.size - 1) :
    ({ s with tcp } : Session).Valid lowestFirst serializeResponse parseFromArray
      serializeToString k
      (run (OneofServer.step (TcpServer.sendResponse serializeResponse) surroundings) t
        (s.tcp.events lowestFirst parseFromArray e)) := by
  obtain ⟨tcp', htcp, href⟩ := h.refines.step surroundings hsize e
  obtain rfl : tcp = tcp' := Option.some.inj (hstep.symm.trans htcp)
  -- What the server writes comes behind what the client has read or is reading.
  obtain ⟨new, hnew⟩ := OneofServer.exists_written_run
    (TcpServer.sendResponse serializeResponse) surroundings t k
    (s.tcp.events lowestFirst parseFromArray e)
  have hread := readBytes_append lowestFirst serializeResponse hnew h.returned_le
  refine
    { refines := href
      inOrder := h.inOrder.run h.refines.orderly (OneofServer.writesOne_sendReply hsize)
        (h.guarded_events he)
      arrived := ?_
      sent := h.sent
      legible := h.legible
      returned := ?_
      calls_le := h.calls_le
      reading := ?_ }
  · obtain heq | ⟨data, rfl, heq⟩ := TcpServer.arrivedOn_step surroundings (k := k) hstep
    · rw [heq]
      exact h.arrived
    · rw [heq]
      exact he rfl
  · rw [hnew, List.map_append]
    exact h.returned.trans (List.prefix_append _ _)
  · have hreading := h.reading
    revert hreading
    rw [Reading, Reading]
    dsimp only
    cases s.phase with
    | idle | length =>
      rw [hread]
      exact id
    | body m bytesLeft outData =>
      rw [hread]
      refine And.imp_right (And.imp_right ?_)
      rintro ⟨w, rest, hw, hrest⟩
      refine ⟨w, rest, ?_, hrest⟩
      rw [hnew, List.getElem?_append_left (List.getElem?_eq_some_iff.1 hw).1, hw]

end server

section client

theorem written_eq (hlarge : (serializeToString m).length < 2 ^ 31) :
    written lowestFirst serializeToString m =
      some ((LengthType.uint32 lowestFirst).memory.frame (serializeToString m)) := by
  have hlt : (serializeToString m).length < (LengthType.uint32 lowestFirst).bound := by
    rw [TcpServer.bound_uint32]
    omega
  rw [written, pack, if_pos hlt]
  rfl

variable (h : s.Valid lowestFirst serializeResponse parseFromArray serializeToString k t)

include h

theorem Valid.call (hphase : s.phase = .idle) (hm : Legible parseFromArray serializeToString m) :
    ({ s with
      phase := .length m
      sent := s.sent ++ (LengthType.uint32 lowestFirst).memory.frame (serializeToString m)
      calls := s.calls ++ [m] } : Session).Valid lowestFirst serializeResponse parseFromArray
        serializeToString k t := by
  have hreading := h.reading
  rw [Reading, hphase] at hreading
  obtain ⟨hsent, hlen, hreceived⟩ := hreading
  have hall : s.sent ++ (LengthType.uint32 lowestFirst).memory.frame (serializeToString m) =
      (LengthType.uint32 lowestFirst).memory.frames ((s.calls ++ [m]).map serializeToString) := by
    rw [hsent, List.map_append, LengthField.frames_append, List.map_singleton,
      LengthField.frames_cons, LengthField.frames_nil, List.append_nil]
  refine
    { refines := h.refines
      inOrder := h.inOrder
      arrived := h.arrived.trans (List.prefix_append _ _)
      sent := ?_
      legible := List.forall_mem_append.2 ⟨h.legible, List.forall_mem_singleton.2 hm⟩
      returned := h.returned
      calls_le := ?_
      reading := ⟨hall, ?_, hreceived⟩ }
  · exact hall ▸ List.prefix_rfl
  · simp [hlen]
  · simp [← hlen]

end client

section receive

variable (h : s.Valid lowestFirst serializeResponse parseFromArray serializeToString k t)
  {w : Written Sysadminctl.Response}

theorem readBytes_succ {i : ℕ} (hw : (t.writtenOn k)[i]? = some w) :
    readBytes lowestFirst serializeResponse k t (i + 1) =
      readBytes lowestFirst serializeResponse k t i + (4 + (serializeResponse w.item).length) := by
  have hget : ((t.writtenOn k).map fun w => serializeResponse w.item)[i]? =
      some (serializeResponse w.item) := by
    rw [List.getElem?_map, hw]
    rfl
  rw [readBytes, List.take_add_one, hget, LengthField.frames_append, List.length_append,
    Option.toList_some, LengthField.frames_cons, LengthField.frames_nil, List.append_nil,
    LengthField.length_frame]
  rfl

include h

/-- The bytes behind those of the first responses. -/
theorem Valid.drop_bytesOn (i : ℕ) :
    (s.tcp.bytesOn k).drop (readBytes lowestFirst serializeResponse k t i) =
      (LengthType.uint32 lowestFirst).memory.frames
        (((t.writtenOn k).map fun w => serializeResponse w.item).drop i) := by
  rw [h.refines.bytesOn_eq k, readBytes, LengthField.drop_frames]

/-- The bytes of the response to the next call, and others behind them. -/
theorem Valid.exists_drop_bytesOn {i : ℕ} (hw : (t.writtenOn k)[i]? = some w) :
    ∃ u, (s.tcp.bytesOn k).drop (readBytes lowestFirst serializeResponse k t i) =
      (LengthType.uint32 lowestFirst).memory.encode (serializeResponse w.item).length ++
        (serializeResponse w.item ++ u) := by
  obtain ⟨hlt, rfl⟩ := List.getElem?_eq_some_iff.1 hw
  have hlt' : i < ((t.writtenOn k).map fun w => serializeResponse w.item).length := by
    rwa [List.length_map]
  refine ⟨(LengthType.uint32 lowestFirst).memory.frames
    (((t.writtenOn k).map fun w => serializeResponse w.item).drop (i + 1)), ?_⟩
  rw [h.drop_bytesOn, List.drop_eq_getElem_cons hlt', List.getElem_map, LengthField.frames_cons,
    LengthField.frame, List.append_assoc]

/-- The next response answers the command of the next call, with its id. -/
theorem Valid.answers {i : ℕ} (hw : (t.writtenOn k)[i]? = some w) :
    (t.numbersOn k)[i]? = some w.number ∧ ∃ c, t.commands[w.number]? = some c ∧ c.serial = k ∧
      s.calls[i]? = some c.message ∧
      OneofServer.Answers (TcpServer.sendResponse serializeResponse) t.completed w c := by
  obtain ⟨hn, c, hc, hk, hm, hans⟩ := h.inOrder.answers h.refines.orderly hw
  refine ⟨hn, c, hc, hk, ?_, hans⟩
  have hpre := h.commandsIn_prefix h.arrived
  rw [← h.refines.messagesOn_eq] at hpre
  obtain ⟨u, hu⟩ := hpre
  rw [← hu, List.getElem?_append_left (List.getElem?_eq_some_iff.1 hm).1, hm]

/-- The client goes on with the bytes of a response, and returns it with the last of them. -/
theorem Valid.continueBody (hnone : s.raised = [])
    (hresponse : ∀ r r', fromString (serializeResponse r) = some r' → r' = r)
    (hsent : s.SentAll lowestFirst serializeToString)
    (hcall : s.calls[s.returned.length]? = some m)
    (hw : (t.writtenOn k)[s.returned.length]? = some w) {outData rest : List UInt8}
    (hrest : outData ++ rest = serializeResponse w.item) {received : ℕ}
    (hreceived : received =
      readBytes lowestFirst serializeResponse k t s.returned.length + 4 + outData.length) :
    (({ s with received } : Session).next
      (SysAdminClient.continueBody fromString m rest.length outData)).Sound lowestFirst
        serializeResponse parseFromArray serializeToString k := by
  rcases rest with _ | ⟨b, rest⟩
  · -- the response is complete, and has the id of the message
    obtain ⟨-, c, -, -, hc, -, hid, -⟩ := h.answers hw
    obtain rfl : m = c.message := Option.some.inj (hcall.symm.trans hc)
    rw [List.append_nil] at hrest
    rw [SysAdminClient.continueBody, if_neg (by simp), hrest, finish]
    rcases hparsed : fromString (serializeResponse w.item) with _ | response
    · exact .inr (by rw [next, hnone]; rfl)
    obtain rfl := hresponse _ _ hparsed
    dsimp only
    rw [hid, Option.getD_some, if_pos rfl, next]
    have hlt := (List.getElem?_eq_some_iff.1 hcall).1
    have hle := h.calls_le
    refine .inl ⟨hnone, t,
      { h with
        returned := ?_
        calls_le := ?_
        reading := ⟨hsent, ?_, ?_⟩ }⟩
    · -- The responses returned are a prefix of those written, and this is the next one.
      obtain ⟨u, hu⟩ := h.returned
      have hget : ((t.writtenOn k).map Written.item)[s.returned.length]? = some w.item := by
        rw [List.getElem?_map, hw]
        rfl
      rw [← hu, List.getElem?_append_right le_rfl, Nat.sub_self] at hget
      obtain ⟨u, rfl⟩ := List.head?_eq_some_iff.1 (List.head?_eq_getElem?.trans hget)
      rw [← hu]
      exact ⟨u, by simp⟩
    · simp only [List.length_append, List.length_singleton]
      omega
    · simp only [List.length_append, List.length_singleton]
      omega
    · simp only [List.length_append, List.length_singleton]
      rw [readBytes_succ hw, hreceived, hrest]
      omega
  · rw [SysAdminClient.continueBody, if_pos (by simp), next]
    exact .inl ⟨hnone, t,
      { h with reading := ⟨hsent, hcall, w, b :: rest, hw, hrest, rfl, hreceived⟩ }⟩

/-- With bytes to read, there is a response to the next call. -/
theorem Valid.exists_written (hreceived : s.received =
      readBytes lowestFirst serializeResponse k t s.returned.length)
    (hlt : s.received < (s.tcp.bytesOn k).length) :
    ∃ w, (t.writtenOn k)[s.returned.length]? = some w := by
  by_contra hnone
  have hle : (t.writtenOn k).length ≤ s.returned.length := by
    refine Nat.not_lt.1 fun hlt => hnone ⟨_, List.getElem?_eq_getElem hlt⟩
  have hnil : ((t.writtenOn k).map fun w => serializeResponse w.item).drop s.returned.length = [] :=
    List.drop_eq_nil_of_le (by rwa [List.length_map])
  have hdrop := h.drop_bytesOn s.returned.length
  rw [hnil, ← hreceived, LengthField.frames_nil, List.drop_eq_nil_iff] at hdrop
  omega

theorem Valid.recv (hnone : s.raised = [])
    (hresponse : ∀ r r', fromString (serializeResponse r) = some r' → r' = r) {n : ℕ}
    (hpos : 0 < n) (hasked : n ≤ s.phase.asked)
    (hlen : s.received + n ≤ (s.tcp.bytesOn k).length) :
    (({ s with received := s.received + n } : Session).next (s.phase.onData lowestFirst fromString
      (((s.tcp.bytesOn k).drop s.received).take n))).Sound lowestFirst serializeResponse
        parseFromArray serializeToString k := by
  have hreading := h.reading
  rw [Reading] at hreading
  rcases hphase : s.phase with _ | m | ⟨m, bytesLeft, outData⟩
  · rw [hphase] at hasked
    exact absurd hasked (Nat.not_le.2 hpos)
  · rw [hphase] at hasked hreading
    obtain ⟨hsent, hcall, hreceived⟩ := hreading
    obtain ⟨w, hw⟩ := h.exists_written hreceived (by omega)
    obtain ⟨u, hu⟩ := h.exists_drop_bytesOn hw
    have hencode : ((LengthType.uint32 lowestFirst).memory.encode
        (serializeResponse w.item).length).length = 4 := LengthType.length_encode
    have hasked : n ≤ 4 := hasked
    rw [← hreceived] at hu
    rw [hu, List.take_append_of_le_length (by omega)]
    by_cases hn : n = 4
    · -- the first call has got the whole length
      have hbound : (serializeResponse w.item).length < (LengthType.uint32 lowestFirst).bound := by
        have hle := h.refines.length_le (List.mem_of_mem_filter (List.mem_of_getElem? hw))
        have huint : UInt32.size = 2 ^ 32 := rfl
        rw [TcpServer.bound_uint32]
        omega
      have hdata : Phase.onData lowestFirst fromString
          (((LengthType.uint32 lowestFirst).memory.encode
            (serializeResponse w.item).length).take n) (.length m) =
          SysAdminClient.continueBody fromString m (serializeResponse w.item).length [] := by
        rw [List.take_of_length_le (by omega), Phase.onData, unpack, if_pos (by omega),
          LengthField.decode_encode _ _ hbound]
      rw [hdata]
      exact h.continueBody hnone hresponse hsent hcall hw (List.nil_append _)
        (by rw [List.length_nil]; omega)
    · -- Less than a length cannot be unpacked.
      have hdata : Phase.onData lowestFirst fromString
          (((LengthType.uint32 lowestFirst).memory.encode
            (serializeResponse w.item).length).take n) (.length m) = .raises false := by
        rw [Phase.onData, unpack, if_neg (by rw [List.length_take]; omega)]
      rw [hdata]
      exact .inr (by rw [next, hnone]; rfl)
  · rw [hphase] at hasked hreading
    obtain ⟨hsent, hcall, w, rest, hw, hrest, hleft, hreceived⟩ := hreading
    -- The bytes are the next ones of the body.
    obtain ⟨u, hu⟩ := h.exists_drop_bytesOn hw
    have hle : n ≤ rest.length := by
      have : n ≤ min bytesLeft 4096 := hasked
      omega
    have hencode : ((LengthType.uint32 lowestFirst).memory.encode
        (serializeResponse w.item).length).length = 4 := LengthType.length_encode
    have hdrop : (s.tcp.bytesOn k).drop s.received = rest ++ u := by
      rw [hreceived, Nat.add_assoc, ← List.drop_drop, hu, ← List.drop_drop,
        List.drop_left' hencode, ← hrest, List.append_assoc, List.drop_left]
    have hlength : bytesLeft - (rest.take n).length = (rest.drop n).length := by
      rw [List.length_take, List.length_drop]
      omega
    rw [hdrop, List.take_append_of_le_length hle, Phase.onData, hlength]
    refine h.continueBody hnone hresponse hsent hcall hw ?_ ?_
    · rw [List.append_assoc, List.take_append_drop, hrest]
    · rw [List.length_append, List.length_take]
      omega

end receive

/-- An exception stays the first one. -/
theorem head?_raised_step (hraised : s.raised.head? = some false) {e : SessionEvent}
    (hstep : s.step lowestFirst serializeResponse parseFromArray surroundings serializeToString
      fromString k e = some s') : s'.raised.head? = some false := by
  have happend : ∀ progress, (s.next progress).raised.head? = some false := fun progress => by
    cases progress with
    | reads | returns => exact hraised
    | raises assertion => rw [next, List.head?_append, hraised, Option.some_or]
  cases e with
  | server e =>
    rw [Session.step] at hstep
    split at hstep
    · obtain ⟨tcp, -, rfl⟩ := Option.map_eq_some_iff.1 hstep
      exact hraised
    · cases hstep
  | call m =>
    rw [Session.step] at hstep
    split at hstep
    · split at hstep
      · rw [← Option.some.inj hstep]
        exact happend (.raises false)
      · rw [← Option.some.inj hstep]
        exact hraised
    · cases hstep
  | callFails m n =>
    rw [Session.step] at hstep
    split at hstep
    · split at hstep
      · rw [← Option.some.inj hstep]
        exact happend (.raises false)
      · rw [← Option.some.inj hstep]
        exact happend (.raises false)
    · cases hstep
  | recv n =>
    rw [Session.step] at hstep
    split at hstep
    · rw [← Option.some.inj hstep]
      generalize s.phase.onData _ _ _ = progress
      cases progress with
      | reads | returns => exact hraised
      | raises assertion => exact happend (.raises assertion)
    · cases hstep
  | recvFails =>
    rw [Session.step] at hstep
    split at hstep
    · cases hstep
    · rw [← Option.some.inj hstep]
      exact happend (.raises false)

/-- A step keeps what holds of a session. -/
theorem Sound.step (h : s.Sound lowestFirst serializeResponse parseFromArray serializeToString k)
    (hsize : ∀ id, (serializeResponse
      (SysAdminController.statusResponse id .messageSizeError)).length ≤ UInt32.size - 1)
    (hresponse : ∀ r r', fromString (serializeResponse r) = some r' → r' = r) {e : SessionEvent}
    (hm : ∀ m, e.message? = some m → Legible parseFromArray serializeToString m)
    (hstep : s.step lowestFirst serializeResponse parseFromArray surroundings serializeToString
      fromString k e = some s') :
    s'.Sound lowestFirst serializeResponse parseFromArray serializeToString k := by
  obtain ⟨hnone, t, h⟩ | hraised := h
  · cases e with
    | server e =>
      rw [Session.step] at hstep
      split at hstep
      · next he =>
        obtain ⟨tcp, htcp, rfl⟩ := Option.map_eq_some_iff.1 hstep
        exact .inl ⟨hnone, _, h.server he htcp hsize⟩
      · cases hstep
    | call m =>
      rw [Session.step] at hstep
      split at hstep
      · next hphase =>
        rw [written_eq (hm m rfl).1] at hstep
        rw [← Option.some.inj hstep]
        exact .inl ⟨hnone, t, h.call hphase (hm m rfl)⟩
      · cases hstep
    | callFails m n =>
      rw [Session.step] at hstep
      split at hstep
      · rw [written_eq (hm m rfl).1] at hstep
        rw [← Option.some.inj hstep]
        exact .inr (by rw [next, hnone]; rfl)
      · cases hstep
    | recv n =>
      rw [Session.step] at hstep
      split at hstep
      · next hn =>
        rw [← Option.some.inj hstep]
        exact h.recv hnone hresponse hn.1 hn.2.1 hn.2.2
      · cases hstep
    | recvFails =>
      rw [Session.step] at hstep
      split at hstep
      · cases hstep
      · rw [← Option.some.inj hstep]
        exact .inr (by rw [next, hnone]; rfl)
  · exact .inr (head?_raised_step hraised hstep)

/-- Whatever happens on the connections and however the bytes are cut, the assertion on the ids does
    not fail before there has been another exception. As long as there is none, what a call returns
    is what the handler of its command has answered for the result of its hooks, or the error in its
    place: that of the command which has come over the connection as its message, with its id. -/
theorem sound_session
    (hsize : ∀ id, (serializeResponse
      (SysAdminController.statusResponse id .messageSizeError)).length ≤ UInt32.size - 1)
    (hresponse : ∀ r r', fromString (serializeResponse r) = some r' → r' = r)
    {es : List SessionEvent}
    (hm : ∀ e ∈ es, ∀ m, e.message? = some m → Legible parseFromArray serializeToString m)
    (h : runPartial (step lowestFirst serializeResponse parseFromArray surroundings
      serializeToString fromString k) (start d) es = some s) :
    s.raised.head? ≠ some true ∧
      (s.raised = [] → ∀ (i : ℕ) r, s.returned[i]? = some r → ∃ n c, s.calls[i]? = some c.message ∧
        r.id = some c.message.id ∧ (s.tcp.server.numbersOn k)[i]? = some n ∧
        s.tcp.server.commands[n]? = some c ∧ c.serial = k ∧
        ∃ result o, (n, result) ∈ s.tcp.server.completed ∧ c.response result = .value (some o) ∧
          TcpServer.sendResponse serializeResponse o = [r]) := by
  have hsound : s.Sound lowestFirst serializeResponse parseFromArray serializeToString k :=
    runPartial_invariant (I := fun s : Session => s.Sound lowestFirst serializeResponse
      parseFromArray serializeToString k)
      (fun s e he s' hs hstep => hs.step hsize hresponse (hm e he) hstep)
      (.inl ⟨rfl, .start d, valid_start⟩) h
  obtain ⟨hnone, t, ht⟩ | hraised := hsound
  · refine ⟨by simp [hnone], fun _ i r hr => ?_⟩
    obtain ⟨u, hu⟩ := ht.returned
    have hget : ((t.writtenOn k).map Written.item)[i]? = some r := by
      rw [← hu, List.getElem?_append_left (List.getElem?_eq_some_iff.1 hr).1, hr]
    rw [List.getElem?_map] at hget
    obtain ⟨w, hw, rfl⟩ := Option.map_eq_some_iff.1 hget
    obtain ⟨hn, c, hc, hk, hcall, -, hid, result, o, hcompleted, ho, hsend⟩ := ht.answers hw
    rw [ht.refines.server_eq]
    exact ⟨w.number, c, hcall, hid, hn, hc, hk, result, o, hcompleted, ho, hsend⟩
  · refine ⟨by simp [hraised], fun hnone => ?_⟩
    rw [hnone] at hraised
    cases hraised

/-- A command to drop what is staged, and the response to it. -/
def dropMessage (id : UInt32) : Sysadminctl.Command := ⟨some .drop, id, none⟩

def dropResponse : Sysadminctl.Response := SysAdminController.statusResponse 7 .success

/-- The bytes of the commands with small ids, and what is read from them. -/
def dropBytes (m : Sysadminctl.Command) : List UInt8 := [0x22, 0, 0x30, m.id.toUInt8]

def readDrop (bytes : List UInt8) : Sysadminctl.Command :=
  dropMessage ((bytes[3]?).getD 0).toUInt32

/-- The bytes of a response, for the one to the command with the id 7. -/
def dropResponseBytes (r : Sysadminctl.Response) : List UInt8 :=
  if r = dropResponse then [0x30, 7, 0x38, 0] else []

/-- The session of a client that drops what is staged. -/
def runDrop (es : List SessionEvent) : Option Session :=
  runPartial (step true dropResponseBytes (fun bytes _ => readDrop bytes) (fun _ => .quiet)
    dropBytes (fun bs => if bs = [0x30, 7, 0x38, 0] then some dropResponse else none) 0)
    (start (.onEmpty 3)) es

/-- The command comes in two chunks, and the message of the response is read in two pieces. Another
    client connects meanwhile. -/
def dropEvents : List SessionEvent :=
  [.server (.accept 5), .call (dropMessage 7),
    .server (.read 0 ⟨[4, 0, 0, 0, 0x22, 0], by decide, by decide⟩), .server (.accept 6),
    .server (.read 0 ⟨[0x30, 7], by decide, by decide⟩), .recv 4, .recv 1, .recv 3]

theorem sound_session_drop : ∃ s, runDrop dropEvents = some s ∧ s.returned = [dropResponse] ∧
    s.raised.head? ≠ some true ∧ ∃ n c, s.calls[0]? = some c.message ∧
      (s.tcp.server.numbersOn 0)[0]? = some n ∧ s.tcp.server.commands[n]? = some c ∧
        ∃ result, (n, result) ∈ s.tcp.server.completed ∧
          c.response result = .value (some dropResponse) := by
  obtain ⟨s, hs⟩ :=
    Option.isSome_iff_exists.1 (show (runDrop dropEvents).isSome = true by decide +kernel)
  have hreturned : (runDrop dropEvents).map returned = some [dropResponse] := by decide +kernel
  have hraised : (runDrop dropEvents).map raised = some [] := by decide +kernel
  rw [hs] at hreturned hraised
  have hmessage : ∀ e ∈ dropEvents, ∀ m, e.message? = some m → m = dropMessage 7 := by
    simp [dropEvents, SessionEvent.message?, eq_comm]
  have hsound := sound_session (fun id => ?_) (fun r r' h => ?_) (fun e he m hm => ?_) hs
  · have hget : s.returned[0]? = some dropResponse := by
      rw [Option.some.inj hreturned]
      rfl
    obtain ⟨n, c, hcall, -, hn, hc, -, result, o, hcompleted, ho, hsend⟩ :=
      hsound.2 (Option.some.inj hraised) 0 dropResponse hget
    refine ⟨s, hs, Option.some.inj hreturned, hsound.1, n, c, hcall, hn, hc, result, hcompleted, ?_⟩
    obtain heq | heq := OneofServer.eq_of_sendReply hsend
    · rw [ho, heq]
    · cases congrArg Sysadminctl.Response.status heq
  · rw [dropResponseBytes]
    split <;> decide
  · by_cases hr : r = dropResponse
    · rw [dropResponseBytes, if_pos hr, if_pos rfl] at h
      exact (Option.some.inj h).symm.trans hr.symm
    · rw [dropResponseBytes, if_neg hr] at h
      cases h
  · rw [hmessage e he m hm]
    exact ⟨show 4 < 2 ^ 31 by decide, rfl⟩

/-- A client that has not waited for its response goes on with a command that has another id: it
    reads the response before, and its assertion fails. -/
theorem exists_run_assertion : ∃ es, (runDrop es).map raised = some [false, true] :=
  ⟨[.server (.accept 5), .call (dropMessage 7), .recvFails,
    .server (.read 0 ⟨[4, 0, 0, 0, 0x22, 0, 0x30, 7], by decide, by decide⟩),
    .call (dropMessage 8), .recv 4, .recv 4], by decide +kernel⟩

end Session

end SysAdminClient

end SysAdmin
