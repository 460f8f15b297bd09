import SysAdmin.ChunkSizes

/-!
# Messages after a reconnect

A `Protocol` is the same object before and after a connection is lost: `InternalConnectionLost`
calls the virtual `OnConnectionLost` and asks the registered callback whether to reconnect, and
when the transport is connected again, `MakeConnection` calls the virtual `OnConnectionMade`.
`ProtobufProtocol` overrides neither, so the bytes of a frame that was cut off stay in its
buffer, and what comes over the new connection is read as the rest of that frame.

What is handled after a reconnect is what the second stream frames, whatever this is, exactly
if the bytes before it end with a frame (`framesOwn_iff`).
-/

namespace SysAdmin

open Framing

/-- The virtual functions of a `Protocol`; `OnDataReceived` may not return. -/
structure Overrides (π : Type*) where
  onConnectionMade : π → π
  onConnectionLost : ℤ → π → π
  onDataReceived : List UInt8 → π → Option π

/-- Where a connection is between one `MakeConnection` and the next one. -/
inductive ConnectionPhase
  | made
  | lost
  | reconnecting
  | dead
  deriving DecidableEq

/-- `Protocol`: the data of the subclass, and its connection. -/
structure Protocol (π : Type*) where
  self : π
  phase : ConnectionPhase

/-- What happens to a `Protocol`. -/
inductive ProtocolEvent
  | dataReceived (data : List UInt8)
  /-- `OnDisconnect` of the transport. -/
  | disconnected (status : ℤ)
  /-- The future of `mOnConnectionLostCallback` completes. -/
  | answered (reconnect : Bool)
  /-- The future of the `Reconnect` of the transport completes, or fails. -/
  | reconnected (success : Bool)
  deriving DecidableEq

namespace Protocol

variable {π : Type*} (V : Overrides π)

/-- `MakeConnection`. -/
def makeConnection (p : Protocol π) : Protocol π := ⟨V.onConnectionMade p.self, .made⟩

/-- `InternalConnectionLost`, up to the answer of the callback. -/
def internalConnectionLost (status : ℤ) (p : Protocol π) : Protocol π :=
  ⟨V.onConnectionLost status p.self, .lost⟩

/-- One event; one that cannot happen in the phase of the connection changes nothing. -/
def step (p : Protocol π) : ProtocolEvent → Option (Protocol π)
  | .dataReceived data =>
    if p.phase = .made then
      (V.onDataReceived data p.self).map fun self => { p with self }
    else some p
  | .disconnected status =>
    some (if p.phase = .made then p.internalConnectionLost V status else p)
  | .answered reconnect =>
    some (if p.phase = .lost then
      { p with phase := if reconnect then .reconnecting else .dead } else p)
  | .reconnected success =>
    some (if p.phase = .reconnecting then
      if success then p.makeConnection V else { p with phase := .dead } else p)

/-- One event after the other. -/
def run (p : Protocol π) (es : List ProtocolEvent) : Option (Protocol π) := es.foldlM (step V) p

/-- A stream of data in chunks, up to the loss of the connection, and a successful reconnect. -/
def session (status : ℤ) (chunks : List (List UInt8)) : List ProtocolEvent :=
  chunks.map .dataReceived ++ [.disconnected status, .answered true, .reconnected true]

/-- Some sessions, each with the status of its loss and its chunks. -/
def sessions (connections : List (ℤ × List (List UInt8))) : List ProtocolEvent :=
  connections.flatMap fun connection => session connection.1 connection.2

/-- `OnDataReceived` for one chunk after the other. -/
def receiveAll (self : π) (chunks : List (List UInt8)) : Option π :=
  chunks.foldlM (fun self data => V.onDataReceived data self) self

variable {V} {p : Protocol π} {es es' : List ProtocolEvent}

theorem run_append (p : Protocol π) (es es' : List ProtocolEvent) :
    p.run V (es ++ es') = (p.run V es).bind fun p => p.run V es' :=
  List.foldlM_append

theorem run_dataReceived (self : π) (chunks : List (List UInt8)) :
    (⟨self, .made⟩ : Protocol π).run V (chunks.map .dataReceived) =
      (receiveAll V self chunks).map (⟨·, .made⟩) := by
  induction chunks generalizing self with
  | nil => rfl
  | cons data chunks ih =>
    rw [List.map_cons, run, List.foldlM_cons, receiveAll, List.foldlM_cons, step, if_pos rfl]
    cases V.onDataReceived data self with
    | none => rfl
    | some self' => exact ih self'

/-- A session calls the three virtual functions. -/
theorem run_session (self : π) (status : ℤ) (chunks : List (List UInt8)) :
    (⟨self, .made⟩ : Protocol π).run V (session status chunks) =
      (receiveAll V self chunks).map fun self =>
        ⟨V.onConnectionMade (V.onConnectionLost status self), .made⟩ := by
  rw [session, run_append, run_dataReceived]
  cases receiveAll V self chunks <;> rfl

end Protocol

/-! ## Protobuf protocols -/

namespace ProtobufProtocol

open Protocol

variable {MessageType : Type*} (T : LengthType) (parseFromArray : List UInt8 → ℤ → MessageType)

/-- What `ProtobufProtocol` overrides: the functions of `Protocol` for the two other events do
    nothing. Its buffer is private, so no subclass of it clears the buffer either. -/
def overrides : Overrides (ProtobufProtocol MessageType) where
  onConnectionMade := id
  onConnectionLost _ := id
  onDataReceived data p := p.onDataReceived T parseFromArray data

/-- What is parsed and handled on a connection, after some connections that were lost and made
    again, is what its own stream frames. -/
def FramesOwn (connections : List (ℤ × List (List UInt8))) (chunks : List (List UInt8)) : Prop :=
  ∃ p p', run (overrides T parseFromArray) (makeConnection (overrides T parseFromArray)
      ⟨fresh, .dead⟩) (sessions connections) = some p ∧
    run (overrides T parseFromArray) p (chunks.map .dataReceived) = some p' ∧
    p'.self.parsed = p.self.parsed ++
      (T.memory.deframe chunks.flatten).1.map (fun payload => (payload, toInt payload.length)) ∧
    p'.self.handled = p.self.handled ++ (T.memory.deframe chunks.flatten).1.map
      fun payload => parseFromArray payload (toInt payload.length)

variable {T parseFromArray} {connections : List (ℤ × List (List UInt8))}

theorem receiveAll_eq (p : ProtobufProtocol MessageType) (chunks : List (List UInt8)) :
    receiveAll (overrides T parseFromArray) p chunks = receive T parseFromArray p chunks := by
  induction chunks generalizing p with
  | nil => rfl
  | cons data chunks ih =>
    rw [receiveAll, List.foldlM_cons, receive]
    exact congrArg (Option.bind _) (funext ih)

/-- The object after some connections is the one that has got all their bytes over one. -/
theorem run_sessions (p : ProtobufProtocol MessageType) :
    run (overrides T parseFromArray) ⟨p, .made⟩ (sessions connections) =
      (receive T parseFromArray p (connections.flatMap Prod.snd)).map (⟨·, .made⟩) := by
  induction connections generalizing p with
  | nil => rfl
  | cons connection connections ih =>
    rw [sessions, List.flatMap_cons, List.flatMap_cons, run_append, run_session, receiveAll_eq,
      receive_append]
    cases receive T parseFromArray p connection.2 with
    | none => rfl
    | some p' => exact ih p'

theorem lt_bound_of_receive {p p' : ProtobufProtocol MessageType} {chunks : List (List UInt8)}
    (h : receive T parseFromArray p chunks = some p') : ∀ c ∈ chunks, c.length < T.bound := by
  induction chunks generalizing p with
  | nil => simp
  | cons data chunks ih =>
    obtain ⟨p₁, h₁, h⟩ := Option.bind_eq_some_iff.1 h
    exact List.forall_mem_cons.2 ⟨lt_bound_of_receiveLoop (Nat.pow_pos (by decide)) h₁, ih h⟩

variable (parseFromArray connections) in
/-- What the object is when the last connection is made, and after some chunks over it. -/
theorem run_sessions_dataReceived {chunks : List (List UInt8)}
    (hfirst : ∀ c ∈ connections.flatMap Prod.snd, c.length < T.bound)
    (hchunks : ∀ c ∈ chunks, c.length < T.bound) :
    ∃ p, run (overrides T parseFromArray) ⟨fresh, .made⟩ (sessions connections) =
        some ⟨p, .made⟩ ∧
      run (overrides T parseFromArray) ⟨p, .made⟩ (chunks.map .dataReceived) =
        some ⟨p.handOver T parseFromArray (T.memory.deframe
          ((T.memory.deframe (connections.flatMap Prod.snd).flatten).2 ++ chunks.flatten)),
          .made⟩ := by
  have hfresh : (fresh : ProtobufProtocol MessageType).buffer = .holding T [] :=
    FramedBuffer.holding_nil.symm
  have h := receive_eq parseFromArray hfirst hfresh T.memory.incomplete_nil
  rw [List.nil_append] at h
  refine ⟨_, by rw [run_sessions, h]; rfl, ?_⟩
  rw [run_dataReceived, receiveAll_eq, receive_eq parseFromArray hchunks rfl
    (LengthField.incomplete_deframe T.memory_exact _)]
  rfl

/-- The payloads of the second stream are those that come out of it behind the rest of the
    first one. -/
theorem framesOwn_iff_deframe {chunks : List (List UInt8)}
    (hchunks : ∀ c ∈ chunks, c.length < T.bound) :
    FramesOwn T parseFromArray connections chunks ↔
      (∀ c ∈ connections.flatMap Prod.snd, c.length < T.bound) ∧
        (T.memory.deframe ((T.memory.deframe (connections.flatMap Prod.snd).flatten).2 ++
          chunks.flatten)).1 = (T.memory.deframe chunks.flatten).1 := by
  constructor
  · rintro ⟨p, p', hp, hp', hparsed, -⟩
    have hfirst : ∀ c ∈ connections.flatMap Prod.snd, c.length < T.bound := by
      obtain ⟨p₁, h₁, -⟩ := Option.map_eq_some_iff.1 ((run_sessions fresh).symm.trans hp)
      exact lt_bound_of_receive h₁
    obtain ⟨p₁, h₁, h₂⟩ := run_sessions_dataReceived parseFromArray connections hfirst hchunks
    obtain rfl := Option.some.inj (h₁.symm.trans hp)
    obtain rfl := Option.some.inj (h₂.symm.trans hp')
    refine ⟨hfirst, List.map_injective_iff.2 ?_ (List.append_cancel_left hparsed)⟩
    exact fun q q' hq => congrArg Prod.fst hq
  · rintro ⟨hfirst, heq⟩
    obtain ⟨p, h₁, h₂⟩ := run_sessions_dataReceived parseFromArray connections hfirst hchunks
    refine ⟨_, _, h₁, h₂, ?_, ?_⟩
    · rw [← heq]
      rfl
    · rw [← heq]
      rfl

/-- What is handled over each connection is what its stream frames exactly if the bytes before
    it end with a frame. -/
theorem framesOwn_iff :
    (∀ chunks, (∀ c ∈ chunks, c.length < T.bound) →
        FramesOwn T parseFromArray connections chunks) ↔
      (∀ c ∈ connections.flatMap Prod.snd, c.length < T.bound) ∧
        (T.memory.deframe (connections.flatMap Prod.snd).flatten).2 = [] := by
  constructor
  · intro h
    refine ⟨((framesOwn_iff_deframe (by simp)).1 (h [] (by simp))).1, ?_⟩
    by_contra hr
    -- Some stream goes on where the rest ends, and is read as other frames then.
    obtain ⟨t, ht⟩ := LengthField.exists_deframe_append_ne T.memory_exact
      (LengthField.incomplete_deframe T.memory_exact _) hr
    have hbytes : ∀ c ∈ t.map ([·]), c.length < T.bound := by
      rw [List.forall_mem_map]
      exact fun _ _ => Nat.one_lt_pow T.sizeof_pos.ne' (by decide)
    have heq := ((framesOwn_iff_deframe hbytes).1 (h _ hbytes)).2
    rw [show (t.map ([·])).flatten = t from List.flatMap_singleton' t] at heq
    exact ht heq
  · rintro ⟨hbound, hrest⟩ chunks hchunks
    refine (framesOwn_iff_deframe hchunks).2 ⟨hbound, ?_⟩
    rw [hrest, List.nil_append]

/-- After one byte of a length that was cut off, a message is taken for a longer one. -/
theorem not_framesOwn_cutLength :
    ¬ FramesOwn (.uint32 true) (fun data size => data.take size.toNat) [(0, [[5]])]
      [[1, 0, 0, 0, 7]] := by
  rintro ⟨p, p', hp, hp', hparsed, -⟩
  obtain rfl : (⟨⟨⟨0, [5], []⟩, [], []⟩, .made⟩ : Protocol _) = p := Option.some.inj hp
  obtain rfl : (⟨⟨⟨261, [5, 1, 0, 0], [0, 7]⟩, [], []⟩, .made⟩ : Protocol _) = p' :=
    Option.some.inj hp'
  have hframe : [1, 0, 0, 0, 7] = (LengthType.uint32 true).memory.frame [7] ++ [] := rfl
  rw [List.flatten_singleton, hframe, LengthField.deframe_frame_append (by decide)] at hparsed
  exact absurd (congrArg List.length hparsed) (by simp)

end ProtobufProtocol

end SysAdmin
