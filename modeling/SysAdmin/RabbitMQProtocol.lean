import Mathlib.Data.List.Nodup
import SysAdmin.Foundation.CircularBuffer
import SysAdmin.Foundation.Machine

/-!
# RabbitMQ protocols

A `RabbitMQProtocol` is the same object for one connection after the other. `OnConnectionMade`
makes an AMQP connection and a channel, `OnConnectionLost` and `onClosed` drop them. The
handlers that have been registered and the buffer of the data that has not been parsed are
kept.

The model has an event for each call that changes the object. What the AMQP library does while
it parses data (`onConnected`, `onClosed`, the replies of the broker to what has been asked over
the channel) are events between `onDataReceived` and `parsed`.

* `consumesOwn`: the parser of each connection reads a prefix of what has been received over it,
  if the buffer is empty whenever a connection is made;
* `oneConsumer_iff`: no null channel is used, and each topic has one consumer on an open
  connection, exactly if new topics are registered neither without a connection nor on one that
  is not open yet when it opens.
-/

namespace SysAdmin

open Machine

/-- How far the calls of `ConsumeTopic` have come: each one waits for the broker's reply. -/
inductive SubscriptionPhase
  | declaringQueue
  | bindingQueue
  | startingConsumer
  | consuming
  deriving DecidableEq

/-- A call of `ConsumeTopic` on the channel. -/
structure Subscription (η : Type*) where
  topic : String
  handler : η
  phase : SubscriptionPhase
  deriving DecidableEq

/-- The bytes that have come over a connection, and those that its parser has consumed. -/
structure ByteStream where
  received : List UInt8
  consumed : List UInt8
  deriving DecidableEq

/-- `RabbitMQProtocol`. `mpConnection` and `mpChannel` are made and reset together (`live`);
    the subscriptions are those on the channel. The stream of the last connection and those of
    the connections before it are kept for the specification. -/
structure RabbitMQProtocol (η : Type*) where
  live : Bool
  /-- `onConnected` has been called on the connection. -/
  opened : Bool
  handlers : List (String × η)
  subscriptions : List (Subscription η)
  buffer : CircularBuffer UInt8
  /-- The data that `parse` has been called with, while it runs. -/
  parsing : Option (List UInt8)
  stream : ByteStream
  past : List ByteStream
  /-- A null `mpChannel` has been used. -/
  nullDereferenced : Bool
  deriving DecidableEq

/-- The calls of a `RabbitMQProtocol`. -/
inductive RabbitMQEvent (η : Type*)
  | registerHandler (topic : String) (handler : η)
  | onConnectionMade
  | onConnectionLost
  | onDataReceived (data : List UInt8)
  /-- `parse` returns the number of bytes that it has consumed. -/
  | parsed (processedByteCount : ℕ)
  | onConnected
  | onClosed
  /-- The broker replies to what a subscription waits for. -/
  | replied (i : ℕ)
  deriving DecidableEq

/-- What follows the broker's reply. -/
def SubscriptionPhase.next : SubscriptionPhase → SubscriptionPhase
  | .declaringQueue => .bindingQueue
  | .bindingQueue => .startingConsumer
  | .startingConsumer => .consuming
  | .consuming => .consuming

namespace RabbitMQProtocol

variable {η : Type*}

/-- The constructor. -/
def init : RabbitMQProtocol η :=
  ⟨false, false, [], [], .empty 4096, none, ⟨[], []⟩, [], false⟩

/-- `ConsumeTopic`, whose first step is a call on the channel. -/
def consumeTopic (p : RabbitMQProtocol η) (topic : String) (handler : η) : RabbitMQProtocol η :=
  if p.live then
    { p with subscriptions := p.subscriptions ++ [⟨topic, handler, .declaringQueue⟩] }
  else { p with nullDereferenced := true }

/-- `RegisterHandler`. -/
def registerHandler (p : RabbitMQProtocol η) (topic : String) (handler : η) :
    RabbitMQProtocol η :=
  if topic ∈ p.handlers.map Prod.fst then p
  else { p with handlers := p.handlers ++ [(topic, handler)] }.consumeTopic topic handler

/-- `OnConnectionMade`. -/
def onConnectionMade (p : RabbitMQProtocol η) : RabbitMQProtocol η :=
  { p with
    live := true
    opened := false
    subscriptions := []
    stream := ⟨[], []⟩
    past := p.stream :: p.past }

/-- `OnConnectionLost`, and `onClosed`: what they do to the object is the same. -/
def dropConnection (p : RabbitMQProtocol η) : RabbitMQProtocol η :=
  { p with live := false, opened := false, subscriptions := [] }

/-- `onConnected`, which the library calls once for a connection. -/
def onConnected (p : RabbitMQProtocol η) : RabbitMQProtocol η :=
  if p.live ∧ ¬ p.opened then
    p.handlers.foldl (fun p entry => p.consumeTopic entry.1 entry.2) { p with opened := true }
  else p

/-- Adds to the stream of the last connection. -/
def record (p : RabbitMQProtocol η) (received consumed : List UInt8) : RabbitMQProtocol η :=
  { p with stream := ⟨p.stream.received ++ received, p.stream.consumed ++ consumed⟩ }

/-- `DoRead`, up to the call of `parse`. -/
def doRead (p : RabbitMQProtocol η) (data : List UInt8) : RabbitMQProtocol η :=
  if data = [] ∨ ¬ p.live then p
  else
    let buffer := p.buffer.growInsert data
    { p with buffer, parsing := some buffer.items }

/-- `DoRead`, from the return of `parse` on. -/
def parsed (p : RabbitMQProtocol η) (toProcess : List UInt8) (processedByteCount : ℕ) :
    RabbitMQProtocol η :=
  { p with buffer := p.buffer.eraseFirst processedByteCount, parsing := none }.record []
    (toProcess.take processedByteCount)

/-- One call. Connections are not made or lost and no data comes in while `parse` runs, and it
    consumes no more than it has been given. -/
def step (p : RabbitMQProtocol η) : RabbitMQEvent η → RabbitMQProtocol η
  | .registerHandler topic handler => p.registerHandler topic handler
  | .onConnectionMade => if p.parsing = none then p.onConnectionMade else p
  | .onConnectionLost => if p.parsing = none then p.dropConnection else p
  | .onDataReceived data =>
    if p.parsing = none then (p.record data []).doRead data else p
  | .parsed processedByteCount =>
    match p.parsing with
    | none => p
    | some toProcess =>
      if processedByteCount ≤ toProcess.length then p.parsed toProcess processedByteCount else p
  | .onConnected => p.onConnected
  | .onClosed => p.dropConnection
  | .replied i =>
    { p with subscriptions := p.subscriptions.modify i fun subscription =>
        { subscription with phase := subscription.phase.next } }

/-- A call of `ConsumeTopic` for a registered handler. -/
def subscribe (entry : String × η) : Subscription η := ⟨entry.1, entry.2, .declaringQueue⟩

theorem foldl_consumeTopic (handlers : List (String × η)) {p : RabbitMQProtocol η} (h : p.live) :
    handlers.foldl (fun p entry => p.consumeTopic entry.1 entry.2) p =
      { p with subscriptions := p.subscriptions ++ handlers.map subscribe } := by
  induction handlers generalizing p with
  | nil => rw [List.map_nil, List.append_nil, List.foldl_nil]
  | cons entry handlers ih =>
    rw [List.foldl_cons, consumeTopic, if_pos h, ih, List.append_assoc, List.map_cons]
    · rfl
    · exact h

/-! ## The bytes of each connection -/

/-- The parser of each connection has consumed a prefix of what has come over it. -/
def ConsumesOwn (p : RabbitMQProtocol η) : Prop :=
  ∀ stream ∈ p.stream :: p.past, stream.consumed <+: stream.received

/-- A connection is only made when all data has been consumed. -/
def BufferEmpty (p : RabbitMQProtocol η) (e : RabbitMQEvent η) : Prop :=
  e = .onConnectionMade → p.buffer.items = []

/-- The bytes in the buffer are those of the connection that come behind the ones that have
    been consumed; while the connection is there, they are all of these. -/
structure Buffered (p : RabbitMQProtocol η) : Prop where
  past_prefix : ∀ stream ∈ p.past, stream.consumed <+: stream.received
  isPrefix : p.stream.consumed ++ p.buffer.items <+: p.stream.received
  eq_of_live : p.live → p.stream.consumed ++ p.buffer.items = p.stream.received
  parsing_eq : ∀ toProcess ∈ p.parsing, toProcess = p.buffer.items

variable {p : RabbitMQProtocol η} {e : RabbitMQEvent η} {topic : String} {handler : η}

theorem Buffered.consumesOwn (h : Buffered p) : ConsumesOwn p :=
  List.forall_mem_cons.2 ⟨(List.prefix_append _ _).trans h.isPrefix, h.past_prefix⟩

theorem buffered_init : Buffered (init : RabbitMQProtocol η) := by
  constructor <;> simp [init]

/-- What the calls that are not about data keep. -/
theorem Buffered.of_eq {p' : RabbitMQProtocol η} (h : Buffered p) (hlive : p'.live → p.live)
    (hbuffer : p'.buffer = p.buffer) (hparsing : p'.parsing = p.parsing)
    (hstream : p'.stream = p.stream) (hpast : p'.past = p.past) : Buffered p' where
  past_prefix := hpast ▸ h.past_prefix
  isPrefix := by
    rw [hstream, hbuffer]
    exact h.isPrefix
  eq_of_live hl := by
    rw [hstream, hbuffer]
    exact h.eq_of_live (hlive hl)
  parsing_eq := by
    rw [hparsing, hbuffer]
    exact h.parsing_eq

theorem Buffered.onConnectionMade (h : Buffered p) (hempty : p.buffer.items = []) :
    Buffered p.onConnectionMade where
  past_prefix := h.consumesOwn
  isPrefix := by
    rw [RabbitMQProtocol.onConnectionMade, hempty]
    exact List.prefix_rfl
  eq_of_live _ := by
    rw [RabbitMQProtocol.onConnectionMade, hempty]
    rfl
  parsing_eq := h.parsing_eq

theorem Buffered.doRead (h : Buffered p) (hp : p.parsing = none) (data : List UInt8) :
    Buffered ((p.record data []).doRead data) := by
  rw [RabbitMQProtocol.doRead]
  split
  · next hdata =>
    refine ⟨h.past_prefix, ?_, fun hl => ?_, by simp [record, hp]⟩
    · rw [record, List.append_nil]
      exact h.isPrefix.trans (List.prefix_append _ _)
    · obtain rfl := hdata.resolve_right (not_not.2 hl)
      rw [record, List.append_nil, List.append_nil]
      exact h.eq_of_live hl
  · next hdata =>
    have heq := h.eq_of_live (not_not.1 (not_or.1 hdata).2)
    have hall : p.stream.consumed ++ (p.buffer.growInsert data).items =
        p.stream.received ++ data := by
      rw [CircularBuffer.items_growInsert, ← List.append_assoc, heq]
    refine ⟨h.past_prefix, ?_, fun _ => ?_, by simp [record]⟩
    · simp only [record, List.append_nil, hall, List.prefix_rfl]
    · simp only [record, List.append_nil, hall]

theorem Buffered.parsed {toProcess : List UInt8} (h : Buffered p) (hp : p.parsing = some toProcess)
    (n : ℕ) : Buffered (p.parsed toProcess n) := by
  have hbuffer := h.parsing_eq toProcess hp
  have hall : p.stream.consumed ++ toProcess.take n ++ (p.buffer.eraseFirst n).items =
      p.stream.consumed ++ p.buffer.items := by
    rw [hbuffer, CircularBuffer.items_eraseFirst, List.append_assoc, List.take_append_drop]
  refine ⟨h.past_prefix, ?_, fun hl => ?_, by simp [RabbitMQProtocol.parsed, record]⟩
  · simpa only [RabbitMQProtocol.parsed, record, List.append_nil, hall] using h.isPrefix
  · simpa only [RabbitMQProtocol.parsed, record, List.append_nil, hall] using h.eq_of_live hl

theorem Buffered.registerHandler (h : Buffered p) (topic : String) (handler : η) :
    Buffered (p.registerHandler topic handler) := by
  rw [RabbitMQProtocol.registerHandler, consumeTopic]
  split
  · exact h
  · split
    · exact h.of_eq id rfl rfl rfl rfl
    · exact h.of_eq id rfl rfl rfl rfl

theorem Buffered.onConnected (h : Buffered p) : Buffered p.onConnected := by
  rw [RabbitMQProtocol.onConnected]
  split
  · next hlive =>
    rw [foldl_consumeTopic]
    · exact h.of_eq id rfl rfl rfl rfl
    · exact hlive.1
  · exact h

/-- The step lemma of the buffer. -/
theorem Buffered.step (h : Buffered p) (hG : BufferEmpty p e) : Buffered (p.step e) := by
  cases e with
  | registerHandler topic handler => exact h.registerHandler topic handler
  | onConnectionMade =>
    rw [RabbitMQProtocol.step]
    split
    · exact h.onConnectionMade (hG rfl)
    · exact h
  | onConnectionLost =>
    rw [RabbitMQProtocol.step]
    split
    · exact h.of_eq (by simp [dropConnection]) rfl rfl rfl rfl
    · exact h
  | onDataReceived data =>
    rw [RabbitMQProtocol.step]
    split
    · next hp => exact h.doRead hp data
    · exact h
  | parsed n =>
    rw [RabbitMQProtocol.step]
    split
    · exact h
    · next hp =>
      split
      · exact h.parsed hp n
      · exact h
  | onConnected => exact h.onConnected
  | onClosed => exact h.of_eq (by simp [RabbitMQProtocol.step, dropConnection]) rfl rfl rfl rfl
  | replied i => exact h.of_eq id rfl rfl rfl rfl

/-- If every connection is made with nothing left in the buffer, then the parser of each one
    consumes a prefix of what has come over it, whatever it leaves for later. -/
theorem always_consumesOwn {es : List (RabbitMQEvent η)}
    (h : Guarded step BufferEmpty (init : RabbitMQProtocol η) es) :
    Always step ConsumesOwn init es :=
  (Always.of_step step buffered_init (fun _ _ h hG => h.step hG) h).mono fun _ h => h.consumesOwn

/-- The rest of a frame comes in a second chunk, and then the broker closes the connection. -/
theorem always_consumesOwn_twoConnections :
    Always step ConsumesOwn (init : RabbitMQProtocol Unit) [.onConnectionMade,
      .onDataReceived [1, 2, 3], .parsed 1, .onDataReceived [4], .onClosed, .parsed 3,
      .onConnectionLost, .onConnectionMade, .onDataReceived [5], .parsed 0] :=
  always_consumesOwn (by simp [Guarded, BufferEmpty, step]; decide)

/-- The parser of the second connection gets what the first one has left. -/
theorem not_always_consumesOwn_lostInFrame :
    ¬ Always step ConsumesOwn (init : RabbitMQProtocol Unit) [.onConnectionMade,
      .onDataReceived [1, 2], .parsed 1, .onConnectionLost, .onConnectionMade,
      .onDataReceived [3], .parsed 1] := by
  intro h
  have hlast := h.last ⟨[3], [2]⟩ (by decide)
  exact absurd hlast (by decide)

/-- If a connection is made with bytes in the buffer, some chunk breaks the property. -/
theorem exists_not_consumesOwn (hp : p.parsing = none) (hitems : p.buffer.items ≠ []) :
    ∃ data, ¬ ConsumesOwn (run step p [.onConnectionMade, .onDataReceived data, .parsed 1]) := by
  obtain ⟨b, bs, hb⟩ := List.exists_cons_of_ne_nil hitems
  refine ⟨[b + 1], fun h => ?_⟩
  have hmade : p.step .onConnectionMade = p.onConnectionMade := if_pos hp
  have hread : p.onConnectionMade.step (.onDataReceived [b + 1]) =
      (p.onConnectionMade.record [b + 1] []).doRead [b + 1] := if_pos hp
  have hdo : (p.onConnectionMade.record [b + 1] []).doRead [b + 1] =
      { p.onConnectionMade.record [b + 1] [] with
        buffer := p.buffer.growInsert [b + 1]
        parsing := some (b :: bs ++ [b + 1]) } := by
    rw [doRead, if_neg (by simp [record, RabbitMQProtocol.onConnectionMade])]
    simp [record, RabbitMQProtocol.onConnectionMade, hb]
  rw [run_cons, run_cons, run_cons, run_nil, hmade, hread, hdo] at h
  have hfirst : [b] <+: [b + 1] := h _ List.mem_cons_self
  simp at hfirst

/-! ## The consumers of each topic -/

/-- The topics and handlers of the subscriptions on the channel. -/
def bindings (p : RabbitMQProtocol η) : List (String × η) :=
  p.subscriptions.map fun subscription => (subscription.topic, subscription.handler)

/-- The handlers that are called for a message which is published on a topic. -/
def handledBy (p : RabbitMQProtocol η) (topic : String) : List η :=
  (p.subscriptions.filter fun subscription =>
    subscription.topic = topic ∧ subscription.phase = .consuming).map Subscription.handler

/-- No null channel has been used. Once `onConnected` has been called on the connection, each
    registered topic has one subscription, with its handler; and when the broker has answered
    what that asked for, a message on the topic reaches the handler once. -/
def OneConsumer (p : RabbitMQProtocol η) : Prop :=
  ¬ p.nullDereferenced ∧ (p.opened → ∀ entry ∈ p.handlers,
    p.bindings.filter (·.1 = entry.1) = [entry] ∧
      ((∀ subscription ∈ p.subscriptions, subscription.topic = entry.1 →
        subscription.phase = .consuming) → p.handledBy entry.1 = [entry.2]))

/-- New topics are only registered while there is a channel, and `onConnected` finds no
    subscriptions on it: no topic has been registered since the connection was made. -/
def RegistersOpen (p : RabbitMQProtocol η) : RabbitMQEvent η → Prop
  | .registerHandler topic _ => topic ∈ p.handlers.map Prod.fst ∨ p.live
  | .onConnected => p.live → ¬ p.opened → p.subscriptions = []
  | _ => True

/-- What every call keeps about the subscriptions. -/
structure Registered (p : RabbitMQProtocol η) : Prop where
  nodup : (p.handlers.map Prod.fst).Nodup
  subset : p.bindings ⊆ p.handlers
  live_of_opened : p.opened → p.live

theorem filter_fst_eq {α β : Type*} [DecidableEq α] {l : List (α × β)}
    (h : (l.map Prod.fst).Nodup) {entry : α × β} (he : entry ∈ l) :
    l.filter (·.1 = entry.1) = [entry] := by
  induction l with
  | nil => exact absurd he List.not_mem_nil
  | cons a l ih =>
    rw [List.map_cons, List.nodup_cons] at h
    rcases List.mem_cons.1 he with rfl | he'
    · -- no later entry has the key
      have hnone : l.filter (·.1 = entry.1) = [] :=
        List.filter_eq_nil_iff.2 fun b hb hkey => h.1
          (List.mem_map.2 ⟨b, hb, of_decide_eq_true hkey⟩)
      rw [List.filter_cons_of_pos (by simp), hnone]
    · have hne : a.1 ≠ entry.1 := fun hkey => h.1 (hkey ▸ List.mem_map_of_mem he')
      rw [List.filter_cons_of_neg (by simpa using hne), ih h.2 he']

theorem oneConsumer_iff : OneConsumer p ↔ ¬ p.nullDereferenced ∧
    (p.opened → ∀ entry ∈ p.handlers, p.bindings.filter (·.1 = entry.1) = [entry]) := by
  refine and_congr_right fun _ => forall_congr' fun _ => forall₂_congr fun entry _ =>
    and_iff_left_of_imp fun hone hconsuming => ?_
  have hall : p.subscriptions.filter (fun subscription =>
      subscription.topic = entry.1 ∧ subscription.phase = .consuming) =
      p.subscriptions.filter fun subscription => subscription.topic = entry.1 :=
    List.filter_congr fun subscription hs => decide_eq_decide.2
      (and_iff_left_of_imp (hconsuming subscription hs))
  rw [bindings, List.filter_map] at hone
  have hhandlers := congrArg (List.map Prod.snd) hone
  rw [List.map_map] at hhandlers
  rw [handledBy, hall]
  exact hhandlers

theorem registered_init : Registered (init : RabbitMQProtocol η) where
  nodup := List.nodup_nil
  subset := List.nil_subset _
  live_of_opened := id

/-- Calls that keep the handlers, the subscriptions and the connection, or drop the latter two. -/
theorem Registered.of_eq {p' : RabbitMQProtocol η} (h : Registered p)
    (hhandlers : p'.handlers = p.handlers) (hbindings : p'.bindings ⊆ p.bindings)
    (hopened : p'.opened → p'.live) : Registered p' where
  nodup := hhandlers ▸ h.nodup
  subset := hhandlers ▸ List.Subset.trans hbindings h.subset
  live_of_opened := hopened

@[simp] theorem bindings_replied (i : ℕ) : (p.step (.replied i)).bindings = p.bindings := by
  rw [bindings, bindings, step]
  dsimp only
  generalize p.subscriptions = subscriptions
  induction subscriptions generalizing i with
  | nil => rw [List.modify_nil]
  | cons subscription subscriptions ih =>
    cases i with
    | zero => rfl
    | succ i => rw [List.modify_succ_cons, List.map_cons, ih, List.map_cons]

theorem Registered.registerHandler (h : Registered p) (topic : String) (handler : η) :
    Registered (p.registerHandler topic handler) := by
  rw [RabbitMQProtocol.registerHandler, consumeTopic]
  split
  · exact h
  · next hnew =>
    have hnodup : ((p.handlers ++ [(topic, handler)]).map Prod.fst).Nodup := by
      rw [List.map_append, List.nodup_append_comm]
      exact List.nodup_cons.2 ⟨hnew, h.nodup⟩
    split
    · refine ⟨hnodup, ?_, h.live_of_opened⟩
      rw [bindings, List.map_append]
      exact List.append_subset.2 ⟨List.Subset.trans h.subset (List.subset_append_left _ _),
        List.subset_append_right _ _⟩
    · exact ⟨hnodup, List.Subset.trans h.subset (List.subset_append_left _ _), h.live_of_opened⟩

theorem bindings_onConnected (hlive : p.live) (hopened : ¬ p.opened) :
    p.onConnected.bindings = p.bindings ++ p.handlers := by
  rw [RabbitMQProtocol.onConnected, if_pos ⟨hlive, hopened⟩, foldl_consumeTopic]
  · rw [bindings, List.map_append, List.map_map]
    exact congrArg (p.bindings ++ ·) (List.map_id _)
  · exact hlive

theorem handlers_onConnected (hlive : p.live) (hopened : ¬ p.opened) :
    p.onConnected.handlers = p.handlers := by
  rw [RabbitMQProtocol.onConnected, if_pos ⟨hlive, hopened⟩, foldl_consumeTopic]
  exact hlive

theorem Registered.onConnected (h : Registered p) : Registered p.onConnected := by
  by_cases happly : p.live ∧ ¬ p.opened
  · refine ⟨?_, ?_, fun _ => ?_⟩
    · rw [handlers_onConnected happly.1 happly.2]
      exact h.nodup
    · rw [handlers_onConnected happly.1 happly.2, bindings_onConnected happly.1 happly.2]
      exact List.append_subset.2 ⟨h.subset, List.Subset.refl _⟩
    · rw [RabbitMQProtocol.onConnected, if_pos happly, foldl_consumeTopic]
      · exact happly.1
      · exact happly.1
  · rwa [RabbitMQProtocol.onConnected, if_neg happly]

/-- The step lemma of the subscriptions. -/
theorem Registered.step (h : Registered p) (e : RabbitMQEvent η) : Registered (p.step e) := by
  cases e with
  | registerHandler topic handler => exact h.registerHandler topic handler
  | onConnectionMade =>
    rw [RabbitMQProtocol.step]
    split
    · exact h.of_eq rfl (List.nil_subset _) fun _ => rfl
    · exact h
  | onConnectionLost =>
    rw [RabbitMQProtocol.step]
    split
    · exact h.of_eq rfl (List.nil_subset _) id
    · exact h
  | onDataReceived data =>
    rw [RabbitMQProtocol.step, doRead]
    split
    · split <;> exact h.of_eq rfl (List.Subset.refl _) h.live_of_opened
    · exact h
  | parsed n =>
    rw [RabbitMQProtocol.step]
    split
    · exact h
    · split
      · exact h.of_eq rfl (List.Subset.refl _) h.live_of_opened
      · exact h
  | onConnected => exact h.onConnected
  | onClosed => exact h.of_eq rfl (List.nil_subset _) id
  | replied i =>
    have hb : (p.step (.replied i)).bindings ⊆ p.bindings := by
      rw [bindings_replied]
      exact List.Subset.refl _
    exact h.of_eq rfl hb h.live_of_opened

/-- Registering a topic keeps the property if it is known, or if there is a channel. -/
theorem oneConsumer_registerHandler (h : Registered p) (hP : OneConsumer p) :
    OneConsumer (p.registerHandler topic handler) ↔
      topic ∈ p.handlers.map Prod.fst ∨ p.live := by
  rw [oneConsumer_iff] at hP
  by_cases hknown : topic ∈ p.handlers.map Prod.fst
  · rw [registerHandler, if_pos hknown, oneConsumer_iff]
    exact iff_of_true hP (.inl hknown)
  · rw [or_iff_right hknown, registerHandler, if_neg hknown, consumeTopic]
    split
    · next hlive =>
      refine iff_of_true (oneConsumer_iff.2 ⟨hP.1, fun hopened entry he => ?_⟩) hlive
      -- A topic without a handler has no binding.
      have hb : ∀ b ∈ p.bindings, b.1 ≠ topic := fun b hb hkey =>
        hknown (hkey ▸ List.mem_map_of_mem (h.subset hb))
      rw [bindings, List.map_append, List.filter_append]
      rcases List.mem_append.1 he with he | he
      · have hne : topic ≠ entry.1 := fun hkey => hknown (hkey ▸ List.mem_map_of_mem he)
        have hone := hP.2 hopened entry he
        rw [bindings] at hone
        rw [hone]
        simp [hne]
      · obtain rfl := List.mem_singleton.1 he
        have hnone : p.bindings.filter (·.1 = topic) = [] :=
          List.filter_eq_nil_iff.2 fun b hmem hkey => hb b hmem (of_decide_eq_true hkey)
        rw [bindings] at hnone
        rw [hnone]
        simp
    · next hlive =>
      exact iff_of_false (fun hP' => hP'.1 rfl) hlive

/-- On a connection that opens, the property asks for no subscription before. -/
theorem oneConsumer_onConnected (h : Registered p) (hP : OneConsumer p) :
    OneConsumer p.onConnected ↔ (p.live → ¬ p.opened → p.subscriptions = []) := by
  by_cases happly : p.live ∧ ¬ p.opened
  · obtain ⟨hlive, hopened⟩ := happly
    have hopened' : p.onConnected.opened := by
      rw [onConnected, if_pos ⟨hlive, hopened⟩, foldl_consumeTopic]
      exact hlive
    have hnull : ¬ p.onConnected.nullDereferenced := by
      rw [onConnected, if_pos ⟨hlive, hopened⟩, foldl_consumeTopic]
      · exact hP.1
      · exact hlive
    rw [oneConsumer_iff, handlers_onConnected hlive hopened, bindings_onConnected hlive hopened]
    constructor
    · rintro ⟨-, hone⟩ - -
      rw [← List.map_eq_nil_iff (f := fun s : Subscription η => (s.topic, s.handler))]
      -- A topic that is subscribed to before gets a second consumer on opening.
      refine List.eq_nil_iff_forall_not_mem.2 fun b hb => ?_
      have hmem := h.subset hb
      have hb' := hone hopened' b hmem
      rw [List.filter_append, filter_fst_eq h.nodup hmem, List.append_left_eq_self,
        List.filter_eq_nil_iff] at hb'
      exact hb' b hb (decide_eq_true rfl)
    · intro hempty
      refine ⟨hnull, fun _ entry he => ?_⟩
      rw [bindings, hempty hlive hopened, List.map_nil, List.nil_append,
        filter_fst_eq h.nodup he]
  · rw [onConnected, if_neg happly]
    exact iff_of_true hP fun hl ho => absurd ⟨hl, ho⟩ happly

/-- What one call needs to keep the property. -/
theorem oneConsumer_step_iff (h : Registered p) (hP : OneConsumer p) (e : RabbitMQEvent η) :
    OneConsumer (p.step e) ↔ RegistersOpen p e := by
  cases e with
  | registerHandler topic handler => exact oneConsumer_registerHandler h hP
  | onConnectionMade =>
    rw [step]
    split
    · exact iff_of_true ⟨hP.1, fun ho => absurd ho Bool.false_ne_true⟩ trivial
    · exact iff_of_true hP trivial
  | onConnectionLost =>
    rw [step]
    split
    · exact iff_of_true ⟨hP.1, fun ho => absurd ho Bool.false_ne_true⟩ trivial
    · exact iff_of_true hP trivial
  | onDataReceived data =>
    rw [step, doRead]
    split
    · split <;> exact iff_of_true hP trivial
    · exact iff_of_true hP trivial
  | parsed n =>
    rw [step]
    split
    · exact iff_of_true hP trivial
    · split <;> exact iff_of_true hP trivial
  | onConnected => exact oneConsumer_onConnected h hP
  | onClosed => exact iff_of_true ⟨hP.1, fun ho => absurd ho Bool.false_ne_true⟩ trivial
  | replied i =>
    refine iff_of_true (oneConsumer_iff.2 ⟨hP.1, ?_⟩) trivial
    rw [bindings_replied]
    exact (oneConsumer_iff.1 hP).2

/-- However the calls are ordered, no null channel is used and each topic has one consumer on
    an open connection, exactly if new topics are registered neither without a channel nor
    before the connection is open. -/
theorem always_oneConsumer_iff {es : List (RabbitMQEvent η)} :
    Always step OneConsumer (init : RabbitMQProtocol η) es ↔ Guarded step RegistersOpen init es :=
  always_iff_guarded registered_init (fun _ e h => h.step e)
    ⟨Bool.false_ne_true, fun ho => absurd ho Bool.false_ne_true⟩
    fun _ e h hP => oneConsumer_step_iff h hP e

/-- A topic that is registered between `OnConnectionMade` and `onConnected` is consumed twice,
    and one that is registered before there is a connection uses a null channel. -/
theorem not_always_oneConsumer :
    ¬ Always step OneConsumer (init : RabbitMQProtocol Unit)
        [.onConnectionMade, .registerHandler "topic" (), .onConnected] ∧
      ¬ Always step OneConsumer (init : RabbitMQProtocol Unit) [.registerHandler "topic" ()] := by
  refine ⟨fun h => ?_, fun h => ?_⟩
  · have hlast := (h.last.2 rfl ("topic", ()) (by decide)).1
    exact absurd hlast (by decide)
  · exact absurd h.last.1 (by decide)

end RabbitMQProtocol

end SysAdmin
