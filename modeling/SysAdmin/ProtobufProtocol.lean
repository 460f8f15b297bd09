import SysAdmin.Foundation.Framing

/-!
# Messages over a connection

Messages travel over a connection as frames (`SysAdmin.Foundation.Framing`): `send` writes
the length of a serialized message and the message, and `onDataReceived` gets chunks of what
the other side has written. It fills a `FramedBuffer` from them, and parses and handles the
message in it whenever it is ready.

What is in the buffer is a function of the bytes received since the last frame
(`FramedBuffer.holding`): adding data takes from the data what these bytes lack of a frame
(`addData_holding`). So the state after some chunks is a function of the bytes in them
(`ProtobufProtocol.after`), wherever they have been cut (`receive_after`).
-/

namespace SysAdmin

open Framing

/-- An unsigned integer type of C++ as the type of lengths, with its bytes in memory. -/
structure LengthType where
  sizeof : ℕ
  lowestFirst : Bool
  sizeof_pos : 0 < sizeof
  sizeof_le : sizeof ≤ 8

namespace LengthType

variable (T : LengthType)

/-- What `memcpy` moves from and to an integer. -/
def memory : LengthField UInt8 := .memory T.sizeof T.sizeof_pos T.lowestFirst

/-- The values of the type are the numbers below this one. -/
abbrev bound : ℕ := 256 ^ T.sizeof

/-- The conversion of an integer to the type. -/
def wrap (n : ℕ) : ℕ := n % T.bound

/-- `std::numeric_limits<LengthT>::max()`. -/
def max : ℕ := T.bound - 1

/-- `uint16_t`, on a little-endian or a big-endian machine. -/
def uint16 (lowestFirst : Bool) : LengthType := ⟨2, lowestFirst, by decide, by decide⟩

/-- `uint32_t`, on a little-endian or a big-endian machine. -/
def uint32 (lowestFirst : Bool) : LengthType := ⟨4, lowestFirst, by decide, by decide⟩

variable {T} {n : ℕ}

@[simp] theorem memory_width : T.memory.width = T.sizeof := rfl

@[simp] theorem length_encode : (T.memory.encode n).length = T.sizeof :=
  T.memory.length_encode n

theorem decode_lt {bs : List UInt8} (h : bs.length = T.sizeof) : T.memory.decode bs < T.bound := by
  have hlt := ofBytes_lt (if T.lowestFirst then bs else bs.reverse)
  cases hT : T.lowestFirst <;>
    simpa [memory, LengthField.memory, hT, h] using hlt

theorem memory_exact : T.memory.Exact := LengthField.memory_exact _ _ _

theorem wrap_eq (h : n < T.bound) : T.wrap n = n := Nat.mod_eq_of_lt h

theorem bound_le : T.bound ≤ 2 ^ 64 := by
  calc 256 ^ T.sizeof ≤ 256 ^ 8 := Nat.pow_le_pow_right (by decide) T.sizeof_le
    _ = 2 ^ 64 := by decide

end LengthType

/-- The difference of two numbers of type `size_t`. -/
def sizeSub (m n : ℕ) : ℕ := (m + 2 ^ 64 - n) % 2 ^ 64

theorem sizeSub_eq {m n : ℕ} (hm : m < 2 ^ 64) (h : n ≤ m) : sizeSub m n = m - n := by
  have : m + 2 ^ 64 - n = m - n + 2 ^ 64 := by omega
  rw [sizeSub, this, Nat.add_mod_right, Nat.mod_eq_of_lt (by omega)]

/-- The conversion of a `size_t` to `int`. -/
def toInt (n : ℕ) : ℤ := Int.bmod n (2 ^ 32)

theorem toInt_eq {n : ℕ} (h : n < 2 ^ 31) : toInt n = n :=
  Int.bmod_eq_of_le_mul_two (by omega) (by omega)

/-! ## The buffer -/

/-- `FramedBuffer`: the length of a message, as soon as it is known, the bytes of the length
    and those of the message. -/
structure FramedBuffer where
  fullSize : ℕ
  sizeBuffer : List UInt8
  bytes : List UInt8
  deriving DecidableEq

namespace FramedBuffer

variable (T : LengthType)

/-- A buffer without data. -/
def empty : FramedBuffer := ⟨0, [], []⟩

/-- The part of `AddData` that adds to the message, with `bytesUsed` bytes of the data already
    used for the length. -/
def addBody (b : FramedBuffer) (data : List UInt8) (size bytesUsed : ℕ) : FramedBuffer × ℕ :=
  let byteCount := min (sizeSub size bytesUsed) (sizeSub b.fullSize b.bytes.length)
  ({ b with bytes := b.bytes ++ (data.drop bytesUsed).take byteCount },
    T.wrap (bytesUsed + byteCount))

/-- Adds to the length, and to the message once the length is there, and answers how many
    bytes of the data have been used. -/
def addData (b : FramedBuffer) (data : List UInt8) (size : ℕ) : FramedBuffer × ℕ :=
  if b.sizeBuffer.length < T.sizeof then
    let sizeByteCount := min size (sizeSub T.sizeof b.sizeBuffer.length)
    let sizeBuffer := b.sizeBuffer ++ data.take sizeByteCount
    let bytesUsed := T.wrap sizeByteCount
    if sizeBuffer.length = T.sizeof then
      addBody T { b with sizeBuffer, fullSize := T.memory.decode sizeBuffer } data size bytesUsed
    else ({ b with sizeBuffer }, bytesUsed)
  else addBody T b data size 0

/-- The buffer has a message. -/
def ready (b : FramedBuffer) : Bool :=
  b.sizeBuffer.length = T.sizeof && b.fullSize = b.bytes.length

/-- The buffer with the bytes `r` of a frame. -/
def holding (r : List UInt8) : FramedBuffer :=
  if r.length < T.sizeof then ⟨0, r, []⟩
  else ⟨T.memory.decode (r.take T.sizeof), r.take T.sizeof, r.drop T.sizeof⟩

/-- How many of some bytes belong to the frame that they start with. -/
def filled (s : List UInt8) : ℕ :=
  if s.length < T.sizeof then s.length
  else min s.length (T.sizeof + T.memory.decode (s.take T.sizeof))

variable {T} {r s t p x : List UInt8}

theorem holding_nil : holding T [] = empty := if_pos T.sizeof_pos

theorem filled_of_incomplete (h : T.memory.Incomplete s) : filled T s = s.length := by
  rw [filled]
  split
  · rfl
  · next hs =>
    have : s.length < T.sizeof + T.memory.decode (s.take T.sizeof) := h.resolve_left hs
    omega

theorem filled_frame_append (hp : p.length < T.bound) :
    filled T (T.memory.frame p ++ t) = (T.memory.frame p).length := by
  have hd := T.memory.decode_take_frame hp t
  rw [T.memory_width] at hd
  rw [filled, hd, List.length_append, LengthField.length_frame, T.memory_width,
    if_neg (by omega)]
  omega

theorem not_ready_of_incomplete (h : T.memory.Incomplete r) : (holding T r).ready T = false := by
  rw [holding]
  split
  · next hr => simp [ready, hr.ne]
  · next hr =>
    have := h.resolve_left hr
    rw [T.memory_width] at this
    have hne : T.memory.decode (r.take T.sizeof) ≠ r.length - T.sizeof := by omega
    simp [ready, hne]

theorem holding_frame (hp : p.length < T.bound) :
    holding T (T.memory.frame p) = ⟨p.length, T.memory.encode p.length, p⟩ := by
  have hd := T.memory.decode_take_frame hp []
  rw [List.append_nil, T.memory_width] at hd
  rw [holding, if_neg (by simp), hd, LengthField.frame, List.take_left' T.length_encode,
    List.drop_left' T.length_encode]

theorem ready_holding_frame (hp : p.length < T.bound) :
    (holding T (T.memory.frame p)).ready T = true := by
  simp [holding_frame hp, ready]

/-- Adding to the message, with the bytes `r` of a frame and `n` of the data used. -/
theorem addBody_eq {n : ℕ} (hw : T.sizeof ≤ r.length + n) (hn : n ≤ x.length)
    (hfull : r.length + n ≤ T.sizeof + T.memory.decode ((r ++ x).take T.sizeof))
    (hD : T.memory.decode ((r ++ x).take T.sizeof) < 2 ^ 64) (hx : x.length < T.bound) :
    addBody T ⟨T.memory.decode ((r ++ x).take T.sizeof), (r ++ x).take T.sizeof,
        ((r ++ x).take (r.length + n)).drop T.sizeof⟩ x x.length n =
      (holding T ((r ++ x).take (filled T (r ++ x))), filled T (r ++ x) - r.length) := by
  have hT := T.bound_le
  have hlen : (((r ++ x).take (r.length + n)).drop T.sizeof).length =
      r.length + n - T.sizeof := by
    simp only [List.length_drop, List.length_take, List.length_append]
    omega
  have hfilled : filled T (r ++ x) = min (r.length + x.length)
      (T.sizeof + T.memory.decode ((r ++ x).take T.sizeof)) := by
    rw [filled, List.length_append, if_neg (by omega)]
  rw [addBody, hlen, sizeSub_eq (by omega) hn, sizeSub_eq hD (by omega), hfilled]
  generalize hd : T.memory.decode ((r ++ x).take T.sizeof) = d at *
  -- the bytes added continue those of the frame
  have hcount : min (r.length + x.length) (T.sizeof + d) =
      r.length + n + min (x.length - n) (d - (r.length + n - T.sizeof)) := by omega
  generalize min (x.length - n) (d - (r.length + n - T.sizeof)) = m at *
  have hdrop : (r ++ x).drop (r.length + n) = x.drop n :=
    List.drop_length_add_append n
  have htake : (r ++ x).take (r.length + n + m) =
      (r ++ x).take (r.length + n) ++ (x.drop n).take m := by
    rw [List.take_add, hdrop]
  have hge : ¬ ((r ++ x).take (r.length + n + m)).length < T.sizeof := by
    rw [List.length_take, List.length_append]
    omega
  rw [hcount, holding, if_neg hge, List.take_take, Nat.min_eq_left (by omega), hd, htake,
    List.drop_append_of_le_length (by rw [List.length_take, List.length_append]; omega),
    T.wrap_eq (by omega), Nat.add_assoc, Nat.add_sub_cancel_left]

/-- Adding data, the buffer takes what its bytes lack of a frame, or all there is. -/
theorem addData_holding (hr : T.memory.Incomplete r) (hx : x.length < T.bound) :
    (holding T r).addData T x x.length =
      (holding T ((r ++ x).take (filled T (r ++ x))), filled T (r ++ x) - r.length) := by
  have hT := T.bound_le
  have hle := T.sizeof_le
  rw [addData]
  by_cases hw : r.length < T.sizeof
  · have hsub : sizeSub T.sizeof r.length = T.sizeof - r.length := sizeSub_eq (by omega) hw.le
    simp only [holding, if_pos hw, hsub]
    by_cases hlt : (r ++ x).length < T.sizeof
    · -- the length is still not there
      have hmin : min x.length (T.sizeof - r.length) = x.length := by
        rw [List.length_append] at hlt
        omega
      rw [hmin, List.take_length, if_neg hlt.ne, T.wrap_eq hx, filled, if_pos hlt,
        List.take_length, if_pos hlt, List.length_append, Nat.add_sub_cancel_left]
    · -- the length is complete now
      rw [List.length_append, Nat.not_lt] at hlt
      have hmin : min x.length (T.sizeof - r.length) = T.sizeof - r.length := by omega
      have hsize : r ++ x.take (T.sizeof - r.length) = (r ++ x).take T.sizeof := by
        rw [List.take_append, List.take_of_length_le hw.le]
      have hlen : ((r ++ x).take T.sizeof).length = T.sizeof := by
        rw [List.length_take, List.length_append]
        omega
      have hd := T.decode_lt hlen
      have h := addBody_eq (T := T) (r := r) (x := x) (n := T.sizeof - r.length)
        (by omega) (by omega) (by omega) (by omega) hx
      have hnil : ((r ++ x).take (r.length + (T.sizeof - r.length))).drop T.sizeof = [] := by
        rw [Nat.add_sub_cancel' hw.le, List.drop_eq_nil_of_le hlen.le]
      rw [hnil] at h
      rw [hmin, hsize, if_pos hlen, T.wrap_eq (by omega), h]
      rfl
  · -- only the message is not complete
    have hlt := hr.resolve_left hw
    rw [T.memory_width] at hlt
    rw [Nat.not_lt] at hw
    have hlen : (r.take T.sizeof).length = T.sizeof := by
      rw [List.length_take]
      omega
    have hd := T.decode_lt hlen
    have htake : (r ++ x).take T.sizeof = r.take T.sizeof := List.take_append_of_le_length hw
    have h := addBody_eq (T := T) (r := r) (x := x) (n := 0) hw (Nat.zero_le _)
      (by rw [htake]; omega) (by rw [htake]; omega) hx
    rw [htake, Nat.add_zero, List.take_left] at h
    rw [holding, if_neg hw.not_gt, if_neg hlen.not_lt, h]

/-- With data, an incomplete frame gets some of it. -/
theorem lt_filled (hr : T.memory.Incomplete r) (hx : x ≠ []) :
    r.length < filled T (r ++ x) := by
  have hpos := List.length_pos_of_ne_nil hx
  rw [filled, List.length_append]
  split
  · omega
  · by_cases hw : r.length < T.sizeof
    · omega
    · have hlt : r.length < T.sizeof + T.memory.decode (r.take T.sizeof) := hr.resolve_left hw
      rw [List.take_append_of_le_length (Nat.not_lt.1 hw)]
      omega

theorem filled_le : filled T s ≤ s.length := by
  rw [filled]
  split
  · exact le_rfl
  · exact Nat.min_le_left _ _

end FramedBuffer

/-! ## The protocol -/

/-- A message is too large to transfer. -/
structure MessageSizeError where
  what : String
  deriving DecidableEq

/-- What `Send` writes to the transport for a message that is serialized as `output`. -/
def sendBytes (T : LengthType) (output : List UInt8) :
    Except MessageSizeError (List (List UInt8)) :=
  if output.length > T.max then .error ⟨"Message too large to transfer"⟩
  else .ok [T.memory.encode (T.wrap output.length), output.take (T.wrap output.length)]

/-- `ProtobufProtocol`: its buffer, the arguments of the calls of `ParseFromArray` so far, and
    the messages handled. -/
structure ProtobufProtocol (MessageType : Type*) where
  buffer : FramedBuffer
  parsed : List (List UInt8 × ℤ)
  handled : List MessageType

namespace ProtobufProtocol

variable {MessageType : Type*} (T : LengthType) (serializeToString : MessageType → List UInt8)
  (parseFromArray : List UInt8 → ℤ → MessageType)

/-- The protocol of a connection that has just been made. -/
def fresh : ProtobufProtocol MessageType := ⟨.empty, [], []⟩

/-- The writes of `Send`, for one message after another. -/
def send : List MessageType → Except MessageSizeError (List (List UInt8))
  | [] => .ok []
  | message :: messages => do
    let writes ← sendBytes T (serializeToString message)
    let rest ← send messages
    return writes ++ rest

/-- Parses and handles the message in the buffer if it is ready. -/
def handleReady (p : ProtobufProtocol MessageType) : ProtobufProtocol MessageType :=
  if p.buffer.ready T then
    let size := toInt p.buffer.fullSize
    { buffer := .empty
      parsed := p.parsed ++ [(p.buffer.bytes, size)]
      handled := p.handled ++ [parseFromArray p.buffer.bytes size] }
  else p

/-- The loop of `OnDataReceived`, for so many rounds at most. -/
def receiveLoop (data : List UInt8) :
    ℕ → ProtobufProtocol MessageType → ℕ → Option (ProtobufProtocol MessageType)
  | 0, _, _ => none
  | fuel + 1, p, bytesUsed =>
    if bytesUsed < data.length then
      let (buffer, used) := p.buffer.addData T (data.drop bytesUsed)
        (T.wrap (data.length - bytesUsed))
      receiveLoop data fuel (handleReady T parseFromArray { p with buffer })
        (T.wrap (bytesUsed + used))
    else some p

/-- Takes a chunk of data. The loop of a chunk that is too large for the length type does not
    end. -/
def onDataReceived (p : ProtobufProtocol MessageType) (data : List UInt8) :
    Option (ProtobufProtocol MessageType) :=
  receiveLoop T parseFromArray data (data.length + 1) p 0

/-- Takes one chunk of data after another. -/
def receive : ProtobufProtocol MessageType → List (List UInt8) →
    Option (ProtobufProtocol MessageType)
  | p, [] => some p
  | p, data :: chunks => do receive (← onDataReceived T parseFromArray p data) chunks

/-- The protocol that has got the frames of some payloads and the bytes `r` of another one. -/
def after (payloads : List (List UInt8)) (r : List UInt8) : ProtobufProtocol MessageType where
  buffer := .holding T r
  parsed := payloads.map fun payload => (payload, ↑payload.length)
  handled := payloads.map fun payload => parseFromArray payload payload.length

variable {T serializeToString parseFromArray} {d ps : List (List UInt8)}
  {r data : List UInt8}

/-! ### What the loop does -/

variable (T parseFromArray) in
/-- The protocol after handing over some payloads, with some bytes behind them in its
    buffer. -/
def handOver (p : ProtobufProtocol MessageType) (s : List (List UInt8) × List UInt8) :
    ProtobufProtocol MessageType where
  buffer := .holding T s.2
  parsed := p.parsed ++ s.1.map fun payload => (payload, toInt payload.length)
  handled := p.handled ++ s.1.map fun payload => parseFromArray payload (toInt payload.length)

variable {p : ProtobufProtocol MessageType} {fuel n : ℕ}

theorem handOver_handOver (s t : List (List UInt8) × List UInt8) :
    (p.handOver T parseFromArray s).handOver T parseFromArray t =
      p.handOver T parseFromArray (s.1 ++ t.1, t.2) := by
  simp [handOver]

theorem handOver_nil (hp : p.buffer = .holding T r) : p.handOver T parseFromArray ([], r) = p := by
  simp [handOver, ← hp]

theorem handleReady_of_incomplete (h : T.memory.Incomplete r) :
    handleReady T parseFromArray { p with buffer := .holding T r } =
      p.handOver T parseFromArray ([], r) := by
  rw [handleReady, FramedBuffer.not_ready_of_incomplete h, if_neg Bool.false_ne_true, handOver,
    List.map_nil, List.map_nil, List.append_nil, List.append_nil]

theorem handleReady_frame {payload : List UInt8} (h : payload.length < T.bound) :
    handleReady T parseFromArray { p with buffer := .holding T (T.memory.frame payload) } =
      p.handOver T parseFromArray ([payload], []) := by
  rw [handleReady, FramedBuffer.ready_holding_frame h, if_pos rfl, handOver,
    FramedBuffer.holding_frame h, FramedBuffer.holding_nil]
  rfl

/-- What is added in a round of the loop. -/
theorem addData_round (hT : data.length < T.bound) (hr : T.memory.Incomplete r) :
    (FramedBuffer.holding T r).addData T (data.drop n) (T.wrap (data.length - n)) =
      (.holding T ((r ++ data.drop n).take (FramedBuffer.filled T (r ++ data.drop n))),
        FramedBuffer.filled T (r ++ data.drop n) - r.length) := by
  have hdrop : (data.drop n).length = data.length - n := List.length_drop
  rw [T.wrap_eq (by omega), ← hdrop]
  exact FramedBuffer.addData_holding hr (by omega)

/-- A round of the loop goes on in the chunk. -/
theorem round_bounds (hn : n < data.length) (hr : T.memory.Incomplete r) :
    n < n + (FramedBuffer.filled T (r ++ data.drop n) - r.length) ∧
      n + (FramedBuffer.filled T (r ++ data.drop n) - r.length) ≤ data.length := by
  have hdrop : (data.drop n).length = data.length - n := List.length_drop
  have hlt := FramedBuffer.lt_filled (x := data.drop n) hr
    (List.ne_nil_of_length_pos (by omega))
  have hle := FramedBuffer.filled_le (T := T) (s := r ++ data.drop n)
  rw [List.length_append] at hle
  omega

variable (parseFromArray) in
theorem receiveLoop_round (fuel : ℕ) (hT : data.length < T.bound) (hn : n < data.length)
    (hp : p.buffer = .holding T r) (hr : T.memory.Incomplete r) :
    receiveLoop T parseFromArray data (fuel + 1) p n =
      receiveLoop T parseFromArray data fuel
        (handleReady T parseFromArray
          { p with buffer :=
              .holding T ((r ++ data.drop n).take (FramedBuffer.filled T (r ++ data.drop n))) })
        (n + (FramedBuffer.filled T (r ++ data.drop n) - r.length)) := by
  rw [receiveLoop, if_pos hn, hp, addData_round hT hr]
  simp only [T.wrap_eq ((round_bounds hn hr).2.trans_lt hT)]

/-- A round of the loop takes the rest of a chunk that ends before the frame does. -/
theorem receiveLoop_of_incomplete (hT : data.length < T.bound) (hn : n < data.length)
    (hp : p.buffer = .holding T r) (hr : T.memory.Incomplete r)
    (hy : T.memory.Incomplete (r ++ data.drop n)) :
    receiveLoop T parseFromArray data (fuel + 1) p n =
      receiveLoop T parseFromArray data fuel
        (p.handOver T parseFromArray ([], r ++ data.drop n)) data.length := by
  have hend : n + ((r ++ data.drop n).length - r.length) = data.length := by
    rw [List.length_append, List.length_drop]
    omega
  rw [receiveLoop_round _ _ hT hn hp hr, FramedBuffer.filled_of_incomplete hy, List.take_length,
    handleReady_of_incomplete hy, hend]

variable (parseFromArray) in
/-- A round of the loop hands over the payload whose frame ends in the chunk, and goes on with
    what is behind the frame. -/
theorem receiveLoop_of_frame (fuel : ℕ) (hT : data.length < T.bound) (hn : n < data.length)
    (hp : p.buffer = .holding T r) (hr : T.memory.Incomplete r) {q t : List UInt8}
    (hq : q.length < T.bound) (hy : r ++ data.drop n = T.memory.frame q ++ t) :
    ∃ n', n < n' ∧ n' ≤ data.length ∧ data.drop n' = t ∧
      receiveLoop T parseFromArray data (fuel + 1) p n =
        receiveLoop T parseFromArray data fuel (p.handOver T parseFromArray ([q], [])) n' := by
  obtain ⟨hlt, hle⟩ := round_bounds hn hr
  have hloop := receiveLoop_round parseFromArray fuel hT hn hp hr
  rw [hy, FramedBuffer.filled_frame_append hq] at hlt hle hloop
  rw [List.take_left, handleReady_frame hq] at hloop
  refine ⟨_, hlt, hle, ?_, hloop⟩
  have hdrop := congrArg (List.drop (T.memory.frame q).length) hy
  rwa [List.drop_left, List.drop_append, List.drop_of_length_le (by omega), List.nil_append,
    List.drop_drop] at hdrop

variable (parseFromArray) in
/-- Some rounds of the loop take the rest of a chunk: they hand over the payloads whose frames
    end in it, and leave the rest in the buffer. -/
theorem receiveLoop_eq (hT : data.length < T.bound) (hfuel : data.length < fuel + n)
    (hn : n ≤ data.length) (hp : p.buffer = .holding T r) (hr : T.memory.Incomplete r) :
    receiveLoop T parseFromArray data fuel p n =
      some (p.handOver T parseFromArray (T.memory.deframe (r ++ data.drop n))) := by
  induction fuel generalizing n r p with
  | zero => omega
  | succ fuel ih =>
    by_cases hlt : n < data.length
    · by_cases hy : T.memory.Incomplete (r ++ data.drop n)
      · -- the chunk ends before the frame
        rw [receiveLoop_of_incomplete hT hlt hp hr hy, ih (by omega) le_rfl rfl hy,
          handOver_handOver, List.drop_length, List.append_nil,
          LengthField.deframe_of_incomplete hy]
        rfl
      · -- a frame ends in the chunk
        obtain ⟨q, t, hq, hqt⟩ := LengthField.exists_frame T.memory_exact hy
        obtain ⟨n', hnn', hn', hrest, hloop⟩ := receiveLoop_of_frame parseFromArray fuel
          hT hlt hp hr hq hqt
        rw [hloop, ih (by omega) hn' rfl T.memory.incomplete_nil, handOver_handOver, hrest, hqt,
          LengthField.deframe_frame_append hq]
        rfl
    · rw [receiveLoop, if_neg hlt, List.drop_of_length_le (by omega), List.append_nil,
        LengthField.deframe_of_incomplete hr, handOver_nil hp]

variable (parseFromArray) in
/-- After some chunks, the payloads whose frames end in them have been handed over, and the
    rest is in the buffer. -/
theorem receive_eq {chunks : List (List UInt8)} (hT : ∀ c ∈ chunks, c.length < T.bound)
    (hp : p.buffer = .holding T r) (hr : T.memory.Incomplete r) :
    receive T parseFromArray p chunks =
      some (p.handOver T parseFromArray (T.memory.deframe (r ++ chunks.flatten))) := by
  induction chunks generalizing p r with
  | nil =>
    rw [receive, List.flatten_nil, List.append_nil, LengthField.deframe_of_incomplete hr,
      handOver_nil hp]
  | cons data chunks ih =>
    obtain ⟨hdata, hchunks⟩ := List.forall_mem_cons.1 hT
    rw [receive, onDataReceived, receiveLoop_eq _ hdata (by omega) (Nat.zero_le _) hp hr,
      List.drop_zero, List.flatten_cons, ← List.append_assoc,
      LengthField.deframe_append T.memory_exact (r ++ data)]
    refine (ih hchunks rfl (LengthField.incomplete_deframe T.memory_exact _)).trans ?_
    rw [handOver_handOver]

theorem receive_append (p : ProtobufProtocol MessageType) (chunks chunks' : List (List UInt8)) :
    receive T parseFromArray p (chunks ++ chunks') =
      (receive T parseFromArray p chunks).bind fun p => receive T parseFromArray p chunks' := by
  induction chunks generalizing p with
  | nil => rfl
  | cons data chunks ih =>
    rw [List.cons_append, receive, receive, Option.bind_eq_bind, Option.bind_assoc]
    exact Option.bind_congr fun p _ => ih p

/-! ### Sending and receiving -/

/-- What is sent is the stream of the frames of the messages. -/
theorem send_eq {messages : List MessageType}
    (h : ∀ m ∈ messages, (serializeToString m).length < T.bound) :
    ∃ writes, send T serializeToString messages = .ok writes ∧
      writes.flatten = T.memory.frames (messages.map serializeToString) := by
  induction messages with
  | nil => exact ⟨[], rfl, rfl⟩
  | cons m messages ih =>
    obtain ⟨writes, hs, hw⟩ := ih fun m' hm' => h m' (List.mem_cons_of_mem _ hm')
    have hm := h m List.mem_cons_self
    have hmax : ¬ (serializeToString m).length > T.max := by
      rw [LengthType.max]
      omega
    refine ⟨_, by rw [send, sendBytes, if_neg hmax, hs]; rfl, ?_⟩
    rw [T.wrap_eq hm, List.take_length, List.flatten_append, hw]
    simp [LengthField.frame]

theorem handOver_fresh (hd : ∀ p ∈ d, p.length < 2 ^ 31) :
    fresh.handOver T parseFromArray (d, r) = after T parseFromArray d r := by
  have hparsed : d.map (fun payload => (payload, toInt payload.length)) =
      d.map fun payload => (payload, ↑payload.length) :=
    List.map_congr_left fun p hp => by rw [toInt_eq (hd p hp)]
  have hhandled : d.map (fun payload => parseFromArray payload (toInt payload.length)) =
      d.map fun payload => parseFromArray payload payload.length :=
    List.map_congr_left fun p hp => by rw [toInt_eq (hd p hp)]
  rw [handOver, hparsed, hhandled, after, fresh, List.nil_append, List.nil_append]

variable (parseFromArray) in
/-- On a fresh connection, some chunks of a stream hand over the payloads whose frames end in
    them. -/
theorem receive_fresh {chunks : List (List UInt8)} (hT : ∀ c ∈ chunks, c.length < T.bound)
    (hps : ∀ p ∈ ps, p.length < T.bound ∧ p.length < 2 ^ 31)
    (hs : chunks.flatten <+: T.memory.frames ps) :
    ∃ k r', chunks.flatten = T.memory.frames (ps.take k) ++ r' ∧
      receive T parseFromArray fresh chunks = some (after T parseFromArray (ps.take k) r') ∧
      ∀ j ≤ ps.length,
        (T.memory.frames (ps.take j)).length ≤ chunks.flatten.length ↔ j ≤ k := by
  obtain ⟨k, r', he, hr'⟩ := LengthField.exists_frames_take (fun p hp => (hps p hp).1) hs
  have hread : T.memory.deframe chunks.flatten = (ps.take k, r') := by
    rw [he, LengthField.deframe_frames_append fun p hp => (hps p (List.mem_of_mem_take hp)).1,
      LengthField.deframe_of_incomplete hr', List.append_nil]
  have h := receive_eq parseFromArray hT
    (show fresh.buffer = .holding T [] from FramedBuffer.holding_nil.symm)
    T.memory.incomplete_nil
  rw [List.nil_append, hread] at h
  refine ⟨k, r', he, h.trans (congrArg some (handOver_fresh fun p hp => ?_)), fun j hj => ?_⟩
  · exact (hps p (List.mem_of_mem_take hp)).2
  · rw [he] at hs ⊢
    exact LengthField.frames_take_le_iff (fun p hp => (hps p hp).1) hj hs hr'

/-- A message is handed over when its frame is complete: however the output of `Send` is cut
    into chunks, the other side parses and handles the same messages, in order, and after some
    of the chunks just those whose frames end in them. -/
theorem receive_send (lowestFirst : Bool) (serializeToString : MessageType → List UInt8)
    (parseFromArray : List UInt8 → ℤ → MessageType) (messages : List MessageType)
    (h : ∀ m ∈ messages, (serializeToString m).length < 2 ^ 31) :
    ∃ writes, send (.uint32 lowestFirst) serializeToString messages = .ok writes ∧
      ∀ chunks : List (List UInt8), (∀ c ∈ chunks, c ≠ [] ∧ c.length < 2 ^ 32) →
        chunks.flatten = writes.flatten →
        receive (.uint32 lowestFirst) parseFromArray fresh chunks = some
          { buffer := .empty
            parsed := messages.map fun m => (serializeToString m, ↑(serializeToString m).length)
            handled := messages.map fun m =>
              parseFromArray (serializeToString m) (serializeToString m).length } ∧
        ∀ n, ∃ k p, receive (.uint32 lowestFirst) parseFromArray fresh (chunks.take n) = some p ∧
          p.parsed = (messages.take k).map (fun m =>
            (serializeToString m, ↑(serializeToString m).length)) ∧
          p.handled = (messages.take k).map (fun m =>
            parseFromArray (serializeToString m) (serializeToString m).length) ∧
          ∀ j ≤ messages.length, ∀ writes',
            send (.uint32 lowestFirst) serializeToString (messages.take j) = .ok writes' →
            (writes'.flatten.length ≤ (chunks.take n).flatten.length ↔ j ≤ k) := by
  have hbound : (LengthType.uint32 lowestFirst).bound = 2 ^ 32 := rfl
  have hT : ∀ m ∈ messages, (serializeToString m).length <
      (LengthType.uint32 lowestFirst).bound := fun m hm => by
    have := h m hm
    omega
  have hps : ∀ p ∈ messages.map serializeToString,
      p.length < (LengthType.uint32 lowestFirst).bound ∧ p.length < 2 ^ 31 := by
    rw [List.forall_mem_map]
    exact fun m hm => ⟨hT m hm, h m hm⟩
  obtain ⟨writes, hs, hw⟩ := send_eq hT
  refine ⟨writes, hs, fun chunks hc hcut => ⟨?_, fun n => ?_⟩⟩
  · -- the whole stream
    have hcs : ∀ c ∈ chunks, c.length < (LengthType.uint32 lowestFirst).bound :=
      fun c hc' => hbound ▸ (hc c hc').2
    rw [hw] at hcut
    -- All bytes have come, so all payloads have been handed over and nothing is left.
    obtain ⟨k, r', he, hrun, hk⟩ := receive_fresh parseFromArray hcs hps (hcut ▸ List.prefix_rfl)
    have hall := (hk _ le_rfl).1 (by rw [List.take_length, hcut])
    rw [List.take_of_length_le hall] at he hrun
    rw [hcut] at he
    rw [hrun, List.self_eq_append_right.1 he, after, FramedBuffer.holding_nil, List.map_map,
      List.map_map]
    rfl
  · -- some of its chunks
    have hcs : ∀ c ∈ chunks.take n, c.length < (LengthType.uint32 lowestFirst).bound :=
      fun c hc' => hbound ▸ (hc c (List.mem_of_mem_take hc')).2
    have hpre : (chunks.take n).flatten <+: (LengthType.uint32 lowestFirst).memory.frames
        (messages.map serializeToString) := by
      rw [← hw, ← hcut, ← List.take_append_drop n chunks, List.flatten_append,
        List.take_append_drop]
      exact List.prefix_append _ _
    obtain ⟨k, r', -, hrun, hk⟩ := receive_fresh parseFromArray hcs hps hpre
    refine ⟨k, _, hrun, ?_, ?_, fun j hj writes' hs' => ?_⟩
    · simp only [after, ← List.map_take, List.map_map, Function.comp_def]
    · simp only [after, ← List.map_take, List.map_map, Function.comp_def]
    · -- A message has been handed over exactly if its last byte has come.
      obtain ⟨w, hsj, hwj⟩ := send_eq fun m hm => hT m (List.mem_of_mem_take (i := j) hm)
      obtain rfl : w = writes' := Except.ok.inj (hsj.symm.trans hs')
      rw [hwj, List.map_take]
      exact hk j (by rwa [List.length_map])

/-- Two messages and an empty one between them, cut inside a length, between the frames and
    inside a message. -/
theorem receive_send_three :
    receive (.uint32 true) (fun data size => data.take size.toNat) fresh
        [[2, 0], [0, 0, 7], [8, 0, 0, 0, 0], [1, 0, 0, 0, 9]] =
      some ⟨.empty, [([7, 8], 2), ([], 0), ([9], 1)], [[7, 8], [], [9]]⟩ := by
  obtain ⟨writes, hs, h⟩ := receive_send true id (fun data size => data.take size.toNat)
    [[7, 8], [], [9]] (by decide)
  obtain rfl : [[2, 0, 0, 0], [7, 8], [0, 0, 0, 0], [], [1, 0, 0, 0], [9]] = writes :=
    Except.ok.inj hs
  exact (h [[2, 0], [0, 0, 7], [8, 0, 0, 0, 0], [1, 0, 0, 0, 9]] (by decide) rfl).1

end ProtobufProtocol

end SysAdmin
