import SysAdmin.ProtobufProtocol

/-!
# Chunks and the length type

The loop of `OnDataReceived` counts the bytes of a chunk that it has used in a variable of the
length type. If the chunk has fewer bytes than the type has values, the loop goes through it
once, from the first byte to the last one, whatever is in the buffer (`rounds_eq`). Otherwise
the counter never gets to the end of the chunk (`lt_bound_of_receiveLoop`).
-/

namespace SysAdmin

open Framing

namespace FramedBuffer

/-- The bytes that a buffer has got. -/
def added (b b' : FramedBuffer) : List UInt8 :=
  b'.sizeBuffer.drop b.sizeBuffer.length ++ b'.bytes.drop b.bytes.length

theorem sizeBuffer_holding {T : LengthType} (r : List UInt8) :
    (holding T r).sizeBuffer = r.take T.sizeof := by
  rw [holding]
  split
  · next hr => exact (List.take_of_length_le hr.le).symm
  · rfl

theorem bytes_holding {T : LengthType} (r : List UInt8) :
    (holding T r).bytes = r.drop T.sizeof := by
  rw [holding]
  split
  · next hr => exact (List.drop_of_length_le hr.le).symm
  · rfl

theorem added_holding {T : LengthType} (r x : List UInt8) :
    (holding T r).added (holding T (r ++ x)) = x := by
  rw [added, sizeBuffer_holding, sizeBuffer_holding, bytes_holding, bytes_holding,
    List.take_append, List.drop_left, List.drop_append, List.drop_left, List.take_append_drop]

end FramedBuffer

namespace ProtobufProtocol

variable {MessageType : Type*} (T : LengthType) (parseFromArray : List UInt8 → ℤ → MessageType)

/-- The rounds of the loop: where in the chunk each one starts, and the bytes that it adds to
    the buffer. -/
def rounds (data : List UInt8) :
    ℕ → ProtobufProtocol MessageType → ℕ → List (ℕ × List UInt8)
  | 0, _, _ => []
  | fuel + 1, p, bytesUsed =>
    if bytesUsed < data.length then
      let (buffer, used) := p.buffer.addData T (data.drop bytesUsed)
        (T.wrap (data.length - bytesUsed))
      (bytesUsed, p.buffer.added buffer) ::
        rounds data fuel (handleReady T parseFromArray { p with buffer })
          (T.wrap (bytesUsed + used))
    else []

/-- The positions of the chunk that a round goes through. -/
def positions (round : ℕ × List UInt8) : List ℕ := List.range' round.1 round.2.length

/-- The loop ends, and has gone through each position of the chunk once and added the byte
    there to the buffer. -/
def ConsumesAll (p : ProtobufProtocol MessageType) (data : List UInt8) : Prop :=
  ∃ fuel, (receiveLoop T parseFromArray data fuel p 0).isSome ∧
    (rounds T parseFromArray data fuel p 0).flatMap positions = List.range data.length ∧
    (rounds T parseFromArray data fuel p 0).flatMap Prod.snd = data

variable {T parseFromArray} {data r : List UInt8} {p p' : ProtobufProtocol MessageType} {fuel n : ℕ}

/-- The counter stays below the bound of its type, so a loop that ends is one over a shorter
    chunk. -/
theorem lt_bound_of_receiveLoop (hn : n < T.bound)
    (h : receiveLoop T parseFromArray data fuel p n = some p') : data.length < T.bound := by
  induction fuel generalizing p n with
  | zero => simp [receiveLoop] at h
  | succ fuel ih =>
    rw [receiveLoop] at h
    split at h
    · exact ih (Nat.mod_lt _ (Nat.pow_pos (by decide))) h
    · omega

/-- What has been received leaves the bytes of an incomplete frame in the buffer. -/
theorem exists_holding {chunks : List (List UInt8)}
    (h : receive T parseFromArray p chunks = some p') (hp : p.buffer = .holding T r)
    (hr : T.memory.Incomplete r) :
    ∃ r', p'.buffer = .holding T r' ∧ T.memory.Incomplete r' := by
  induction chunks generalizing p r with
  | nil =>
    obtain rfl : p = p' := Option.some.inj h
    exact ⟨r, hp, hr⟩
  | cons data chunks ih =>
    obtain ⟨p₁, h₁, h⟩ := Option.bind_eq_some_iff.1 h
    have hT : data.length < T.bound := lt_bound_of_receiveLoop (Nat.pow_pos (by decide)) h₁
    have heq := receiveLoop_eq parseFromArray hT (Nat.lt_succ_self _)
      (Nat.zero_le _) hp hr
    obtain rfl := Option.some.inj (heq.symm.trans h₁)
    exact ih h rfl (LengthField.incomplete_deframe T.memory_exact _)

/-- After a round, there is an incomplete frame in the buffer. -/
theorem exists_handleReady (p : ProtobufProtocol MessageType) (y : List UInt8) :
    ∃ s, T.memory.Incomplete s.2 ∧
      handleReady T parseFromArray
        { p with buffer := .holding T (y.take (FramedBuffer.filled T y)) } =
        p.handOver T parseFromArray s := by
  by_cases hy : T.memory.Incomplete y
  · refine ⟨([], y), hy, ?_⟩
    rw [FramedBuffer.filled_of_incomplete hy, List.take_length, handleReady_of_incomplete hy]
  · obtain ⟨q, t, hq, rfl⟩ := LengthField.exists_frame T.memory_exact hy
    refine ⟨([q], []), T.memory.incomplete_nil, ?_⟩
    rw [FramedBuffer.filled_frame_append hq, List.take_left, handleReady_frame hq]

/-- A round adds the next bytes of the chunk. -/
theorem added_round {n : ℕ}
    (hle : r.length ≤ FramedBuffer.filled T (r ++ data.drop n)) :
    (FramedBuffer.holding T r).added
        (.holding T ((r ++ data.drop n).take (FramedBuffer.filled T (r ++ data.drop n)))) =
      (data.drop n).take (FramedBuffer.filled T (r ++ data.drop n) - r.length) := by
  rw [List.take_append, List.take_of_length_le hle, FramedBuffer.added_holding]

variable (parseFromArray) in
/-- The rounds go through the rest of the chunk, from one position to the next one. -/
theorem rounds_eq (hT : data.length < T.bound) (hfuel : data.length < fuel + n)
    (hn : n ≤ data.length) (hp : p.buffer = .holding T r) (hr : T.memory.Incomplete r) :
    (rounds T parseFromArray data fuel p n).flatMap positions =
        List.range' n (data.length - n) ∧
      (rounds T parseFromArray data fuel p n).flatMap Prod.snd = data.drop n := by
  induction fuel generalizing n r p with
  | zero => omega
  | succ fuel ih =>
    by_cases hlt : n < data.length
    · obtain ⟨hgt, hle⟩ := round_bounds hlt hr
      have hfilled : r.length ≤ FramedBuffer.filled T (r ++ data.drop n) := by omega
      rw [rounds, if_pos hlt, hp, addData_round hT hr]
      have hadded := added_round hfilled
      generalize r ++ data.drop n = y at *
      generalize FramedBuffer.filled T y - r.length = k at *
      have hlen : ((data.drop n).take k).length = k := by
        rw [List.length_take, List.length_drop]
        omega
      -- What is ready is handed over, and an incomplete rest remains for the next round.
      obtain ⟨s, hs, hready⟩ := @exists_handleReady _ T parseFromArray p y
      simp only [hadded, hready, T.wrap_eq (hle.trans_lt hT), List.flatMap_cons]
      obtain ⟨hpos, hbytes⟩ := ih (r := s.2) (p := p.handOver T parseFromArray s) (n := n + k)
        (by omega) hle rfl hs
      rw [hpos, hbytes, positions, hlen, ← List.drop_drop, List.take_append_drop]
      refine ⟨?_, rfl⟩
      rw [List.range'_append_1]
      congr 1
      omega
    · rw [rounds, if_neg hlt, List.drop_of_length_le (by omega),
        Nat.sub_eq_zero_of_le (by omega)]
      exact ⟨rfl, rfl⟩

/-- Whatever has been received before, the loop takes each byte of a chunk once exactly if the
    chunk has fewer bytes than the length type has values. -/
theorem consumesAll_iff {chunks : List (List UInt8)}
    (h : receive T parseFromArray fresh chunks = some p) (data : List UInt8) :
    ConsumesAll T parseFromArray p data ↔ data.length < T.bound := by
  have hfresh : (fresh : ProtobufProtocol MessageType).buffer = .holding T [] :=
    FramedBuffer.holding_nil.symm
  obtain ⟨r, hp, hr⟩ := exists_holding h hfresh T.memory.incomplete_nil
  constructor
  · rintro ⟨fuel, hsome, -⟩
    obtain ⟨p', hp'⟩ := Option.isSome_iff_exists.1 hsome
    exact lt_bound_of_receiveLoop (Nat.pow_pos (by decide)) hp'
  · intro hT
    have hloop := receiveLoop_eq parseFromArray hT (Nat.lt_succ_self _)
      (Nat.zero_le _) hp hr
    obtain ⟨hpos, hbytes⟩ := rounds_eq parseFromArray hT
      (Nat.lt_succ_self _) (Nat.zero_le _) hp hr
    refine ⟨data.length + 1, by rw [hloop]; rfl, ?_, hbytes⟩
    rw [hpos, List.range_eq_range', Nat.sub_zero]

/-- A chunk that goes on with a length and ends in the next frame. -/
theorem consumesAll_two :
    ConsumesAll (.uint16 true) (fun data size => data.take size.toNat)
      ⟨⟨0, [1], []⟩, [], []⟩ [0, 7, 2] :=
  (consumesAll_iff (show receive _ _ fresh [[1]] = some _ from rfl) [0, 7, 2]).2 (by decide)

/-- No number of rounds gets through a chunk of 65536 bytes with a counter of type
    `uint16_t`. -/
theorem not_consumesAll_uint16 :
    ¬ ConsumesAll (.uint16 true) (fun data size => data.take size.toNat) fresh
      (List.replicate 65536 0) := by
  rintro ⟨fuel, hsome, -⟩
  obtain ⟨p', hp'⟩ := Option.isSome_iff_exists.1 hsome
  have hlt := lt_bound_of_receiveLoop (by decide) hp'
  rw [List.length_replicate] at hlt
  exact absurd hlt (by decide)

end ProtobufProtocol

end SysAdmin
