import Mathlib.Algebra.BigOperators.Group.Finset.Basic
import SysAdmin.ProtobufProtocol

/-!
# Responses to the Python client

The client writes the frame of its message and reads that of the response: the length with one
call of `recv`, and the message in a loop (`fullRecv`), which goes on until it has all bytes. A call
of `recv` gives some of the bytes that have arrived, at most as many as it is asked for; none, if
the other side has closed the connection.

* `Stream`: a connection that has the bytes of a response, of which some are there for each call;
* `send_iff`: the response is returned exactly if the first call gives the whole length;
* `terminates_iff`: whatever the calls give, the loop ends exactly if one of them raises an
  exception, or they give as many bytes as have been announced.
-/

namespace SysAdmin

namespace SysAdminClient

open Framing

/-- What a method comes to: it may not have returned yet. -/
inductive Outcome (α : Type)
  | running
  | raised
  | returned (a : α)

/-! ## Reading -/

section

variable {σ : Type} (recv : ℕ → σ → Option (List UInt8 × σ))

/-- Reads as many bytes as are left, behind those read before. The fuel bounds the rounds of the
    loop. -/
def fullRecv : ℕ → ℕ → List UInt8 → σ → Outcome (List UInt8 × σ)
  | 0, _, _, _ => .running
  | fuel + 1, bytesLeft, outData, s =>
    if bytesLeft > 0 then
      match recv (min bytesLeft 4096) s with
      | none => .raised
      | some (data, s) => fullRecv fuel (bytesLeft - data.length) (outData ++ data) s
    else .returned (outData, s)

/-- `struct.pack` of a length. -/
def pack (lowestFirst : Bool) (n : ℕ) : Option (List UInt8) :=
  if n < (LengthType.uint32 lowestFirst).bound then
    some ((LengthType.uint32 lowestFirst).memory.encode n)
  else none

/-- `struct.unpack` of a length, which takes the bytes of one. -/
def unpack (lowestFirst : Bool) (data : List UInt8) : Option ℕ :=
  if data.length = 4 then some ((LengthType.uint32 lowestFirst).memory.decode data) else none

variable {Command Response : Type} (lowestFirst : Bool) (fromString : List UInt8 → Option Response)

/-- Reads a response. -/
def receiveResponse (fuel : ℕ) (s : σ) : Outcome (Response × σ) :=
  match recv 4 s with
  | none => .raised
  | some (length, s) =>
    match unpack lowestFirst length with
    | none => .raised
    | some recvlen =>
      match fullRecv recv fuel recvlen [] s with
      | .running => .running
      | .raised => .raised
      | .returned (data, s) =>
        match fromString data with
        | none => .raised
        | some response => .returned (response, s)

/-- What is written for a message. -/
def written (serializeToString : Command → List UInt8) (message : Command) :
    Option (List UInt8) :=
  let data := serializeToString message
  (pack lowestFirst data.length).map fun length => length ++ data

/-- Sends a message and reads the response to it. -/
def send (serializeToString : Command → List UInt8) (fuel : ℕ) (message : Command) (s : σ) :
    Option (List UInt8) × Outcome (Response × σ) :=
  match written lowestFirst serializeToString message with
  | none => (none, .raised)
  | some data => (some data, receiveResponse recv lowestFirst fromString fuel s)

end

/-! ## Streams that are cut anywhere -/

/-- The bytes that have not been read yet, and how many of them are there for each call. -/
structure Stream where
  unread : List UInt8
  arrivals : ℕ → ℕ

namespace Stream

/-- Reads from a stream. -/
def recv (n : ℕ) (s : Stream) : Option (List UInt8 × Stream) :=
  let m := min n (s.arrivals 0)
  some (s.unread.take m, ⟨s.unread.drop m, fun i => s.arrivals (i + 1)⟩)

variable {s : Stream} {fuel bytesLeft : ℕ} {outData : List UInt8}

/-- However the stream is cut, the loop reads the bytes that it is to read, and leaves the
    others. -/
theorem fullRecv_eq (hs : ∀ i, 0 < s.arrivals i) (hleft : bytesLeft ≤ s.unread.length)
    (hfuel : bytesLeft < fuel) :
    ∃ s', fullRecv recv fuel bytesLeft outData s =
      .returned (outData ++ s.unread.take bytesLeft, s') ∧
        s'.unread = s.unread.drop bytesLeft := by
  induction fuel generalizing s bytesLeft outData with
  | zero => omega
  | succ fuel ih =>
    by_cases hpos : bytesLeft > 0
    · -- A round reads at least one byte, and none that is not to be read.
      obtain ⟨m, hm⟩ : ∃ m, m = min (min bytesLeft 4096) (s.arrivals 0) := ⟨_, rfl⟩
      have h₀ := hs 0
      have hm₀ : 0 < m ∧ m ≤ bytesLeft := by omega
      have hlen : (s.unread.take m).length = m := by
        rw [List.length_take]
        omega
      have hrest : bytesLeft - m ≤ (s.unread.drop m).length := by
        rw [List.length_drop]
        omega
      obtain ⟨s', hrun, hunread⟩ := @ih ⟨s.unread.drop m, fun i => s.arrivals (i + 1)⟩
        (bytesLeft - m) (outData ++ s.unread.take m) (fun i => hs (i + 1)) hrest (by omega)
      have hsum : m + (bytesLeft - m) = bytesLeft := by omega
      refine ⟨s', ?_, ?_⟩
      · simp only [fullRecv, if_pos hpos, recv, ← hm, hlen]
        rw [hrun, List.append_assoc, ← List.take_add, hsum]
      · rw [hunread, List.drop_drop, hsum]
    · obtain rfl : bytesLeft = 0 := by omega
      exact ⟨s, by simp [fullRecv], rfl⟩

end Stream

section

variable {Command Response : Type} {lowestFirst : Bool} {serializeToString : Command → List UInt8}
  {serializeResponse : Response → List UInt8} {fromString : List UInt8 → Option Response}
  {message : Command} {response : Response} {writes : List (List UInt8)} {arrivals : ℕ → ℕ}

/-- What is written for a response is its frame. -/
theorem flatten_sendBytes {output : List UInt8}
    (h : sendBytes (.uint32 lowestFirst) output = .ok writes) :
    output.length < (LengthType.uint32 lowestFirst).bound ∧
      writes.flatten = (LengthType.uint32 lowestFirst).memory.frame output := by
  have hpos : 0 < (LengthType.uint32 lowestFirst).bound := Nat.pow_pos (by decide)
  rw [sendBytes, LengthType.max] at h
  split at h
  · cases h
  · have hlt : output.length < (LengthType.uint32 lowestFirst).bound := by omega
    refine ⟨hlt, ?_⟩
    rw [← Except.ok.inj h, LengthType.wrap_eq hlt, List.take_length]
    simp [LengthField.frame]

/-- The response is returned, and none of its bytes is left, exactly if the first call of `recv`
    gives the whole length. -/
theorem send_iff (hparse : ∀ response, fromString (serializeResponse response) = some response)
    (hmessage : (written lowestFirst serializeToString message).isSome = true)
    (hwrites : sendBytes (.uint32 lowestFirst) (serializeResponse response) = .ok writes)
    (harrivals : ∀ i, 0 < arrivals i) :
    (∃ fuel s, (send Stream.recv lowestFirst fromString serializeToString fuel message
      ⟨writes.flatten, arrivals⟩).2 = .returned (response, s) ∧ s.unread = []) ↔
        4 ≤ arrivals 0 := by
  obtain ⟨data, hdata⟩ := Option.isSome_iff_exists.1 hmessage
  obtain ⟨hbound, hframe⟩ := flatten_sendBytes hwrites
  have hlen : ((LengthType.uint32 lowestFirst).memory.encode
      (serializeResponse response).length).length = 4 := LengthType.length_encode
  simp only [send, hdata, receiveResponse, Stream.recv, hframe, LengthField.frame]
  by_cases h : 4 ≤ arrivals 0
  · refine iff_of_true ?_ h
    rw [Nat.min_eq_left h, List.take_left' hlen, List.drop_left' hlen, unpack, if_pos hlen,
      LengthField.decode_encode _ _ hbound]
    obtain ⟨s, hrun, hunread⟩ := @Stream.fullRecv_eq
      ⟨serializeResponse response, fun i => arrivals (i + 1)⟩
      ((serializeResponse response).length + 1) (serializeResponse response).length []
      (fun i => harrivals (i + 1)) le_rfl (Nat.lt_succ_self _)
    refine ⟨(serializeResponse response).length + 1, s, ?_, ?_⟩
    · simp only [hrun, List.take_length, List.nil_append, hparse]
    · rw [hunread, List.drop_length]
  · -- Less than a length cannot be unpacked.
    refine iff_of_false ?_ h
    rintro ⟨fuel, s, hreturned, _⟩
    rw [Nat.min_eq_right (by omega), unpack, if_neg] at hreturned
    · cases hreturned
    · rw [List.length_take, List.length_append, hlen]
      omega

/-- A response of six bytes, of which three, two and one arrive, behind the length. -/
theorem send_iff_pieces :
    ∃ fuel s, (send Stream.recv true some id fuel [7]
      ⟨[[6, 0, 0, 0], [1, 2, 3, 4, 5, 6]].flatten, fun i => 4 - i % 4⟩).2 =
        .returned ([1, 2, 3, 4, 5, 6], s) ∧ s.unread = [] :=
  (send_iff (fun _ => (rfl : some (id _) = _)) rfl rfl (fun i => by omega)).2 le_rfl

/-- Of the length, one byte arrives first. -/
theorem not_forall_send : ¬∀ arrivals : ℕ → ℕ, (∀ i, 0 < arrivals i) →
    ∃ fuel s, (send Stream.recv true some id fuel [7]
      ⟨[[0, 0, 0, 0], []].flatten, arrivals⟩).2 = .returned (([] : List UInt8), s) ∧
        s.unread = [] := by
  intro h
  obtain ⟨fuel, s, hreturned, _⟩ := h (fun _ => 1) fun _ => by decide
  cases hreturned

end

/-! ## Calls that give anything -/

/-- Gives what is given for the next call. -/
def recvResult (n : ℕ) (results : ℕ → Option (List UInt8)) :
    Option (List UInt8 × (ℕ → Option (List UInt8))) :=
  (results 0).map fun data => (data.take n, fun i => results (i + 1))

/-- How many bytes a call may give. -/
def received (result : Option (List UInt8)) : ℕ := min (result.getD []).length 4096

variable {results : ℕ → Option (List UInt8)} {fuel bytesLeft : ℕ} {outData : List UInt8}

theorem fullRecv_ne_running_iff : fullRecv recvResult fuel bytesLeft outData results ≠ .running ↔
    ∃ n < fuel, results n = none ∨ bytesLeft ≤ ∑ i ∈ Finset.range n, received (results i) := by
  induction fuel generalizing results bytesLeft outData with
  | zero => simp [fullRecv]
  | succ fuel ih =>
    by_cases hpos : bytesLeft > 0
    · rcases hresult : results 0 with _ | data
      · refine iff_of_true ?_ ⟨0, Nat.succ_pos fuel, .inl hresult⟩
        simp [fullRecv, hpos, recvResult, hresult]
      · -- What is left after a round is read by the others.
        have hround : fullRecv recvResult (fuel + 1) bytesLeft outData results =
            fullRecv recvResult fuel
              (bytesLeft - (data.take (min bytesLeft 4096)).length)
              (outData ++ data.take (min bytesLeft 4096)) fun i => results (i + 1) := by
          simp [fullRecv, hpos, recvResult, hresult]
        have hgiven : received (results 0) = min data.length 4096 := by rw [hresult]; rfl
        rw [hround, ih]
        simp only [List.length_take]
        constructor
        · rintro ⟨n, hn, h⟩
          refine ⟨n + 1, Nat.succ_lt_succ hn, h.imp_right fun h => ?_⟩
          rw [Finset.sum_range_succ', hgiven]
          omega
        · rintro ⟨n, hn, h⟩
          rcases n with _ | n
          · rcases h with h | h
            · cases hresult.symm.trans h
            · rw [Finset.sum_range_zero] at h
              omega
          · refine ⟨n, Nat.lt_of_succ_lt_succ hn, h.imp_right fun h => ?_⟩
            rw [Finset.sum_range_succ', hgiven] at h
            omega
    · refine iff_of_true ?_ ⟨0, Nat.succ_pos fuel, .inr ?_⟩
      · simp [fullRecv, hpos]
      · rw [Finset.sum_range_zero]
        omega

/-- The loop ends exactly if a call raises an exception, or the calls give as many bytes as are to
    be read. -/
theorem terminates_iff (recvlen : ℕ) (results : ℕ → Option (List UInt8)) :
    (∃ fuel, fullRecv recvResult fuel recvlen [] results ≠ .running) ↔
      ∃ n, results n = none ∨ recvlen ≤ ∑ i ∈ Finset.range n, received (results i) := by
  simp only [fullRecv_ne_running_iff]
  constructor
  · rintro ⟨_, n, _, h⟩
    exact ⟨n, h⟩
  · rintro ⟨n, h⟩
    exact ⟨n + 1, n, Nat.lt_succ_self n, h⟩

/-- The other side closes the connection before the only byte. -/
theorem not_forall_terminates : ¬∀ (recvlen : ℕ) (results : ℕ → Option (List UInt8)),
    ∃ fuel, fullRecv recvResult fuel recvlen [] results ≠ .running := by
  intro h
  obtain ⟨fuel, hends⟩ := h 1 fun _ => some []
  obtain ⟨n, _, hnone | hgiven⟩ := fullRecv_ne_running_iff.1 hends
  · cases hnone
  · simp [received] at hgiven

end SysAdminClient

end SysAdmin
