import Mathlib.Data.List.Basic
import Mathlib.Data.List.Infix
import Mathlib.Tactic.Ring

/-!
# Length-prefixed frames

A sequence of payloads, lists over an alphabet, is sent as one stream by writing the length
of each payload before it, in a field of fixed width (`LengthField`).

* `Incomplete r`: what has been read since the last frame does not fill a frame yet, be it
  for a missing part of the length or of the payload;
* `incomplete_or_frame`: reading a stream of frames, one either has something incomplete or
  the first frame in full;
* `frames_take_le_iff`: a prefix of the stream that splits into frames and an incomplete rest
  holds exactly the frames that end within it;
* `deframe`: the payloads of the frames that any stream starts with, and its incomplete rest.

The length field of an integer type holds the bytes of the number (`bytesOf`), from the lowest
to the highest or the other way round (`LengthField.ofBytes`).
-/

namespace SysAdmin.Framing

/-- How lengths below a bound are written, in a field of fixed width. -/
structure LengthField (α : Type*) where
  width : ℕ
  bound : ℕ
  encode : ℕ → List α
  decode : List α → ℕ
  width_pos : 0 < width
  length_encode : ∀ n, (encode n).length = width
  decode_encode : ∀ n < bound, decode (encode n) = n

namespace LengthField

variable {α : Type*} (L : LengthField α)

/-- A payload with its length before it. -/
def frame (p : List α) : List α := L.encode p.length ++ p

/-- The stream of some payloads. -/
def frames (ps : List (List α)) : List α := ps.flatMap L.frame

/-- The letters `r` do not fill a frame. -/
def Incomplete (r : List α) : Prop :=
  r.length < L.width ∨ r.length < L.width + L.decode (r.take L.width)

@[simp] theorem frames_nil : L.frames [] = [] := rfl

@[simp] theorem frames_cons (p : List α) (ps : List (List α)) :
    L.frames (p :: ps) = L.frame p ++ L.frames ps := rfl

@[simp] theorem frames_append (ps qs : List (List α)) :
    L.frames (ps ++ qs) = L.frames ps ++ L.frames qs := List.flatMap_append

@[simp] theorem length_frame (p : List α) : (L.frame p).length = L.width + p.length := by
  simp [frame, L.length_encode]

theorem incomplete_nil : L.Incomplete [] := .inl L.width_pos

variable {L} {p r s : List α} {ps : List (List α)}

theorem decode_take_frame (hp : p.length < L.bound) (t : List α) :
    L.decode ((L.frame p ++ t).take L.width) = p.length := by
  rw [frame, List.append_assoc, List.take_left' (L.length_encode _), L.decode_encode _ hp]

/-- With a frame in full, it is not incomplete. -/
theorem not_incomplete_frame_append (hp : p.length < L.bound) (t : List α) :
    ¬ L.Incomplete (L.frame p ++ t) := by
  rintro (h | h)
  · rw [List.length_append, length_frame] at h
    omega
  · rw [decode_take_frame hp, List.length_append, length_frame] at h
    omega

/-- Less than a frame is incomplete. -/
theorem incomplete_of_lt (hp : p.length < L.bound) (hr : r <+: L.frame p)
    (hlt : r.length < L.width + p.length) : L.Incomplete r := by
  rcases Nat.lt_or_ge r.length L.width with hw | hw
  · exact .inl hw
  · obtain ⟨t, ht⟩ := hr
    have hd := decode_take_frame hp []
    rw [List.append_nil, ← ht, List.take_append_of_le_length hw] at hd
    exact .inr (hd ▸ hlt)

/-- A prefix of a stream of frames is incomplete, or it has the first frame in full. -/
theorem incomplete_or_frame (hps : ∀ p ∈ ps, p.length < L.bound) (hs : s <+: L.frames ps) :
    L.Incomplete s ∨ ∃ p qs t, ps = p :: qs ∧ s = L.frame p ++ t ∧ t <+: L.frames qs := by
  cases ps with
  | nil =>
    rw [List.prefix_nil.1 hs]
    exact .inl L.incomplete_nil
  | cons p qs =>
    rw [frames_cons] at hs
    rcases Nat.lt_or_ge s.length (L.frame p).length with hlt | hge
    · have hsp := List.prefix_of_prefix_length_le hs (List.prefix_append _ _) hlt.le
      exact .inl (incomplete_of_lt (hps p List.mem_cons_self) hsp (by rwa [← length_frame]))
    · obtain ⟨t, rfl⟩ := List.prefix_of_prefix_length_le (List.prefix_append _ _) hs hge
      exact .inr ⟨p, qs, t, rfl, rfl, (List.prefix_append_right_inj _).1 hs⟩

/-- The first payloads give a prefix of the stream. -/
theorem frames_take_mono (ps : List (List α)) {i j : ℕ} (h : i ≤ j) :
    L.frames (ps.take i) <+: L.frames (ps.take j) := by
  obtain ⟨t, ht⟩ := List.take_prefix_take_left (l := ps) h
  rw [← ht, frames_append]
  exact List.prefix_append _ _

theorem frames_take_prefix (ps : List (List α)) (i : ℕ) : L.frames (ps.take i) <+: L.frames ps := by
  obtain ⟨t, ht⟩ := List.take_prefix i ps
  conv_rhs => rw [← ht, frames_append]
  exact List.prefix_append _ _

/-- Behind the first frames there are the others. -/
theorem drop_frames (ps : List (List α)) (i : ℕ) :
    (L.frames ps).drop (L.frames (ps.take i)).length = L.frames (ps.drop i) := by
  have hsplit : L.frames ps = L.frames (ps.take i) ++ L.frames (ps.drop i) := by
    rw [← frames_append, List.take_append_drop]
  rw [hsplit, List.drop_left]

/-- A prefix of the stream that is some frames and an incomplete rest holds just the frames
    that end within it. -/
theorem frames_take_le_iff (hps : ∀ p ∈ ps, p.length < L.bound) {j k : ℕ} (hj : j ≤ ps.length)
    (hs : L.frames (ps.take k) ++ r <+: L.frames ps) (hr : L.Incomplete r) :
    (L.frames (ps.take j)).length ≤ (L.frames (ps.take k) ++ r).length ↔ j ≤ k := by
  constructor
  · intro hle
    by_contra hkj
    -- the frame after the first `k` ones would lie in the rest
    have hlt : k < ps.length := by omega
    have hpre : L.frames (ps.take (k + 1)) <+: L.frames ps := by
      have := frames_take_mono (L := L) ps hlt
      rwa [List.take_length] at this
    have hshort := (frames_take_mono (L := L) ps (show k + 1 ≤ j by omega)).length_le
    have h := List.prefix_of_prefix_length_le hpre hs (hshort.trans hle)
    rw [List.take_add_one, List.getElem?_eq_getElem hlt, Option.toList_some, frames_append,
      List.prefix_append_right_inj, frames_cons, frames_nil, List.append_nil] at h
    obtain ⟨t, rfl⟩ := h
    exact not_incomplete_frame_append (hps _ (List.getElem_mem hlt)) t hr
  · intro hjk
    rw [List.length_append]
    exact (frames_take_mono ps hjk).length_le.trans (Nat.le_add_right _ _)

/-- A prefix of a stream of frames is some of them and an incomplete rest. -/
theorem exists_frames_take (hps : ∀ p ∈ ps, p.length < L.bound) (hs : s <+: L.frames ps) :
    ∃ k r, s = L.frames (ps.take k) ++ r ∧ L.Incomplete r := by
  induction ps generalizing s with
  | nil =>
    rw [List.prefix_nil.1 hs]
    exact ⟨0, [], rfl, L.incomplete_nil⟩
  | cons p ps ih =>
    rcases incomplete_or_frame hps hs with hinc | ⟨q, qs, t, heq, rfl, ht⟩
    · exact ⟨0, s, rfl, hinc⟩
    · obtain ⟨rfl, rfl⟩ := List.cons_eq_cons.1 heq
      obtain ⟨k, r, rfl, hr⟩ := ih (fun p hp => hps p (List.mem_cons_of_mem _ hp)) ht
      exact ⟨k + 1, r, by simp, hr⟩

/-! ### Reading any stream -/

instance decidableIncomplete (L : LengthField α) (r : List α) : Decidable (L.Incomplete r) :=
  inferInstanceAs (Decidable (_ ∨ _))

variable (L) in
/-- The payloads of the frames that a stream starts with, and what does not fill a frame
    behind them. -/
def deframe (s : List α) : List (List α) × List α :=
  if L.Incomplete s then ([], s)
  else
    let n := L.decode (s.take L.width)
    let (ps, r) := deframe (s.drop (L.width + n))
    ((s.drop L.width).take n :: ps, r)
termination_by s.length
decreasing_by
  next h =>
    have hs := not_or.1 h
    have := L.width_pos
    rw [List.length_drop]
    omega

/-- Every field is the length that it holds, written. -/
def Exact (L : LengthField α) : Prop :=
  ∀ bs : List α, bs.length = L.width → L.decode bs < L.bound ∧ L.encode (L.decode bs) = bs

theorem deframe_of_incomplete (h : L.Incomplete s) : L.deframe s = ([], s) := by
  rw [deframe, if_pos h]

theorem deframe_frame_append (hp : p.length < L.bound) (t : List α) :
    L.deframe (L.frame p ++ t) = (p :: (L.deframe t).1, (L.deframe t).2) := by
  rw [deframe, if_neg (not_incomplete_frame_append hp t), decode_take_frame hp]
  have hp' : ((L.frame p ++ t).drop L.width).take p.length = p := by
    rw [frame, List.append_assoc, List.drop_left' (L.length_encode _), List.take_left]
  have ht : (L.frame p ++ t).drop (L.width + p.length) = t := List.drop_left' (L.length_frame p)
  simp only [hp', ht]

theorem deframe_frames_append (hps : ∀ p ∈ ps, p.length < L.bound) (s : List α) :
    L.deframe (L.frames ps ++ s) = (ps ++ (L.deframe s).1, (L.deframe s).2) := by
  induction ps with
  | nil => rfl
  | cons p ps ih =>
    rw [frames_cons, List.append_assoc, deframe_frame_append (hps p List.mem_cons_self),
      ih fun q hq => hps q (List.mem_cons_of_mem _ hq)]
    rfl

/-- What is not incomplete starts with a frame. -/
theorem exists_frame (hL : L.Exact) (h : ¬ L.Incomplete s) :
    ∃ p t, p.length < L.bound ∧ s = L.frame p ++ t := by
  obtain ⟨hw, hs⟩ := not_or.1 h
  rw [Nat.not_lt] at hw hs
  obtain ⟨hlt, henc⟩ := hL (s.take L.width) (List.length_take_of_le hw)
  generalize hn : L.decode (s.take L.width) = n at *
  have hlen : ((s.drop L.width).take n).length = n := by
    rw [List.length_take, List.length_drop]
    omega
  refine ⟨(s.drop L.width).take n, s.drop (L.width + n), by rwa [hlen], ?_⟩
  rw [frame, hlen, henc, ← List.drop_drop, List.append_assoc, List.take_append_drop,
    List.take_append_drop]

/-- A prefix of a stream of frames holds the first of its payloads. -/
theorem deframe_prefix (hps : ∀ p ∈ ps, p.length < L.bound) (hs : s <+: L.frames ps) :
    (L.deframe s).1 <+: ps := by
  obtain ⟨k, r, rfl, hr⟩ := exists_frames_take hps hs
  rw [deframe_frames_append fun p hp => hps p (List.mem_of_mem_take hp),
    deframe_of_incomplete hr, List.append_nil]
  exact List.take_prefix k ps

/-- Every stream is some frames and an incomplete rest. -/
theorem exists_frames (hL : L.Exact) (s : List α) :
    ∃ ps r, (∀ p ∈ ps, p.length < L.bound) ∧ L.Incomplete r ∧ s = L.frames ps ++ r := by
  by_cases h : L.Incomplete s
  · exact ⟨[], s, by simp, h, rfl⟩
  · obtain ⟨p, t, hp, rfl⟩ := exists_frame hL h
    have hlt : t.length < (L.frame p ++ t).length := by
      have := L.width_pos
      rw [List.length_append, length_frame]
      omega
    obtain ⟨ps, r, hps, hr, rfl⟩ := exists_frames hL t
    exact ⟨p :: ps, r, List.forall_mem_cons.2 ⟨hp, hps⟩, hr, by simp⟩
termination_by s.length

theorem incomplete_deframe (hL : L.Exact) (s : List α) : L.Incomplete (L.deframe s).2 := by
  obtain ⟨ps, r, hps, hr, rfl⟩ := exists_frames hL s
  rwa [deframe_frames_append hps, deframe_of_incomplete hr]

/-- Reading goes on with the rest. -/
theorem deframe_append (hL : L.Exact) (s t : List α) :
    L.deframe (s ++ t) = ((L.deframe s).1 ++ (L.deframe ((L.deframe s).2 ++ t)).1,
      (L.deframe ((L.deframe s).2 ++ t)).2) := by
  obtain ⟨ps, r, hps, hr, rfl⟩ := exists_frames hL s
  rw [List.append_assoc, deframe_frames_append hps, deframe_frames_append hps,
    deframe_of_incomplete hr, List.append_nil]

/-- What does not fill a frame can go on to fill one. -/
theorem exists_frame_of_incomplete [Inhabited α] (hL : L.Exact) (hr : L.Incomplete r) :
    ∃ p t, p.length < L.bound ∧ r ++ t = L.frame p := by
  by_cases hw : r.length < L.width
  · -- the length is whatever the field becomes
    have hlen : (r ++ List.replicate (L.width - r.length) default).length = L.width := by
      rw [List.length_append, List.length_replicate]
      omega
    obtain ⟨hlt, henc⟩ := hL _ hlen
    generalize hn : L.decode (r ++ List.replicate (L.width - r.length) default) = n at *
    refine ⟨.replicate n default, .replicate (L.width - r.length) default ++ .replicate n default,
      by rwa [List.length_replicate], ?_⟩
    rw [frame, List.length_replicate, henc, List.append_assoc]
  · -- The length is there, so what is missing is the end of the payload.
    have hs := hr.resolve_left hw
    rw [Nat.not_lt] at hw
    obtain ⟨hlt, henc⟩ := hL _ (List.length_take_of_le hw)
    generalize hn : L.decode (r.take L.width) = n at *
    have hlen : (r.drop L.width ++ List.replicate (n - (r.length - L.width)) default).length =
        n := by
      rw [List.length_append, List.length_replicate, List.length_drop]
      omega
    refine ⟨r.drop L.width ++ .replicate (n - (r.length - L.width)) default,
      .replicate (n - (r.length - L.width)) default, by rwa [hlen], ?_⟩
    rw [frame, hlen, henc, ← List.append_assoc, List.take_append_drop]

/-- Behind what does not fill a frame, some stream is read as other frames than by itself. -/
theorem exists_deframe_append_ne [Inhabited α] (hL : L.Exact) (hinc : L.Incomplete r)
    (hr : r ≠ []) : ∃ t, (L.deframe (r ++ t)).1 ≠ (L.deframe t).1 := by
  -- a stream that fills the frame
  obtain ⟨q, t, hq, hqt⟩ := exists_frame_of_incomplete hL hinc
  refine ⟨t, fun heq => ?_⟩
  rw [hqt, ← List.append_nil (L.frame q), deframe_frame_append hq,
    deframe_of_incomplete L.incomplete_nil] at heq
  obtain ⟨ps, r', hps, hr', rfl⟩ := exists_frames hL t
  rw [deframe_frames_append hps, deframe_of_incomplete hr', List.append_nil] at heq
  obtain rfl : [q] = ps := heq
  -- its own frame would be as long as the whole one
  have hpos := List.length_pos_of_ne_nil hr
  have hlen := congrArg List.length hqt
  simp only [List.length_append, frames_cons, frames_nil, List.length_nil] at hlen
  omega

end LengthField

/-! ## The bytes of a number -/

/-- The lowest `w` bytes of a number, the lowest one first. -/
def bytesOf : ℕ → ℕ → List UInt8
  | 0, _ => []
  | w + 1, n => UInt8.ofNat n :: bytesOf w (n / 256)

/-- The number with these bytes, the lowest one first. -/
def ofBytes : List UInt8 → ℕ
  | [] => 0
  | b :: bs => b.toNat + 256 * ofBytes bs

@[simp] theorem length_bytesOf (w n : ℕ) : (bytesOf w n).length = w := by
  induction w generalizing n with
  | zero => rfl
  | succ w ih => rw [bytesOf, List.length_cons, ih]

theorem ofBytes_bytesOf (w n : ℕ) (h : n < 256 ^ w) : ofBytes (bytesOf w n) = n := by
  induction w generalizing n with
  | zero =>
    rw [pow_zero, Nat.lt_one_iff] at h
    rw [h]
    rfl
  | succ w ih =>
    have hn : n / 256 < 256 ^ w := Nat.div_lt_of_lt_mul (by rwa [pow_succ, mul_comm] at h)
    rw [bytesOf, ofBytes, ih _ hn, UInt8.toNat_ofNat']
    exact Nat.mod_add_div n 256

theorem bytesOf_ofBytes (bs : List UInt8) : bytesOf bs.length (ofBytes bs) = bs := by
  induction bs with
  | nil => rfl
  | cons b bs ih =>
    have hb : b.toNat < 256 := b.toNat_lt
    have hdiv : (b.toNat + 256 * ofBytes bs) / 256 = ofBytes bs := by omega
    have hmod : UInt8.ofNat (b.toNat + 256 * ofBytes bs) = b := by
      apply UInt8.toNat_inj.1
      rw [UInt8.toNat_ofNat']
      omega
    rw [ofBytes, List.length_cons, bytesOf, hdiv, hmod, ih]

theorem ofBytes_lt (bs : List UInt8) : ofBytes bs < 256 ^ bs.length := by
  induction bs with
  | nil => exact Nat.one_pos
  | cons b bs ih =>
    have hb : b.toNat < 256 := b.toNat_lt
    rw [ofBytes, List.length_cons, pow_succ]
    omega

/-- The length field that holds the `w` bytes of a number in memory, whose lowest byte comes
    first or last. -/
def LengthField.memory (w : ℕ) (hw : 0 < w) (lowestFirst : Bool) : LengthField UInt8 where
  width := w
  bound := 256 ^ w
  encode n := if lowestFirst then bytesOf w n else (bytesOf w n).reverse
  decode bs := if lowestFirst then ofBytes bs else ofBytes bs.reverse
  width_pos := hw
  length_encode n := by cases lowestFirst <;> simp
  decode_encode n hn := by cases lowestFirst <;> simp [ofBytes_bytesOf w n hn]

theorem LengthField.memory_exact (w : ℕ) (hw : 0 < w) (lowestFirst : Bool) :
    (LengthField.memory w hw lowestFirst).Exact := by
  rintro bs (rfl : bs.length = w)
  cases lowestFirst with
  | true => exact ⟨ofBytes_lt bs, bytesOf_ofBytes bs⟩
  | false =>
    have hlt := ofBytes_lt bs.reverse
    have heq := congrArg List.reverse (bytesOf_ofBytes bs.reverse)
    rw [List.length_reverse] at hlt heq
    rw [List.reverse_reverse] at heq
    exact ⟨hlt, heq⟩

end SysAdmin.Framing
