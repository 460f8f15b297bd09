import Mathlib.Data.List.Basic
import Mathlib.Data.List.Infix
import Mathlib.Tactic.Ring

/-!
# Tagged fields

A message is written as a sequence of fields, each with a tag in front, the number of the field
and the type of what follows. It is read by a loop that takes a tag, reads what the tag says and
changes the message accordingly, until nothing is left.

* `Reader`: reads a value from the front of some letters, or fails;
* `mergeFrom`: the loop, for any reader of tags and any way to merge a field;
* `Acts`: wherever the letters stand before others, the loop reads them as a change of the
  message. What is written field by field acts field by field (`Acts.append`), and a whole message
  is read as what it changes (`mergeFrom_of_acts`);
* `varint`: numbers in groups of seven bits, each but the last with the highest bit set.
-/

namespace SysAdmin.Wire

/-- The types of what follows a tag. -/
inductive WireType
  | varint
  | fixed64
  | lengthDelimited
  | startGroup
  | endGroup
  | fixed32
  deriving DecidableEq

/-- Reads a value, and answers what is left behind it. -/
abbrev Reader (β α : Type) := List β → Option (α × List β)

section

variable {β τ σ : Type} (readTag : Reader β τ) (mergeField : τ → σ → Reader β σ)

/-- The loop, for so many fields at most. -/
def mergeLoop : ℕ → σ → List β → Option σ
  | _, s, [] => some s
  | 0, _, _ :: _ => none
  | fuel + 1, s, b :: bs => do
    let (tag, rest) ← readTag (b :: bs)
    let (s, rest) ← mergeField tag s rest
    mergeLoop fuel s rest

/-- Reads fields up to the end. Each tag takes a letter at least. -/
def mergeFrom (s : σ) (bs : List β) : Option σ := mergeLoop readTag mergeField bs.length s bs

/-- The letters are read as a change of the message, whatever stands behind them. -/
def Acts (bs : List β) (f : σ → σ) : Prop :=
  ∀ fuel s t r, mergeLoop readTag mergeField fuel (f s) t = some r →
    mergeLoop readTag mergeField (bs.length + fuel) s (bs ++ t) = some r

variable {readTag mergeField} {bs bs' : List β} {f g : σ → σ} {tag : τ}

theorem mergeLoop_mono {fuel fuel' : ℕ} (hle : fuel ≤ fuel') {s r : σ} {t : List β}
    (h : mergeLoop readTag mergeField fuel s t = some r) :
    mergeLoop readTag mergeField fuel' s t = some r := by
  induction fuel generalizing fuel' s t with
  | zero =>
    cases t with
    | nil =>
      rw [mergeLoop] at h ⊢
      exact h
    | cons b t => cases h
  | succ fuel ih =>
    cases t with
    | nil =>
      rw [mergeLoop] at h ⊢
      exact h
    | cons b t =>
      obtain ⟨fuel', rfl⟩ : ∃ n, fuel' = n + 1 := ⟨fuel' - 1, by omega⟩
      rw [mergeLoop] at h ⊢
      obtain ⟨x, hx, h⟩ := Option.bind_eq_some_iff.1 h
      obtain ⟨y, hy, h⟩ := Option.bind_eq_some_iff.1 h
      exact Option.bind_eq_some_iff.2
        ⟨x, hx, Option.bind_eq_some_iff.2 ⟨y, hy, ih (Nat.le_of_succ_le_succ hle) h⟩⟩

theorem Acts.nil : Acts readTag mergeField [] id := fun fuel _ _ _ h => by
  rwa [List.length_nil, Nat.zero_add, List.nil_append]

theorem Acts.append (h : Acts readTag mergeField bs f) (h' : Acts readTag mergeField bs' g) :
    Acts readTag mergeField (bs ++ bs') (g ∘ f) := fun fuel s t r hr => by
  rw [List.length_append, List.append_assoc, Nat.add_assoc]
  exact h _ s _ r (h' fuel (f s) t r hr)

/-- A field acts as it is merged. -/
theorem Acts.field {letters : List β} (hne : letters ≠ [])
    (htag : ∀ t, readTag (letters ++ t) = some (tag, t))
    (hmerge : ∀ s t, mergeField tag s (bs ++ t) = some (f s, t)) :
    Acts readTag mergeField (letters ++ bs) f := fun fuel s t r hr => by
  obtain ⟨b, letters, rfl⟩ := List.exists_cons_of_ne_nil hne
  have htag' := htag (bs ++ t)
  rw [List.cons_append] at htag'
  rw [List.append_assoc, List.cons_append, List.cons_append, List.length_cons, Nat.succ_add,
    mergeLoop, htag']
  simp only [Option.bind_eq_bind, Option.bind_some, hmerge]
  exact mergeLoop_mono (Nat.le_add_left _ _) hr

/-- Fields that are written one after the other act one after the other. -/
theorem Acts.flatMap {ι : Type} {write : ι → List β} {change : ι → σ → σ} {is : List ι}
    (h : ∀ i ∈ is, Acts readTag mergeField (write i) (change i)) :
    Acts readTag mergeField (is.flatMap write) fun s => is.foldl (fun s i => change i s) s := by
  induction is with
  | nil => exact Acts.nil
  | cons i is ih =>
    rw [List.flatMap_cons]
    exact (h i List.mem_cons_self).append (ih fun j hj => h j (List.mem_cons_of_mem _ hj))

/-- A message is read as what it changes. -/
theorem mergeFrom_of_acts (h : Acts readTag mergeField bs f) (s : σ) :
    mergeFrom readTag mergeField s bs = some (f s) := by
  have hr := h 0 s [] (f s) rfl
  rwa [List.append_nil] at hr

end

/-! ## Numbers -/

/-- The groups of seven bits of a number, the lowest first. -/
def varint (n : ℕ) : List UInt8 :=
  if n < 128 then [.ofNat n] else .ofNat (n % 128 + 128) :: varint (n / 128)

/-- Reads such a number. -/
def readVarint : Reader UInt8 ℕ
  | [] => none
  | b :: bs =>
    if b.toNat < 128 then some (b.toNat, bs)
    else (readVarint bs).map fun x => (b.toNat - 128 + 128 * x.1, x.2)

theorem readVarint_varint (n : ℕ) (t : List UInt8) :
    readVarint (varint n ++ t) = some (n, t) := by
  induction n using Nat.strong_induction_on with
  | h n ih =>
    rw [varint]
    split
    · next hn =>
      have hbyte : (UInt8.ofNat n).toNat = n := by
        rw [UInt8.toNat_ofNat']
        omega
      rw [List.singleton_append, readVarint, hbyte, if_pos hn]
    · next hn =>
      -- The byte says with its highest bit that others follow.
      have hbyte : (UInt8.ofNat (n % 128 + 128)).toNat = n % 128 + 128 := by
        rw [UInt8.toNat_ofNat']
        omega
      rw [List.cons_append, readVarint, hbyte, if_neg (by omega), ih (n / 128) (by omega)]
      simp only [Option.map_some, Option.some.injEq, Prod.mk.injEq, and_true]
      omega

theorem length_varint_of_lt {n : ℕ} (h : n < 128) : (varint n).length = 1 := by
  rw [varint, if_pos h]
  rfl

theorem length_varint_of_ge {n : ℕ} (h : 128 ≤ n) (hn : n < 16384) : (varint n).length = 2 := by
  rw [varint, if_neg (by omega), List.length_cons, length_varint_of_lt (by omega)]

/-- Each byte takes seven bits. -/
theorem length_varint_le {n k : ℕ} (h : n < 128 ^ (k + 1)) : (varint n).length ≤ k + 1 := by
  induction k generalizing n with
  | zero => exact (length_varint_of_lt (by simpa using h)).le
  | succ k ih =>
    rw [varint]
    split
    · exact Nat.succ_le_succ (Nat.zero_le _)
    · rw [List.length_cons]
      exact Nat.succ_le_succ (ih (Nat.div_lt_of_lt_mul (by rwa [pow_succ'] at h)))

end SysAdmin.Wire
