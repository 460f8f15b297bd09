import Mathlib.Data.List.Basic
import Mathlib.Data.List.Induction
import Mathlib.Data.Set.Function
import Mathlib.Logic.Function.Basic

/-!
# Writing and clearing keys

A store over the keys `κ` is a partial map `κ → Option ν`. It is changed by writing single
keys and by clearing all keys with a property (`Op`).

A clear may be expanded early: into the keys that some earlier store holds
(`Op.applyFrom`), be it that others have been written since. `foldl_applyFrom_eq_iff` says for
which keys this makes a difference: those that the earlier store does not hold, and that a clear
covers after their last write, if this wrote a value (`Overtaken`).
-/

namespace SysAdmin.Clears

variable {κ ν : Type*}

/-- A write to a key, where `none` removes it, or the removal of all keys with a property. -/
inductive Op (κ ν : Type*)
  | write (k : κ) (v : Option ν)
  | clear (p : κ → Bool)

namespace Op

/-- The operation writes this very key. -/
def Names (op : Op κ ν) (k : κ) : Prop := ∃ v, op = write k v

/-- The operation clears the key. -/
def Covers (op : Op κ ν) (k : κ) : Prop := ∃ p, op = clear p ∧ p k = true

variable [DecidableEq κ]

/-- The store after an operation. -/
def apply (σ : κ → Option ν) : Op κ ν → κ → Option ν
  | write k v => Function.update σ k v
  | clear p => fun k => if p k then none else σ k

/-- The store after an operation, where a clear removes no more than the keys of `σ₀`. -/
def applyFrom (σ₀ σ : κ → Option ν) : Op κ ν → κ → Option ν
  | write k v => Function.update σ k v
  | clear p => fun k => if p k && (σ₀ k).isSome then none else σ k

variable {σ₀ σ τ : κ → Option ν} {op : Op κ ν} {k : κ}

theorem apply_congr (h : σ k = τ k) : op.apply σ k = op.apply τ k := by
  cases op with
  | write k' v => by_cases hk : k = k' <;> simp [apply, hk, h]
  | clear p => simp only [apply, h]

/-- For a key of the earlier store, expanding a clear early makes no difference. -/
theorem applyFrom_of_isSome (h : (σ₀ k).isSome = true) : op.applyFrom σ₀ σ k = op.apply σ k := by
  cases op with
  | write k' v => rfl
  | clear p => simp [applyFrom, apply, h]

theorem applyFrom_self : op.applyFrom σ σ = op.apply σ := by
  funext k
  cases h : σ k with
  | some v => exact applyFrom_of_isSome (by rw [h]; rfl)
  | none =>
    cases op with
    | write k' v => rfl
    | clear p => simp [applyFrom, apply, h]

end Op

/-! ## Keys with a value -/

variable {ops : List (Op κ ν)} {op : Op κ ν} {k : κ}

/-- The last write of a key is one of a value. -/
def HasValue (ops : List (Op κ ν)) (k : κ) : Prop :=
  ∃ pre v post, ops = pre ++ .write k (some v) :: post ∧ ∀ op ∈ post, ¬op.Names k

/-- The last write of a key is one of a value, and a clear that covers the key comes after it. -/
def Overtaken (ops : List (Op κ ν)) (k : κ) : Prop :=
  ∃ pre v post, ops = pre ++ .write k (some v) :: post ∧ (∀ op ∈ post, ¬op.Names k) ∧
    ∃ op ∈ post, op.Covers k

theorem hasValue_append_singleton : HasValue (ops ++ [op]) k ↔
    (∃ v, op = .write k (some v)) ∨ ¬op.Names k ∧ HasValue ops k := by
  constructor
  · rintro ⟨pre, v, post, hops, hpost⟩
    rcases List.eq_nil_or_concat' post with rfl | ⟨post, last, rfl⟩
    · exact .inl ⟨v, (List.append_singleton_inj.1 hops).2⟩
    · rw [← List.cons_append, ← List.append_assoc, List.append_singleton_inj] at hops
      obtain ⟨rfl, rfl⟩ := hops
      have hinit : ∀ op' ∈ post, ¬op'.Names k := fun op' hop' => hpost op' (by simp [hop'])
      exact .inr ⟨hpost op (by simp), pre, v, post, rfl, hinit⟩
  · rintro (⟨v, rfl⟩ | ⟨hop, pre, v, post, rfl, hpost⟩)
    · exact ⟨ops, v, [], rfl, nofun⟩
    · have hall := List.forall_mem_append.2 ⟨hpost, List.forall_mem_singleton.2 hop⟩
      exact ⟨pre, v, post ++ [op], by simp, hall⟩

theorem overtaken_append_singleton : Overtaken (ops ++ [op]) k ↔
    ¬op.Names k ∧ (Overtaken ops k ∨ op.Covers k ∧ HasValue ops k) := by
  constructor
  · rintro ⟨pre, v, post, hops, hpost, op', hop', hcovers⟩
    rcases List.eq_nil_or_concat' post with rfl | ⟨post, last, rfl⟩
    · cases hop'
    · rw [← List.cons_append, ← List.append_assoc, List.append_singleton_inj] at hops
      obtain ⟨rfl, rfl⟩ := hops
      have hinit : ∀ op' ∈ post, ¬op'.Names k := fun op' hop' => hpost op' (by simp [hop'])
      refine ⟨hpost op (by simp), ?_⟩
      rcases List.mem_append.1 hop' with hop' | hop'
      · exact .inl ⟨pre, v, post, rfl, hinit, op', hop', hcovers⟩
      · rw [List.mem_singleton.1 hop'] at hcovers
        exact .inr ⟨hcovers, pre, v, post, rfl, hinit⟩
  · rintro ⟨hop, ⟨pre, v, post, rfl, hpost, op', hop', hcovers⟩ |
      ⟨hcovers, pre, v, post, rfl, hpost⟩⟩
    · have hall := List.forall_mem_append.2 ⟨hpost, List.forall_mem_singleton.2 hop⟩
      exact ⟨pre, v, post ++ [op], by simp, hall, op', by simp [hop'], hcovers⟩
    · have hall := List.forall_mem_append.2 ⟨hpost, List.forall_mem_singleton.2 hop⟩
      exact ⟨pre, v, post ++ [op], by simp, hall, op, by simp, hcovers⟩

theorem Overtaken.hasValue (h : Overtaken ops k) : HasValue ops k := by
  obtain ⟨pre, v, post, hops, hpost, _⟩ := h
  exact ⟨pre, v, post, hops, hpost⟩

/-! ## Expanding early -/

variable [DecidableEq κ] {σ σ₀ τ : κ → Option ν}

theorem foldl_apply_eqOn {K : Set κ} (h : Set.EqOn σ τ K) :
    Set.EqOn (ops.foldl Op.apply σ) (ops.foldl Op.apply τ) K := by
  induction ops generalizing σ τ with
  | nil => exact h
  | cons op ops ih => exact ih fun k hk => Op.apply_congr (h hk)

theorem foldl_applyFrom_of_isSome (h : (σ₀ k).isSome = true) (hσ : σ k = τ k) :
    ops.foldl (Op.applyFrom σ₀) σ k = ops.foldl Op.apply τ k := by
  induction ops generalizing σ τ with
  | nil => exact hσ
  | cons op ops ih =>
    refine ih ?_
    rw [Op.applyFrom_of_isSome h]
    exact Op.apply_congr hσ

/-- Where no clear removes a key, it has the value of the last write, if that is one. -/
theorem foldl_applyFrom_ne_none_iff (ops : List (Op κ ν)) (h : σ k = none) :
    ops.foldl (Op.applyFrom σ) σ k ≠ none ↔ HasValue ops k := by
  induction ops using List.reverseRecOn with
  | nil => simp [h, HasValue]
  | append_singleton ops op ih =>
    rw [List.foldl_append, List.foldl_cons, List.foldl_nil, hasValue_append_singleton, ← ih]
    cases op with
    | write k' v =>
      by_cases hk : k = k'
      · subst hk
        cases v <;> simp [Op.applyFrom, Op.Names]
      · have hk' : k' ≠ k := Ne.symm hk
        simp [Op.applyFrom, Op.Names, Function.update_of_ne hk, hk']
    | clear p => simp [Op.applyFrom, Op.Names, h]

/-- If clears remove no more than the keys of the first store, a key has another value in
    the end exactly if the first store does not hold it and a clear overtakes its last
    write. -/
theorem foldl_applyFrom_eq_iff :
    ops.foldl (Op.applyFrom σ) σ k = ops.foldl Op.apply σ k ↔ (σ k = none → ¬Overtaken ops k) := by
  rcases h : σ k with _ | v
  · simp only [forall_const]
    induction ops using List.reverseRecOn with
    | nil => simp [Overtaken]
    | append_singleton ops op ih =>
      have hvalue := foldl_applyFrom_ne_none_iff ops h
      rw [List.foldl_append, List.foldl_cons, List.foldl_nil, List.foldl_append, List.foldl_cons,
        List.foldl_nil, overtaken_append_singleton]
      cases op with
      | write k' v =>
        by_cases hk : k = k'
        · subst hk
          simp [Op.applyFrom, Op.apply, Op.Names]
        · have hk' : k' ≠ k := Ne.symm hk
          simp [Op.applyFrom, Op.apply, Op.Names, Op.Covers, Function.update_of_ne hk, hk', ih]
      | clear p =>
        cases hp : p k with
        | false => simp [Op.applyFrom, Op.apply, Op.Names, Op.Covers, hp, ih]
        | true =>
          -- The early clear leaves the key, which has a value if the last write was one.
          have hnone : ops.foldl (Op.applyFrom σ) σ k = none ↔ ¬HasValue ops k := by
            rw [← hvalue, not_not]
          have hnames : ¬(Op.clear (ν := ν) p).Names k := nofun
          have hcovers : (Op.clear (ν := ν) p).Covers k := ⟨p, rfl, hp⟩
          have hor : Overtaken ops k ∨ HasValue ops k ↔ HasValue ops k :=
            or_iff_right_of_imp Overtaken.hasValue
          simp [Op.applyFrom, Op.apply, hp, h, hnames, hcovers, hor, hnone]
  · exact iff_of_true (foldl_applyFrom_of_isSome (by rw [h]; rfl) rfl) nofun

end SysAdmin.Clears
