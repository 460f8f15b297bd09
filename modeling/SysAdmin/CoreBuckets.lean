import SysAdmin.HookManager

/-!
# Parallel hooks

`SplitSubprocessesAcrossCores` as the machine computes it, in `size_t`: dividing by zero
fails, and so does asking for a bucket that is not there.

The number of hooks that may run at once is read from the configuration, where it may be
any `size_t`, also `0`.

* `Subprocs.splitSubprocessesAcrossCores_eq`: the machine does what `HookManager` says,
  as long as it does not divide by zero;
* `Subprocs.splitsWell_iff`: the hooks are split as they should be if and only if the
  configuration does not say `0`.
-/

namespace SysAdmin

/-- Why hooks cannot be split. -/
inductive SplitFault
  | divisionByZero
  | outOfRange
  deriving DecidableEq

/-- The number of hooks that may run at once, by the node `parallel-hooks`. -/
def decodeParallelHooks (node : Option UInt64) : UInt64 := node.getD 32

/-- Hooks to run; a `size_t` counts them. -/
structure Subprocs (α : Type) where
  list : List α
  length_lt : list.length < UInt64.size

namespace Subprocs

variable {α : Type}

/-- How many hooks there are. -/
def size (subprocs : Subprocs α) : UInt64 := .ofNat subprocs.list.length

/-- The quotient. -/
def div (a b : UInt64) : Except SplitFault UInt64 :=
  if b = 0 then .error .divisionByZero else .ok (a / b)

/-- The remainder. -/
def mod (a b : UInt64) : Except SplitFault UInt64 :=
  if b = 0 then .error .divisionByZero else .ok (a % b)

/-- The loop, from the `j`-th hook on. -/
def fillBuckets (cores : UInt64) :
    UInt64 → List α → List (List α) → Except SplitFault (List (List α))
  | _, [], coreBuckets => .ok coreBuckets
  | j, s :: subprocs, coreBuckets => do
    let coreCounter ← div j cores
    if coreCounter.toNat < coreBuckets.length then
      fillBuckets cores (j + 1) subprocs (coreBuckets.modify coreCounter.toNat (· ++ [s]))
    else .error .outOfRange

/-- The hooks in batches of as many as there are cores. -/
def splitSubprocessesAcrossCores (subprocs : Subprocs α) (cores : UInt64) :
    Except SplitFault (List (List α)) := do
  let quotient ← div subprocs.size cores
  let remainder ← mod subprocs.size cores
  fillBuckets cores 0 subprocs.list (List.replicate (quotient + remainder).toNat [])

/-- Nothing fails, each hook is in one batch, in order, and no batch is too large. -/
def SplitsWell (subprocs : Subprocs α) (cores : UInt64) : Prop :=
  ∃ coreBuckets, subprocs.splitSubprocessesAcrossCores cores = .ok coreBuckets ∧
    coreBuckets.flatten = subprocs.list ∧ ∀ b ∈ coreBuckets, b.length ≤ cores.toNat

variable {cores : UInt64} {subprocs : Subprocs α}

theorem fillBuckets_eq (hc : cores ≠ 0) {j : Nat} {subprocs : List α}
    {coreBuckets : List (List α)} (hj : j + subprocs.length < UInt64.size) :
    fillBuckets cores (.ofNat j) subprocs coreBuckets =
      (SysAdmin.fillBuckets cores.toNat j subprocs coreBuckets).elim
        (.error .outOfRange) .ok := by
  induction subprocs generalizing j coreBuckets with
  | nil => rfl
  | cons s subprocs ih =>
    rw [List.length_cons] at hj
    have hdiv : (UInt64.ofNat j / cores).toNat = j / cores.toNat := by
      rw [UInt64.toNat_div, UInt64.toNat_ofNat_of_lt' (by omega)]
    have hnext : UInt64.ofNat j + 1 = .ofNat (j + 1) := (UInt64.ofNat_add j 1).symm
    rw [fillBuckets, div, if_neg hc, SysAdmin.fillBuckets, ← hdiv, hnext]
    change (if _ then _ else _) = _
    split
    · exact ih (by omega)
    · rfl

/-- The number of buckets does not overflow. -/
theorem toNat_div_add_mod (hc : cores ≠ 0) :
    (subprocs.size / cores + subprocs.size % cores).toNat =
      subprocs.list.length / cores.toNat + subprocs.list.length % cores.toNat := by
  have hpos : 1 ≤ cores.toNat := Nat.one_le_iff_ne_zero.2 fun h => hc (UInt64.toNat.inj h)
  have hdiv := Nat.div_add_mod subprocs.list.length cores.toNat
  have hle := Nat.le_mul_of_pos_left (subprocs.list.length / cores.toNat) hpos
  have hlt := subprocs.length_lt
  rw [UInt64.toNat_add, UInt64.toNat_div, UInt64.toNat_mod, size,
    UInt64.toNat_ofNat_of_lt' hlt]
  exact Nat.mod_eq_of_lt (Nat.lt_of_le_of_lt (by omega) hlt)

/-- Where the machine does not divide by zero, it splits hooks as if without `size_t`. -/
theorem splitSubprocessesAcrossCores_eq (hc : cores ≠ 0) :
    subprocs.splitSubprocessesAcrossCores cores =
      (SysAdmin.splitSubprocessesAcrossCores subprocs.list cores.toNat).elim
        (.error .outOfRange) .ok := by
  have hfill := @fillBuckets_eq _ _ hc 0 subprocs.list
    (List.replicate (subprocs.size / cores + subprocs.size % cores).toNat [])
    (by rw [Nat.zero_add]; exact subprocs.length_lt)
  rw [SysAdmin.splitSubprocessesAcrossCores, ← toNat_div_add_mod hc, ← hfill,
    splitSubprocessesAcrossCores, div, mod, if_neg hc, if_neg hc]
  rfl

/-- Not even no hooks at all can be split into batches of none. -/
theorem splitSubprocessesAcrossCores_zero :
    subprocs.splitSubprocessesAcrossCores 0 = .error .divisionByZero := rfl

/-- Hooks are split as they should be if and only if the configuration lets one run. -/
theorem splitsWell_iff (subprocs : Subprocs α) (node : Option UInt64) :
    subprocs.SplitsWell (decodeParallelHooks node) ↔ node ≠ some 0 := by
  constructor
  · rintro ⟨coreBuckets, h, -⟩ rfl
    cases splitSubprocessesAcrossCores_zero.symm.trans h
  · intro hnode
    have hc : decodeParallelHooks node ≠ 0 := by
      cases node with
      | none => decide
      | some cores => exact fun h => hnode (congrArg some h)
    have hpos : 1 ≤ (decodeParallelHooks node).toNat :=
      Nat.one_le_iff_ne_zero.2 fun h => hc (UInt64.toNat.inj h)
    obtain ⟨coreBuckets, h, hflat, hle⟩ :=
      SysAdmin.splitSubprocessesAcrossCores_eq hpos subprocs.list
    exact ⟨coreBuckets, by rw [splitSubprocessesAcrossCores_eq hc, h]; rfl, hflat, hle⟩

/-- One hook, and `parallel-hooks: 0`. -/
theorem not_splitsWell_zero :
    ¬ SplitsWell ⟨[(⟨"service1", .service, [⟨.ofString "net.*", false⟩], 1⟩ : HookUser)],
      by decide⟩ (decodeParallelHooks (some 0)) := by
  rintro ⟨coreBuckets, h, -⟩
  cases splitSubprocessesAcrossCores_zero.symm.trans h

end Subprocs

end SysAdmin
