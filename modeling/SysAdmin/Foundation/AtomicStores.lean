import SysAdmin.Foundation.Machine
import SysAdmin.Foundation.Writes
import Mathlib.Data.Set.Basic

/-!
# Atomic stores

A store whose keys are written and read several at once: a write changes some of them, and a read
answers what it finds at the keys that it asks for. Readers have names, to tell the answers apart.

* `AtomicStore.values_run`: the writes of a run, one after the other, make up the store;
* `AtomicStore.snapshot_of_write`: what has been written is read until it is written again.
-/

namespace SysAdmin

open Machine Writes

/-- What is done with a store: some writes at once, or a read of some keys. -/
inductive StoreOp (κ ν ι : Type*)
  | write (ws : List (κ × Option ν))
  | read (reader : ι) (keys : Set κ)

namespace StoreOp

variable {κ ν ι : Type*}

/-- What an operation writes. -/
def writes : StoreOp κ ν ι → List (κ × Option ν)
  | write ws => ws
  | read .. => []

end StoreOp

/-- The values of a store, and the answers that have been given. -/
structure AtomicStore (κ ν ι : Type*) where
  values : κ → Option ν
  answers : List (ι × (κ → Option ν))

namespace AtomicStore

variable {κ ν ι : Type*}

/-- A store that has given no answers. -/
def start (values : κ → Option ν) : AtomicStore κ ν ι := ⟨values, []⟩

open Classical in
/-- What the store has at some keys. -/
noncomputable def snapshot (s : AtomicStore κ ν ι) (keys : Set κ) : κ → Option ν :=
  fun k => if k ∈ keys then s.values k else none

theorem snapshot_eq_some_iff {s : AtomicStore κ ν ι} {keys : Set κ} {k : κ} {v : ν} :
    s.snapshot keys k = some v ↔ s.values k = some v ∧ k ∈ keys := by
  rw [snapshot]
  split
  · next hk => simp [hk]
  · next hk => simp [hk]

variable [DecidableEq κ]

/-- Does an operation. -/
noncomputable def step (s : AtomicStore κ ν ι) : StoreOp κ ν ι → AtomicStore κ ν ι
  | .write ws => { s with values := overlay ws s.values }
  | .read reader keys => { s with answers := s.answers ++ [(reader, s.snapshot keys)] }

variable {s : AtomicStore κ ν ι} {ops : List (StoreOp κ ν ι)}

theorem values_run : (run step s ops).values = overlay (ops.flatMap StoreOp.writes) s.values := by
  induction ops generalizing s with
  | nil => rfl
  | cons op ops ih =>
    rw [run_cons, ih, List.flatMap_cons, overlay_append]
    cases op <;> rfl

/-- What has been written is read until it is written again. -/
theorem snapshot_of_write {ws : List (κ × Option ν)} {between : List (StoreOp κ ν ι)}
    {keys : Set κ} {k : κ} {v : Option ν} (hw : lastWrite k ws = some v)
    (hbetween : ∀ op ∈ between, ∀ w ∈ op.writes, w.1 ≠ k) (hk : k ∈ keys) :
    (run step s (ops ++ .write ws :: between)).snapshot keys k = v := by
  have hnone : lastWrite k (between.flatMap StoreOp.writes) = none := by
    refine lastWrite_eq_none_iff.2 fun w hmem => ?_
    obtain ⟨op, hop, hw⟩ := List.mem_flatMap.1 hmem
    exact hbetween op hop w hw
  rw [snapshot, if_pos hk, run_append, run_cons, values_run, overlay_apply, hnone,
    Option.getD_none]
  change overlay ws _ k = v
  rw [overlay_apply, hw, Option.getD_some]

end AtomicStore

end SysAdmin
