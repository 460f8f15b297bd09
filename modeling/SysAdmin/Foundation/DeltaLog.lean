import Mathlib.Data.Set.Function
import SysAdmin.Foundation.Writes

/-!
# Logs of changes to a store

A log records changes to a store (`Delta`), each with the store before it and with
writes that are said to make the change. Whether they do may be asked on some keys
only: `Chained K log σ` says that, on the keys `K`, the writes of each change lead to
the store before the next one, and those of the last change lead to `σ`.

A chained log can be replayed (`Chained.replay`), also from a later change on
(`Chained.drop`), which is all that is left of a log whose oldest changes are dropped.
-/

namespace SysAdmin.DeltaLog

open Writes

variable {κ ν : Type*}

/-- A change: the store before it, and the writes that make it. -/
structure Delta (κ ν : Type*) where
  before : κ → Option ν
  writes : List (κ × Option ν)

/-- The store before the first change of a log that ends in `σ`. -/
def origin : List (Delta κ ν) → (κ → Option ν) → κ → Option ν
  | [], σ => σ
  | d :: _, _ => d.before

theorem origin_eqOn {K : Set κ} {log : List (Delta κ ν)} {σ τ : κ → Option ν}
    (h : Set.EqOn σ τ K) : Set.EqOn (origin log σ) (origin log τ) K := by
  cases log with
  | nil => exact h
  | cons d log => exact fun _ _ => rfl

variable [DecidableEq κ]

/-- On the keys `K`, each change of the log leads to the next one, and the last one
    leads to `σ`. -/
def Chained (K : Set κ) : List (Delta κ ν) → (κ → Option ν) → Prop
  | [], _ => True
  | d :: log, σ => Set.EqOn (overlay d.writes d.before) (origin log σ) K ∧ Chained K log σ

variable {K : Set κ} {log : List (Delta κ ν)} {d : Delta κ ν} {σ τ : κ → Option ν}
  {ws : List (κ × Option ν)}

theorem overlay_eqOn (h : Set.EqOn σ τ K) : Set.EqOn (overlay ws σ) (overlay ws τ) K :=
  fun k hk => by rw [overlay_apply, overlay_apply, h hk]

/-- What the log ends in only counts on the keys `K`. -/
theorem Chained.congr (h : Chained K log σ) (hστ : Set.EqOn σ τ K) : Chained K log τ := by
  induction log with
  | nil => trivial
  | cons d log ih => exact ⟨h.1.trans (origin_eqOn hστ), ih h.2⟩

/-- Another change may be added that starts where the log ends. -/
theorem Chained.append (h : Chained K log d.before)
    (hd : Set.EqOn (overlay d.writes d.before) σ K) : Chained K (log ++ [d]) σ := by
  induction log with
  | nil => exact ⟨hd, trivial⟩
  | cons e log ih =>
    refine ⟨?_, ih h.2⟩
    cases log with
    | nil => exact h.1
    | cons e' log => exact h.1

/-- The oldest changes may be dropped. -/
theorem Chained.drop (h : Chained K log σ) (n : Nat) : Chained K (log.drop n) σ := by
  induction n generalizing log with
  | zero => exact h
  | succ n ih =>
    cases log with
    | nil => trivial
    | cons d log => exact ih h.2

/-- Replaying all changes on the store before the first one gives what the log ends in. -/
theorem Chained.replay (h : Chained K log σ) :
    Set.EqOn (overlay (log.flatMap Delta.writes) (origin log σ)) σ K := by
  induction log with
  | nil => exact fun _ _ => rfl
  | cons d log ih =>
    rw [List.flatMap_cons, overlay_append]
    exact (overlay_eqOn h.1).trans (ih h.2)

end SysAdmin.DeltaLog
