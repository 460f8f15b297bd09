import Mathlib.Algebra.Order.Ring.Int
import Mathlib.Data.List.Range

/-!
# Schedules

Something is due for the first time some while after a start, and then once per interval or, if the
interval is 0, never again.

* `timesTo`: when it has been due, up to a time, of which there may be one more with each step of
  the clock (`timesTo_succ`);
* `isDue_succ_iff`: the next time is an interval after the last one.
-/

namespace SysAdmin.Schedules

variable {start timeout interval last now t : ℤ}

/-- Something is due at a time. -/
def IsDue (start timeout interval t : ℤ) : Prop :=
  t = start + timeout ∨ 0 < interval ∧ start + timeout < t ∧ interval ∣ t - (start + timeout)

instance : DecidablePred (IsDue start timeout interval) :=
  fun _ => inferInstanceAs (Decidable (_ ∨ _))

/-- The times after the start when something has been due, up to a time. -/
def timesTo (start timeout interval now : ℤ) : List ℤ :=
  ((List.range (now - start).toNat).map fun n : ℕ => start + n + 1).filter
    (IsDue start timeout interval)

theorem timesTo_self : timesTo start timeout interval start = [] := by
  rw [timesTo, Int.sub_self]
  rfl

theorem timesTo_succ (h : start ≤ now) : timesTo start timeout interval (now + 1) =
    timesTo start timeout interval now ++
      if IsDue start timeout interval (now + 1) then [now + 1] else [] := by
  have hsucc : (now + 1 - start).toNat = (now - start).toNat + 1 := by omega
  have hlast : start + ((now - start).toNat : ℤ) + 1 = now + 1 := by omega
  rw [timesTo, timesTo, hsucc, List.range_succ, List.map_append, List.filter_append,
    List.map_singleton, hlast, List.filter_singleton]
  by_cases hdue : IsDue start timeout interval (now + 1) <;> simp [hdue]

/-- Before the first time, it is due at that time. -/
theorem isDue_succ_iff_first (h : now < start + timeout) :
    IsDue start timeout interval (now + 1) ↔ timeout ≤ now + 1 - start := by
  rw [IsDue]
  constructor
  · rintro (h | ⟨_, h, _⟩) <;> omega
  · exact fun h => .inl (by omega)

/-- After a time when it has been due, it is due an interval later. -/
theorem isDue_succ_iff (hi : 0 < interval) (hlast : IsDue start timeout interval last)
    (h₁ : last ≤ now) (h₂ : now < last + interval) :
    IsDue start timeout interval (now + 1) ↔ interval ≤ now + 1 - last := by
  have hfirst : start + timeout ≤ last := by
    obtain h | ⟨_, h, _⟩ := hlast <;> omega
  have hdvd : interval ∣ last - (start + timeout) := by
    obtain h | ⟨_, _, h⟩ := hlast
    · rw [h, Int.sub_self]
      exact Int.dvd_zero interval
    · exact h
  -- Being due now is being a multiple of the interval after the last time.
  have hadd : now + 1 - (start + timeout) = now + 1 - last + (last - (start + timeout)) := by omega
  have hiff : IsDue start timeout interval (now + 1) ↔ interval ∣ now + 1 - last := by
    rw [← Int.dvd_add_left hdvd, ← hadd, IsDue]
    constructor
    · rintro (h | ⟨_, _, h⟩)
      · omega
      · exact h
    · exact fun h => .inr ⟨hi, by omega, h⟩
  rw [hiff]
  constructor
  · exact fun h => Int.le_of_dvd (by omega) h
  · intro h
    rw [show now + 1 - last = interval by omega]

end SysAdmin.Schedules
