import SysAdmin.Foundation.Machine

/-!
# Machines with outputs

A transducer is a function `step : σ → ε → σ × ο` that also answers each event. What it
answers along a run is a list of outputs, one for each event.

* `transduce`: the state after a sequence of events, and the outputs;
* `transduce_of_simulation`: two transducers whose states are related, and stay so with equal
  outputs, answer alike.
-/

namespace SysAdmin.Machine

variable {σ τ ε ο : Type*}

/-- The state of a transducer after the events, and what it has answered to them. -/
def transduce (step : σ → ε → σ × ο) : σ → List ε → σ × List ο
  | s, [] => (s, [])
  | s, e :: es =>
    let (s', o) := step s e
    let (s'', os) := transduce step s' es
    (s'', o :: os)

variable {step : σ → ε → σ × ο} {step' : τ → ε → τ × ο} {s : σ} {t : τ} {e : ε} {es : List ε}

@[simp] theorem transduce_nil : transduce step s [] = (s, []) := rfl

theorem transduce_cons : transduce step s (e :: es) =
    ((transduce step (step s e).1 es).1, (step s e).2 :: (transduce step (step s e).1 es).2) := rfl

/-- The states of a transducer are those of a machine. -/
theorem transduce_fst : (transduce step s es).1 = run (fun s e => (step s e).1) s es := by
  induction es generalizing s with
  | nil => rfl
  | cons e es ih => rw [transduce_cons, run_cons, ih]

/-- The simulation rule: if guarded events keep a relation of the states and are answered
    alike, then so are guarded runs. -/
theorem transduce_of_simulation {R : σ → τ → Prop} {G : σ → ε → Prop} (h₀ : R s t)
    (hstep : ∀ s t e, R s t → G s e →
      R (step s e).1 (step' t e).1 ∧ (step s e).2 = (step' t e).2)
    (hG : Guarded (fun s e => (step s e).1) G s es) :
    R (transduce step s es).1 (transduce step' t es).1 ∧
      (transduce step s es).2 = (transduce step' t es).2 := by
  induction es generalizing s t with
  | nil => exact ⟨h₀, rfl⟩
  | cons e es ih =>
    obtain ⟨hR, ho⟩ := hstep s t e h₀ hG.1
    obtain ⟨hRs, hos⟩ := ih hR hG.2
    exact ⟨hRs, congrArg₂ List.cons ho hos⟩

end SysAdmin.Machine
