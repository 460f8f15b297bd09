import SysAdmin.Foundation.Machine

/-!
# Machines that take several steps for one

A machine that may also get stuck, `step : σ → ε → Option σ`, is simulated by one that makes
several of its own steps for one event, which ones may depend on the state.

* `runPartial`: the state after a sequence of events, if the machine gets there;
* `trace`: the events of the simulating machine along a run;
* `exists_run_of_simulation`: with a relation of the states that every event keeps, the machine
  does not get stuck, and its run is simulated by the trace;
* `exists_run_of_guarded`: the same for runs with a condition on their steps;
* `history`, `run_of_simulation`: the same for machines that never get stuck;
* `alwaysPartial_iff_guardedPartial`: what each step needs to keep a property is what the run needs.
-/

namespace SysAdmin.Machine

variable {σ τ ε ε' : Type*} (step : σ → ε → Option σ) (events : σ → ε → List ε')

/-- The state after the events, if each of them can be handled. -/
def runPartial (s : σ) (es : List ε) : Option σ := es.foldlM step s

/-- What happens in a simulation, one event after the other. -/
def trace : σ → List ε → List ε'
  | _, [] => []
  | s, e :: es => events s e ++ ((step s e).map fun s' => trace s' es).getD []

@[simp] theorem runPartial_nil (s : σ) : runPartial step s [] = some s := rfl

theorem runPartial_cons (s : σ) (e : ε) (es : List ε) :
    runPartial step s (e :: es) = (step s e).bind fun s' => runPartial step s' es := rfl

variable {step events} {s : σ} {t : τ} {e : ε} {es : List ε}

@[simp] theorem trace_nil : trace step events s [] = [] := rfl

theorem trace_cons {s' : σ} (h : step s e = some s') :
    trace step events s (e :: es) = events s e ++ trace step events s' es := by
  rw [trace, h]
  rfl

/-- The simulation rule: if each event leads to a state that is related to what the simulation
    comes to, then so does a run. -/
theorem exists_run_of_simulation {step' : τ → ε' → τ} {R : σ → τ → Prop}
    (hstep : ∀ s t e, R s t → ∃ s', step s e = some s' ∧ R s' (run step' t (events s e)))
    (h₀ : R s t) (es : List ε) :
    ∃ s', runPartial step s es = some s' ∧ R s' (run step' t (trace step events s es)) := by
  induction es generalizing s t with
  | nil => exact ⟨s, rfl, h₀⟩
  | cons e es ih =>
    obtain ⟨s₁, hs₁, hR⟩ := hstep s t e h₀
    obtain ⟨s', hs', hR'⟩ := ih hR
    refine ⟨s', by rw [runPartial_cons, hs₁]; exact hs', ?_⟩
    rw [trace_cons hs₁, run_append]
    exact hR'

/-- The simulation rule for a run that does not get stuck. -/
theorem rel_of_runPartial {step' : τ → ε' → τ} {R : σ → τ → Prop} {s' : σ}
    (hstep : ∀ s t e s', R s t → step s e = some s' → R s' (run step' t (events s e)))
    (h₀ : R s t) (h : runPartial step s es = some s') :
    R s' (run step' t (trace step events s es)) := by
  induction es generalizing s t with
  | nil => exact Option.some.inj h ▸ h₀
  | cons e es ih =>
    obtain ⟨s₁, hs₁, h⟩ := Option.bind_eq_some_iff.1 h
    rw [trace_cons hs₁, run_append]
    exact ih (hstep s t e s₁ h₀ hs₁) h

/-- The invariant rule for machines that may get stuck. -/
theorem runPartial_invariant {I : σ → Prop} {s' : σ}
    (hstep : ∀ s, ∀ e ∈ es, ∀ s', I s → step s e = some s' → I s') (h₀ : I s)
    (h : runPartial step s es = some s') : I s' := by
  induction es generalizing s with
  | nil => exact Option.some.inj h ▸ h₀
  | cons e es ih =>
    obtain ⟨s₁, hs₁, h⟩ := Option.bind_eq_some_iff.1 h
    exact ih (fun s e he => hstep s e (List.mem_cons_of_mem _ he))
      (hstep s e List.mem_cons_self s₁ h₀ hs₁) h

section guarded

variable (step)

/-- `G` holds at every step of the run, as far as it gets. -/
def GuardedPartial (G : σ → ε → Prop) : σ → List ε → Prop
  | _, [] => True
  | s, e :: es => G s e ∧ ∀ s', step s e = some s' → GuardedPartial G s' es

/-- `P` holds in every state that the run gets to. -/
def AlwaysPartial (P : σ → Prop) : σ → List ε → Prop
  | s, [] => P s
  | s, e :: es => P s ∧ ∀ s', step s e = some s' → AlwaysPartial P s' es

instance GuardedPartial.decidable {G : σ → ε → Prop} [∀ s e, Decidable (G s e)] :
    ∀ (s : σ) (es : List ε), Decidable (GuardedPartial step G s es)
  | _, [] => .isTrue trivial
  | s, e :: es =>
    match h : step s e with
    | none => decidable_of_iff (G s e) ⟨fun hg => ⟨hg, fun _ hs => by cases h.symm.trans hs⟩,
        And.left⟩
    | some s₁ =>
      @decidable_of_iff _ (G s e ∧ GuardedPartial step G s₁ es)
        ⟨fun hg => ⟨hg.1, fun _ hs => Option.some.inj (h.symm.trans hs) ▸ hg.2⟩,
          fun hg => ⟨hg.1, hg.2 s₁ h⟩⟩
        (@instDecidableAnd _ _ _ (GuardedPartial.decidable s₁ es))

variable {step} {P J : σ → Prop} {A G : σ → ε → Prop}

theorem GuardedPartial.mono (h : GuardedPartial step A s es) (hAG : ∀ s e, A s e → G s e) :
    GuardedPartial step G s es := by
  induction es generalizing s with
  | nil => trivial
  | cons e es ih => exact ⟨hAG s e h.1, fun s' hs' => ih (h.2 s' hs')⟩

theorem AlwaysPartial.head (h : AlwaysPartial step P s es) : P s := by
  cases es with
  | nil => exact h
  | cons e es => exact h.1

theorem GuardedPartial.and (h : GuardedPartial step A s es) (h' : GuardedPartial step G s es) :
    GuardedPartial step (fun s e => A s e ∧ G s e) s es := by
  induction es generalizing s with
  | nil => trivial
  | cons e es ih => exact ⟨⟨h.1, h'.1⟩, fun s' hs' => ih (h.2 s' hs') (h'.2 s' hs')⟩

/-- The simulation rule for guarded runs. -/
theorem exists_run_of_guarded {step' : τ → ε' → τ} {R : σ → τ → Prop}
    (hstep : ∀ s t e, R s t → G s e → ∃ s', step s e = some s' ∧ R s' (run step' t (events s e)))
    (h₀ : R s t) (hG : GuardedPartial step G s es) :
    ∃ s', runPartial step s es = some s' ∧ R s' (run step' t (trace step events s es)) := by
  induction es generalizing s t with
  | nil => exact ⟨s, rfl, h₀⟩
  | cons e es ih =>
    obtain ⟨s₁, hs₁, hR⟩ := hstep s t e h₀ hG.1
    obtain ⟨s', hs', hR'⟩ := ih hR (hG.2 s₁ hs₁)
    refine ⟨s', by rw [runPartial_cons, hs₁]; exact hs', ?_⟩
    rw [trace_cons hs₁, run_append]
    exact hR'

/-- If, under an invariant `J`, an allowed step can be made where `P` holds, and keeps `P` exactly
    when `G` holds of it, then `P` holds in every state of an allowed run exactly when `G` holds
    of every step. -/
theorem alwaysPartial_iff_guardedPartial (hA : GuardedPartial step A s es) (hJ₀ : J s) (h₀ : P s)
    (hstep : ∀ s e, J s → A s e → P s → ∃ s', step s e = some s' ∧ J s' ∧ (P s' ↔ G s e)) :
    AlwaysPartial step P s es ↔ GuardedPartial step G s es := by
  induction es generalizing s with
  | nil => exact ⟨fun _ => trivial, fun _ => h₀⟩
  | cons e es ih =>
    obtain ⟨s₁, hs₁, hJ₁, hiff⟩ := hstep s e hJ₀ hA.1 h₀
    constructor
    · intro h
      have hP : P s₁ := (h.2 s₁ hs₁).head
      refine ⟨hiff.1 hP, fun s' hs' => ?_⟩
      obtain rfl : s₁ = s' := Option.some.inj (hs₁.symm.trans hs')
      exact (ih (hA.2 s₁ hs₁) hJ₁ hP).1 (h.2 s₁ hs₁)
    · intro h
      refine ⟨h₀, fun s' hs' => ?_⟩
      obtain rfl : s₁ = s' := Option.some.inj (hs₁.symm.trans hs')
      exact (ih (hA.2 s₁ hs₁) hJ₁ (hiff.2 h.1)).2 (h.2 s₁ hs₁)

end guarded

section total

variable (step : σ → ε → σ) (events : σ → ε → List ε')

/-- What happens in a simulation of a machine that never gets stuck. -/
def history : σ → List ε → List ε'
  | _, [] => []
  | s, e :: es => events s e ++ history (step s e) es

variable {step events}

theorem history_append {es' : List ε} : history step events s (es ++ es') =
    history step events s es ++ history step events (run step s es) es' := by
  induction es generalizing s with
  | nil => rfl
  | cons e es ih =>
    rw [List.cons_append, history, ih, ← List.append_assoc]
    rfl

/-- The simulation rule: if each event keeps a relation of the states, then so does a run. -/
theorem run_of_simulation {step' : τ → ε' → τ} {R : σ → τ → Prop}
    (hstep : ∀ s t e, R s t → R (step s e) (run step' t (events s e))) (h₀ : R s t)
    (es : List ε) : R (run step s es) (run step' t (history step events s es)) := by
  induction es generalizing s t with
  | nil => exact h₀
  | cons e es ih =>
    rw [run_cons, history, run_append]
    exact ih (hstep s t e h₀)

end total

end SysAdmin.Machine
