import Mathlib.Data.List.Basic
import Mathlib.Data.List.Infix

/-!
# Runs of deterministic machines

A deterministic machine is a function `step : σ → ε → σ` from a state and an
event to the next state; nondeterminism (the order of the clients, the outcome
of an external process) sits in the sequence of events.

* `run`: the state after a sequence of events;
* `Always`: a property of every state of a run, the first and the last included;
* `Guarded`: a condition on every step of a run, read in the state before it;
* `Reachable`: the states of the guarded runs from an initial state.

The rules relate them: an invariant is proved step by step (`Always.of_step`,
`Reachable.invariant`), and a condition which is exactly what one step needs to
keep a property is exactly what a whole run needs (`always_iff_guarded`).
-/

namespace SysAdmin.Machine

variable {σ ε : Type*} (step : σ → ε → σ)

/-- The state after the events `es`. -/
def run (s : σ) (es : List ε) : σ := es.foldl step s

@[simp] theorem run_nil (s : σ) : run step s [] = s := rfl

@[simp] theorem run_cons (s : σ) (e : ε) (es : List ε) :
    run step s (e :: es) = run step (step s e) es := rfl

theorem run_append (s : σ) (es es' : List ε) :
    run step s (es ++ es') = run step (run step s es) es' := List.foldl_append

/-- `P` holds in every state of the run: the first one and the one after each event. -/
def Always (P : σ → Prop) : σ → List ε → Prop
  | s, [] => P s
  | s, e :: es => P s ∧ Always P (step s e) es

/-- `G` holds at every step of the run, of the state before it and its event. -/
def Guarded (G : σ → ε → Prop) : σ → List ε → Prop
  | _, [] => True
  | s, e :: es => G s e ∧ Guarded G (step s e) es

instance Always.decidable {P : σ → Prop} [DecidablePred P] :
    ∀ (s : σ) (es : List ε), Decidable (Always step P s es)
  | s, [] => inferInstanceAs (Decidable (P s))
  | s, e :: es => @instDecidableAnd _ _ _ (Always.decidable (step s e) es)

instance Guarded.decidable {G : σ → ε → Prop} [∀ s e, Decidable (G s e)] :
    ∀ (s : σ) (es : List ε), Decidable (Guarded step G s es)
  | _, [] => .isTrue trivial
  | s, e :: es => @instDecidableAnd _ _ _ (Guarded.decidable (step s e) es)

/-- Where each event can only set what is not set yet, the first one that does so counts. -/
theorem run_eq_or_findSome? {α : Type*} {step : σ → ε → σ} {g : σ → Option α}
    {f : ε → Option α} (h : ∀ s e, g (step s e) = (g s).or (f e)) (s : σ) (es : List ε) :
    g (run step s es) = (g s).or (es.findSome? f) := by
  induction es generalizing s with
  | nil => exact Option.or_none.symm
  | cons e es ih =>
    rw [run_cons, ih, h, Option.or_assoc, List.findSome?_cons]
    cases f e <;> rfl

variable {step} {P I J : σ → Prop} {G : σ → ε → Prop} {s : σ} {es : List ε}

theorem Always.head (h : Always step P s es) : P s := by
  cases es with
  | nil => exact h
  | cons e es => exact h.1

theorem Always.last (h : Always step P s es) : P (run step s es) := by
  induction es generalizing s with
  | nil => exact h
  | cons e es ih => exact ih h.2

theorem Always.mono (h : Always step P s es) (hPI : ∀ s, P s → I s) : Always step I s es := by
  induction es generalizing s with
  | nil => exact hPI s h
  | cons e es ih => exact ⟨hPI s h.1, ih h.2⟩

theorem Guarded.mono {G' : σ → ε → Prop} (h : Guarded step G s es)
    (hG : ∀ s e, G s e → G' s e) : Guarded step G' s es := by
  induction es generalizing s with
  | nil => trivial
  | cons e es ih => exact ⟨hG s e h.1, ih h.2⟩

variable (step) in
/-- The invariant rule: what holds first and is kept by every guarded step holds in every
    state of a guarded run. -/
theorem Always.of_step (h₀ : I s) (hstep : ∀ s e, I s → G s e → I (step s e))
    (hG : Guarded step G s es) : Always step I s es := by
  induction es generalizing s with
  | nil => exact h₀
  | cons e es ih => exact ⟨h₀, ih (hstep s e h₀ hG.1) hG.2⟩

/-- What, under an invariant, follows at each step follows along the run. -/
theorem Guarded.of_invariant {G' : σ → ε → Prop} (h₀ : I s)
    (hstep : ∀ s e, I s → G s e → I (step s e)) (hG' : ∀ s e, I s → G s e → G' s e)
    (hG : Guarded step G s es) : Guarded step G' s es := by
  induction es generalizing s with
  | nil => trivial
  | cons e es ih => exact ⟨hG' s e h₀ hG.1, ih (hstep s e h₀ hG.1) hG.2⟩

theorem guarded_of_forall (h : ∀ s e, G s e) : Guarded step G s es := by
  induction es generalizing s with
  | nil => trivial
  | cons e es ih => exact ⟨h s e, ih⟩

theorem Guarded.and {G' : σ → ε → Prop} (h : Guarded step G s es) (h' : Guarded step G' s es) :
    Guarded step (fun s e => G s e ∧ G' s e) s es := by
  induction es generalizing s with
  | nil => trivial
  | cons e es ih => exact ⟨⟨h.1, h'.1⟩, ih h.2 h'.2⟩

/-- A condition on the events alone. -/
theorem guarded_iff_forall_mem {A : ε → Prop} :
    Guarded step (fun _ e => A e) s es ↔ ∀ e ∈ es, A e := by
  induction es generalizing s with
  | nil => simp [Guarded]
  | cons e es ih => simp [Guarded, ih]

/-- `Guarded` speaks of the events of the run, each in the state before it. -/
theorem guarded_iff_forall_prefixes :
    Guarded step G s es ↔ ∀ es' e, es' ++ [e] <+: es → G (run step s es') e := by
  induction es generalizing s with
  | nil => simp [Guarded]
  | cons e es ih =>
    simp only [Guarded, ih]
    constructor
    · rintro ⟨h₀, h⟩ es' e' hp
      cases es' with
      | nil =>
        obtain ⟨rfl, _⟩ := List.cons_prefix_cons.1 hp
        exact h₀
      | cons x xs =>
        obtain ⟨rfl, ht⟩ := List.cons_prefix_cons.1 hp
        exact h xs e' ht
    · intro h
      exact ⟨h [] e (List.cons_prefix_cons.2 ⟨rfl, List.nil_prefix⟩),
        fun es' e' hp => h (e :: es') e' (List.cons_prefix_cons.2 ⟨rfl, hp⟩)⟩

/-- A step that is guarded, and keeps a property and an invariant. -/
theorem keeps_of_guard {p g i : Prop} (hg : g) (h : p ∧ i) : (p ↔ g) ∧ (g → i) :=
  ⟨iff_of_true h.1 hg, fun _ => h.2⟩

/-- If, under an invariant `J`, an allowed step keeps `P` exactly when `G` holds of it, and then
    keeps `J`, then `P` holds in every state of an allowed run exactly when `G` holds of every
    step. -/
theorem always_iff_guarded_of_kept {A : σ → ε → Prop} (hA : Guarded step A s es) (hJ₀ : J s)
    (h₀ : P s) (hstep : ∀ s e, J s → A s e → P s → (P (step s e) ↔ G s e))
    (hJ : ∀ s e, J s → A s e → P s → G s e → J (step s e)) :
    Always step P s es ↔ Guarded step G s es := by
  induction es generalizing s with
  | nil => exact ⟨fun _ => trivial, fun _ => h₀⟩
  | cons e es ih =>
    -- The head of the run decides about one step, the induction about the rest.
    have hiff := hstep s e hJ₀ hA.1 h₀
    constructor
    · rintro ⟨_, h⟩
      have hg : G s e := hiff.1 h.head
      exact ⟨hg, (ih hA.2 (hJ s e hJ₀ hA.1 h₀ hg) h.head).1 h⟩
    · rintro ⟨hg, h⟩
      exact ⟨h₀, (ih hA.2 (hJ s e hJ₀ hA.1 h₀ hg) (hiff.2 hg)).2 h⟩

/-- The same with an invariant that all allowed steps keep. -/
theorem always_iff_guarded_of_allowed {A : σ → ε → Prop} (hA : Guarded step A s es) (hJ₀ : J s)
    (hJ : ∀ s e, J s → A s e → J (step s e)) (h₀ : P s)
    (hstep : ∀ s e, J s → A s e → P s → (P (step s e) ↔ G s e)) :
    Always step P s es ↔ Guarded step G s es :=
  always_iff_guarded_of_kept hA hJ₀ h₀ hstep fun s e hj ha _ _ => hJ s e hj ha

/-- The same where every step is allowed. -/
theorem always_iff_guarded (hJ₀ : J s) (hJ : ∀ s e, J s → J (step s e)) (h₀ : P s)
    (hstep : ∀ s e, J s → P s → (P (step s e) ↔ G s e)) :
    Always step P s es ↔ Guarded step G s es :=
  always_iff_guarded_of_allowed (A := fun _ _ => True) (guarded_of_forall fun _ _ => trivial) hJ₀
    (fun s e h _ => hJ s e h) h₀ fun s e h _ => hstep s e h

/-- The same where every step is allowed, with an invariant that only guarded steps keep. -/
theorem always_iff_guarded_of_invariant (hI₀ : I s) (h₀ : P s)
    (hstep : ∀ s e, I s → P s → (P (step s e) ↔ G s e))
    (hI : ∀ s e, I s → P s → G s e → I (step s e)) :
    Always step P s es ↔ Guarded step G s es :=
  always_iff_guarded_of_kept (A := fun _ _ => True) (guarded_of_forall fun _ _ => trivial) hI₀ h₀
    (fun s e h _ => hstep s e h) fun s e h _ => hI s e h

variable (step) in
/-- The states reached from an initial state by steps satisfying `G`. -/
inductive Reachable (init : σ → Prop) (G : σ → ε → Prop) : σ → Prop
  | init {s : σ} : init s → Reachable init G s
  | step {s : σ} {e : ε} : Reachable init G s → G s e → Reachable init G (step s e)

/-- The invariant rule for reachable states. -/
theorem Reachable.invariant {init : σ → Prop} (h₀ : ∀ s, init s → I s)
    (hstep : ∀ s e, I s → G s e → I (step s e)) (h : Reachable step init G s) : I s := by
  induction h with
  | init h => exact h₀ _ h
  | step _ hg ih => exact hstep _ _ ih hg

/-- A guarded run from a reachable state ends in a reachable state. -/
theorem Reachable.run {init : σ → Prop} (h : Reachable step init G s)
    (hG : Guarded step G s es) : Reachable step init G (run step s es) := by
  induction es generalizing s with
  | nil => exact h
  | cons e es ih => exact ih (.step h hG.1) hG.2

end SysAdmin.Machine
