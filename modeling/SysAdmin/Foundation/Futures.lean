import Mathlib.Logic.Basic

/-!
# Futures and their exceptions

A function that returns a future can fail in two ways: the call itself throws, or the
future completes with an exception. Handlers are attached to the future, so they only see
exceptions of the second kind.

* `Completion`: how a future completes;
* `Call`: what calling such a function comes to, with `thenValue` and `thenError` for what
  is attached to its future, and `after` for what is called before;
* `Call.Handled`: the call does not throw, and its future completes with no exception but
  those of a kind. What is attached changes the kind (`handled_thenError`), and with no
  kind left there is a value (`handled_false_iff`);
* `Call.Yields`: what holds of the value, if there is one.
-/

namespace SysAdmin.Futures

variable {ε α β : Type}

/-- How a future completes: with a value, or with an exception. -/
inductive Completion (ε α : Type)
  | value (a : α)
  | exception (e : ε)
  deriving DecidableEq

/-- A call of a function that returns a future: it throws, or returns a future, which
    completes sooner or later. -/
inductive Call (ε α : Type)
  | threw (e : ε)
  | future (c : Completion ε α)
  deriving DecidableEq

namespace Completion

/-- Goes on with the value. -/
def thenValue (f : α → β) : Completion ε α → Completion ε β
  | value a => value (f a)
  | exception e => exception e

/-- Makes a value of the exceptions that the handler takes. -/
def thenError (handler : ε → Option α) : Completion ε α → Completion ε α
  | value a => value a
  | exception e =>
    match handler e with
    | some a => value a
    | none => exception e

end Completion

namespace Call

open Completion

/-- Attaches something to the future. -/
def map (g : Completion ε α → Completion ε β) : Call ε α → Call ε β
  | threw e => threw e
  | future c => future (g c)

/-- Goes on with the value of the future. -/
def thenValue (f : α → β) (x : Call ε α) : Call ε β := x.map (Completion.thenValue f)

/-- Makes a value of the exceptions of the future that the handler takes. -/
def thenError (handler : ε → Option α) (x : Call ε α) : Call ε α :=
  x.map (Completion.thenError handler)

/-- A call behind another one. If that throws, so does all of it. -/
def after (y : Except ε β) (g : β → Call ε α) : Call ε α :=
  match y with
  | .ok b => g b
  | .error e => threw e

/-- Makes a future of a call that may throw. -/
def makeFutureWith : Call ε α → Completion ε α
  | future c => c
  | threw e => exception e

/-- The call does not throw, and its future completes with a value or with an exception
    that satisfies `P`. -/
def Handled (P : ε → Prop) : Call ε α → Prop
  | threw _ => False
  | future (value _) => True
  | future (exception e) => P e

/-- The value, if the call comes to one, satisfies `Q`. -/
def Yields (Q : α → Prop) : Call ε α → Prop
  | future (value a) => Q a
  | threw _ | future (exception _) => True

variable {x : Call ε α} {P : ε → Prop} {f : α → β} {handler : ε → Option α}

/-- Going on with the value keeps the exceptions. -/
theorem handled_thenValue : (x.thenValue f).Handled P ↔ x.Handled P := by
  rcases x with e | a | e
  · rfl
  · rfl
  · rfl

/-- Behind a handler, only the exceptions that it does not take are left. -/
theorem handled_thenError :
    (x.thenError handler).Handled P ↔ x.Handled fun e => (handler e).isSome = true ∨ P e := by
  rcases x with e | a | e
  · rfl
  · rfl
  · simp only [thenError, map, Completion.thenError, Handled]
    rcases handler e with _ | a
    · simp
    · simp

/-- What is called before must not throw. -/
theorem handled_after {y : Except ε β} {g : β → Call ε α} :
    (after y g).Handled P ↔ ∃ b, y = .ok b ∧ (g b).Handled P := by
  cases y with
  | error e => simp [after, Handled]
  | ok b => simp [after]

/-- With no exception left, there is a value. -/
theorem handled_false_iff : x.Handled (fun _ => False) ↔ ∃ a, x.makeFutureWith = value a := by
  rcases x with e | a | e
  · exact iff_of_false id nofun
  · exact iff_of_true trivial ⟨a, rfl⟩
  · exact iff_of_false id nofun

section yields

variable {Q : α → Prop}

theorem Yields.of_value {a : α} (h : x.Yields Q) (hx : x.makeFutureWith = value a) : Q a := by
  rcases x with e | b | e
  · cases hx
  · cases hx
    exact h
  · cases hx

theorem yields_thenValue {Q : β → Prop} (h : ∀ a, Q (f a)) : (x.thenValue f).Yields Q := by
  rcases x with e | a | e
  · trivial
  · exact h a
  · trivial

theorem Yields.thenError (hx : x.Yields Q) (h : ∀ e a, handler e = some a → Q a) :
    (x.thenError handler).Yields Q := by
  rcases x with e | a | e
  · trivial
  · exact hx
  · simp only [Call.thenError, map, Completion.thenError]
    rcases he : handler e with _ | a
    · trivial
    · exact h e a he

theorem yields_after {y : Except ε β} {g : β → Call ε α} (h : ∀ b, (g b).Yields Q) :
    (after y g).Yields Q := by
  cases y with
  | error e => trivial
  | ok b => exact h b

end yields

end Call

end SysAdmin.Futures
