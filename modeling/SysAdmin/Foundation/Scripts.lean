import Mathlib.Data.List.Basic

/-!
# Scripts

A script makes calls to the world outside, one after the other, and may raise an exception at
any of them. What the world answers to a call may depend on all calls before (`World`), and no
answer means that the call raises.

* `Script`: takes the events so far and gives its value, or `none` if it has raised, with the
  events after it;
* `Script.Appends P`: a script only adds events, of calls with the property `P`, whatever the
  world answers. It holds of a script if it holds of its parts (`Appends.bind`,
  `Appends.forM`).
-/

namespace SysAdmin.Scripts

/-- A call and its answer. -/
structure Event (κ ρ : Type) where
  call : κ
  answer : Option ρ

/-- What is answered to a call after the events so far. -/
abbrev World (κ ρ : Type) := List (Event κ ρ) → κ → Option ρ

/-- A computation that makes calls. -/
def Script (κ ρ α : Type) : Type := List (Event κ ρ) → Option α × List (Event κ ρ)

namespace Script

variable {κ ρ α β : Type}

instance : Monad (Script κ ρ) where
  pure a events := (some a, events)
  bind x f events :=
    match x events with
    | (some a, events) => f a events
    | (none, events) => (none, events)

/-- Raises an exception. -/
def raise : Script κ ρ α := fun events => (none, events)

/-- Goes on with a value, or raises an exception if there is none. -/
def ofOption : Option α → Script κ ρ α
  | some a => pure a
  | none => raise

/-- Makes a call. -/
def send (world : World κ ρ) (call : κ) : Script κ ρ ρ :=
  fun events => (world events call, events ++ [⟨call, world events call⟩])

variable {x : Script κ ρ α} {f : α → Script κ ρ β} {a : α} {P : κ → Prop} {call : κ}
  {world : World κ ρ} {events events' : List (Event κ ρ)}

/-- A script goes on with the value of its first part. -/
theorem bind_of_some (h : x events = (some a, events')) : (x >>= f) events = f a events' := by
  change (match x events with
    | (some a, events) => f a events
    | (none, events) => (none, events)) = _
  rw [h]

/-- Nothing comes after an exception. -/
theorem bind_of_none (h : x events = (none, events')) : (x >>= f) events = (none, events') := by
  change (match x events with
    | (some a, events) => f a events
    | (none, events) => (none, events)) = _
  rw [h]

theorem ofOption_some_bind : (ofOption (some a) >>= f : Script κ ρ β) = f a := rfl

/-- Behind a call that is answered, a script goes on with the answer. -/
theorem send_bind_of_some {f : ρ → Script κ ρ β} {r : ρ} (h : world events call = some r) :
    (send world call >>= f) events = f r (events ++ [⟨call, some r⟩]) :=
  bind_of_some (by rw [send, h])

/-- A call that raises is the last one. -/
theorem send_bind_of_none {f : ρ → Script κ ρ β} (h : world events call = none) :
    (send world call >>= f) events = (none, events ++ [⟨call, none⟩]) :=
  bind_of_none (by rw [send, h])

/-- A script with one call leaves the event of this call. -/
theorem snd_send_bind_pure : ((send world call >>= fun _ => pure a) events).2 =
    events ++ [⟨call, world events call⟩] := by
  rcases hsend : world events call with _ | r
  · rw [send_bind_of_none hsend]
  · rw [send_bind_of_some hsend]
    rfl

/-- A script that comes to an end has not raised in between. -/
theorem bind_eq_some {b : β} : (x >>= f) events = (some b, events') ↔
    ∃ a between, x events = (some a, between) ∧ f a between = (some b, events') := by
  rcases hx : x events with ⟨_ | a, between⟩
  · rw [bind_of_none hx]
    simp
  · rw [bind_of_some hx]
    simp

/-- A script that comes to an end has got an answer to its first call. -/
theorem send_bind_eq_some {f : ρ → Script κ ρ β} {b : β} :
    (send world call >>= f) events = (some b, events') ↔
      ∃ r, world events call = some r ∧ f r (events ++ [⟨call, some r⟩]) = (some b, events') := by
  rcases hsend : world events call with _ | r
  · rw [send_bind_of_none hsend]
    simp
  · rw [send_bind_of_some hsend]
    simp

/-! ## What a script adds -/

/-- The script adds events of calls with a property to those before. -/
def Appends (P : κ → Prop) (x : Script κ ρ α) : Prop :=
  ∀ events, ∃ new, (x events).2 = events ++ new ∧ ∀ e ∈ new, P e.call

namespace Appends

protected theorem pure : Appends P (pure a : Script κ ρ α) :=
  fun events => ⟨[], (List.append_nil events).symm, nofun⟩

protected theorem raise : Appends P (raise : Script κ ρ α) :=
  fun events => ⟨[], (List.append_nil events).symm, nofun⟩

protected theorem ofOption {o : Option α} : Appends P (ofOption o : Script κ ρ α) := by
  cases o with
  | none => exact Appends.raise
  | some a => exact Appends.pure

protected theorem send (h : P call) : Appends P (send world call) :=
  fun events => ⟨[⟨call, world events call⟩], rfl, fun e he => by rwa [List.mem_singleton.1 he]⟩

/-- If each part only adds such events, then the whole script does. -/
protected theorem bind (hx : Appends P x) (hf : ∀ a, Appends P (f a)) :
    Appends P (x >>= f) := fun events => by
  obtain ⟨new, hnew, hP⟩ := hx events
  rcases hrun : x events with ⟨_ | a, events'⟩
  · rw [bind_of_none hrun]
    rw [hrun] at hnew
    exact ⟨new, hnew, hP⟩
  · obtain ⟨new', hnew', hP'⟩ := hf a events'
    rw [hrun] at hnew
    rw [bind_of_some hrun, hnew', show events' = events ++ new from hnew, List.append_assoc]
    refine ⟨new ++ new', rfl, fun e he => ?_⟩
    rcases List.mem_append.1 he with he | he
    · exact hP e he
    · exact hP' e he

/-- A loop only adds such events if its body does, for each element. -/
protected theorem forM {l : List α} {f : α → Script κ ρ Unit} (hf : ∀ a ∈ l, Appends P (f a)) :
    Appends P (l.forM f) := by
  induction l with
  | nil => exact Appends.pure
  | cons a l ih =>
    exact Appends.bind (hf a List.mem_cons_self)
      fun _ => ih fun b hb => hf b (List.mem_cons_of_mem _ hb)

end Appends

end Script

end SysAdmin.Scripts
