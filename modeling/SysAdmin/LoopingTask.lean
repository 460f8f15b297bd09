import Mathlib.Data.List.Chain
import SysAdmin.Foundation.Machine

/-!
# Looping tasks

A `LoopingTask` calls a function again and again: `Start` schedules a call with the reactor, and
when the function has returned, the next call is scheduled, as long as the task is running.
`Start` returns a future, which `Stop` completes with a value, and a call that fails with its
exception. The function and the continuations of the future may call the task again.

Events are the calls of the task, the firing of what has been scheduled, the end of the function
and the end of the continuations. What the task is inside of is a stack (`Frame`).

While the task runs, at most one call is scheduled, and calls are an interval apart, exactly if
a task is not started with a call still scheduled and the function does not restart its own task
(`always_onePending_iff`).
-/

namespace SysAdmin

open Machine

/-- What a function throws, by its class. -/
inductive Thrown
  /-- `std::exception` itself. -/
  | exception
  /-- A class derived from `std::exception`. -/
  | derived (what : String)
  /-- Anything else. -/
  | other
  deriving DecidableEq

/-- How the future of a task completes. -/
inductive TaskResult
  | value
  | exception (e : Thrown)
  deriving DecidableEq

/-- A `folly::Promise`. -/
structure TaskPromise where
  retrieved : Bool
  result : Option TaskResult
  deriving DecidableEq

/-- A call that the reactor makes after the timeout. -/
structure ScheduledCall where
  since : ℕ
  timeout : ℕ
  deriving DecidableEq

/-- A call of the function, and the timeout that it was scheduled with. -/
structure FunctionCall where
  time : ℕ
  timeout : ℕ
  deriving DecidableEq

/-- What the task is inside of. -/
inductive Frame
  /-- `mFn`, called by `ScheduledFn`. -/
  | function
  /-- `setValue` in `Stop`. -/
  | stopping
  /-- `setException` in `OnError`. -/
  | failing
  deriving DecidableEq

/-- `LoopingTask`, with the time, the scheduled calls, what it is inside of, and, for the
    specification, the calls of the function so far (the last one first), what the futures
    returned by `Start` for earlier promises have completed with, and what all of them should
    have completed with. -/
structure LoopingTask where
  running : Bool
  interval : ℕ
  promise : TaskPromise
  now : ℕ
  pending : List ScheduledCall
  frames : List Frame
  calls : List FunctionCall
  completed : List (Option TaskResult)
  expected : List (Option TaskResult)
  /-- A `Start` of a task that should not be running has failed. -/
  startFailed : Bool
  deriving DecidableEq

/-- What happens to a task. -/
inductive LoopingTaskEvent
  | start (interval : ℕ)
  | stop
  | reschedule (interval : ℕ)
  /-- The reactor makes a scheduled call. -/
  | fire (i : ℕ)
  /-- The function returns. -/
  | returned
  /-- The function throws. -/
  | threw (e : Thrown)
  /-- The continuations that `setValue` or `setException` has called return. -/
  | resumed
  /-- Time passes. -/
  | tick (n : ℕ)
  deriving DecidableEq

/-- The session that is not over, if there is one, is over. -/
def closeLast (result : TaskResult) (sessions : List (Option TaskResult)) :
    List (Option TaskResult) :=
  if sessions.getLast? = some none then sessions.dropLast ++ [some result] else sessions

namespace LoopingTask

/-- A promise whose future has not been retrieved. -/
def freshPromise : TaskPromise := ⟨false, none⟩

/-- The constructor. -/
def init : LoopingTask := ⟨false, 0, freshPromise, 0, [], [], [], [], [], false⟩

/-- What the futures that `Start` has returned have completed with. -/
def futures (t : LoopingTask) : List (Option TaskResult) :=
  t.completed ++ if t.promise.retrieved then [t.promise.result] else []

/-- A session should be going on. -/
def Ongoing (t : LoopingTask) : Prop := t.expected.getLast? = some none

instance decidableOngoing (t : LoopingTask) : Decidable t.Ongoing :=
  inferInstanceAs (Decidable (_ = _))

/-- `ScheduleNext`. -/
def scheduleNext (t : LoopingTask) (timeout : ℕ) : LoopingTask :=
  { t with pending := t.pending ++ [⟨t.now, timeout⟩] }

/-- `Start`. An assertion stops the one of a running task; that this fails is only wrong if the
    task should not be running. A future can be retrieved from a promise once. -/
def start (t : LoopingTask) (interval : ℕ) : LoopingTask :=
  if t.running then
    if t.Ongoing then t else { t with startFailed := true }
  else
    let t' := { t with interval, running := true, expected := t.expected ++ [none] }.scheduleNext
      interval
    if t.promise.retrieved then { t' with startFailed := true }
    else { t' with promise := { t.promise with retrieved := true } }

/-- `Stop`, up to the continuations. A promise can be fulfilled once; `setValue` throws
    otherwise. -/
def stop (t : LoopingTask) : LoopingTask :=
  if t.running then
    let t' := { t with running := false, expected := closeLast .value t.expected }
    if t.promise.result = none then
      { t' with
        promise := { t.promise with result := some .value }
        frames := .stopping :: t.frames }
    else t'
  else t

/-- `Reschedule`, which an assertion stops if the task is not running. -/
def reschedule (t : LoopingTask) (interval : ℕ) : LoopingTask :=
  if t.running then { t with interval } else t

/-- `ScheduledFn`, up to the call of the function. -/
def scheduledFn (t : LoopingTask) (timeout : ℕ) : LoopingTask :=
  if t.running then { t with calls := ⟨t.now, timeout⟩ :: t.calls, frames := .function :: t.frames }
  else t

/-- `OnCall`. -/
def onCall (t : LoopingTask) : LoopingTask :=
  if t.running then t.scheduleNext t.interval else t

/-- `OnError`, up to the continuations. `setException` is called with a reference to
    `std::exception` and copies an object of that class. -/
def onError (t : LoopingTask) : LoopingTask :=
  if t.running ∧ t.promise.result = none then
    { t with
      promise := { t.promise with result := some (.exception .exception) }
      frames := .failing :: t.frames }
  else t

/-- The function throws: only exceptions of `std::exception` and its classes get to
    `OnError`. -/
def threw (t : LoopingTask) (e : Thrown) : LoopingTask :=
  let t' := { t with expected := closeLast (.exception e) t.expected }
  if e = .other then t' else t'.onError

/-- The rest of `Stop`. -/
def afterStop (t : LoopingTask) : LoopingTask :=
  { t with completed := t.futures, promise := freshPromise }

/-- One event. The reactor makes calls from outside of the task only, when their time has
    come. -/
def step (t : LoopingTask) : LoopingTaskEvent → LoopingTask
  | .start interval => t.start interval
  | .stop => t.stop
  | .reschedule interval => t.reschedule interval
  | .fire i =>
    match t.frames, t.pending[i]? with
    | [], some call =>
      if call.since + call.timeout ≤ t.now then
        { t with pending := t.pending.eraseIdx i }.scheduledFn call.timeout
      else t
    | _, _ => t
  | .returned =>
    match t.frames with
    | .function :: frames => { t with frames }.onCall
    | _ => t
  | .threw e =>
    match t.frames with
    | .function :: frames => { t with frames }.threw e
    | _ => t
  | .resumed =>
    match t.frames with
    | .stopping :: frames => { t with frames }.afterStop
    | .failing :: frames => { t with frames, running := false }
    | _ => t
  | .tick n => { t with now := t.now + n }

variable {t : LoopingTask} {e : LoopingTaskEvent} {es : List LoopingTaskEvent}

/-! ## One scheduled call -/

/-- While the task is running, no more than one call of the function is scheduled, and each call
    so far has come no sooner after the one before it than its timeout. -/
def OnePending (t : LoopingTask) : Prop :=
  (t.running → t.pending.length ≤ 1) ∧
    t.calls.IsChain fun call previous => previous.time + call.timeout ≤ call.time

instance decidableOnePending : DecidablePred OnePending := fun t =>
  inferInstanceAs (Decidable ((t.running → _) ∧ _))

/-- A task is started with nothing scheduled, and so is it when its function returns. -/
def StartsIdle (t : LoopingTask) : LoopingTaskEvent → Prop
  | .start _ => ¬ t.running → t.pending = []
  | .returned => t.frames.head? = some .function → t.running → t.pending = []
  | _ => True

/-- What is scheduled for a running task has been scheduled after the last call. -/
structure Spaced (t : LoopingTask) : Prop where
  pending_since : t.running → ∀ call ∈ t.pending, ∀ last ∈ t.calls.head?, last.time ≤ call.since
  le_now : ∀ last ∈ t.calls.head?, last.time ≤ t.now

theorem spaced_init : Spaced init := by
  constructor <;> simp [init]

/-- Events that schedule and call nothing. -/
theorem Spaced.of_eq {t' : LoopingTask} (h : Spaced t) (hrunning : t'.running → t.running)
    (hpending : t'.pending = t.pending) (hcalls : t'.calls = t.calls) (hnow : t.now ≤ t'.now) :
    Spaced t' where
  pending_since hr := by
    rw [hpending, hcalls]
    exact h.pending_since (hrunning hr)
  le_now last hlast := (h.le_now last (hcalls ▸ hlast)).trans hnow

theorem OnePending.of_eq {t' : LoopingTask} (h : OnePending t) (hrunning : t'.running → t.running)
    (hpending : t'.pending = t.pending) (hcalls : t'.calls = t.calls) : OnePending t' := by
  rw [OnePending, hpending, hcalls]
  exact ⟨fun hr => h.1 (hrunning hr), h.2⟩

/-- What the start of a task that is not running schedules. -/
theorem start_of_not_running (hr : ¬ t.running) (interval : ℕ) :
    (t.start interval).running = true ∧
      (t.start interval).pending = t.pending ++ [⟨t.now, interval⟩] ∧
      (t.start interval).calls = t.calls ∧ (t.start interval).now = t.now := by
  rw [start, if_neg hr]
  split <;> exact ⟨rfl, rfl, rfl, rfl⟩

theorem onePending_start (hP : OnePending t) (interval : ℕ) :
    OnePending (t.start interval) ↔ (¬ t.running → t.pending = []) := by
  by_cases hr : t.running
  · refine iff_of_true ?_ fun h => absurd hr h
    rw [start, if_pos hr]
    split <;> exact hP.of_eq id rfl rfl
  · obtain ⟨hrunning, hpending, hcalls, -⟩ := start_of_not_running hr interval
    rw [OnePending, hrunning, hpending, hcalls, and_iff_left hP.2, List.length_append,
      List.length_singleton]
    constructor
    · intro hle _
      exact List.length_eq_zero_iff.1 (by have := hle rfl; omega)
    · intro hnil _
      rw [hnil hr, List.length_nil]

theorem spaced_start (h : Spaced t) (hG : ¬ t.running → t.pending = []) (interval : ℕ) :
    Spaced (t.start interval) := by
  by_cases hr : t.running
  · rw [start, if_pos hr]
    split <;> exact h.of_eq id rfl rfl le_rfl
  · obtain ⟨-, hpending, hcalls, hnow⟩ := start_of_not_running hr interval
    refine ⟨fun _ call hcall last hlast => ?_, fun last hlast => ?_⟩
    · rw [hpending, hG hr, List.nil_append] at hcall
      rw [List.mem_singleton.1 hcall]
      exact h.le_now last (hcalls ▸ hlast)
    · rw [hnow]
      exact h.le_now last (hcalls ▸ hlast)

theorem stop_eq (t : LoopingTask) :
    (t.stop.running → t.running) ∧ t.stop.pending = t.pending ∧ t.stop.calls = t.calls ∧
      t.stop.now = t.now := by
  rw [stop]
  split
  · split <;> exact ⟨fun h => absurd h Bool.false_ne_true, rfl, rfl, rfl⟩
  · exact ⟨id, rfl, rfl, rfl⟩

theorem threw_eq (t : LoopingTask) (e : Thrown) :
    ((t.threw e).running → t.running) ∧ (t.threw e).pending = t.pending ∧
      (t.threw e).calls = t.calls ∧ (t.threw e).now = t.now := by
  rw [threw]
  split
  · exact ⟨id, rfl, rfl, rfl⟩
  · rw [onError]
    split <;> exact ⟨id, rfl, rfl, rfl⟩

/-- A scheduled call of a running task is the only one, and comes an interval after the last
    call. -/
theorem onePending_fire {i : ℕ} {call : ScheduledCall} (h : Spaced t) (hP : OnePending t)
    (hi : t.pending[i]? = some call) (hdue : call.since + call.timeout ≤ t.now) :
    OnePending ({ t with pending := t.pending.eraseIdx i }.scheduledFn call.timeout) ∧
      Spaced ({ t with pending := t.pending.eraseIdx i }.scheduledFn call.timeout) := by
  rw [scheduledFn]
  split
  · next hr =>
    have hr : t.running := hr
    obtain ⟨hlt, hget⟩ := List.getElem?_eq_some_iff.1 hi
    have hlen := hP.1 hr
    -- The call that fires was the only one.
    have hnil : t.pending.eraseIdx i = [] :=
      List.length_eq_zero_iff.1 (by rw [List.length_eraseIdx_of_lt hlt]; omega)
    have hlast : ∀ last ∈ t.calls.head?, last.time + call.timeout ≤ t.now := fun last hl => by
      have := h.pending_since hr call (hget ▸ List.getElem_mem hlt) last hl
      omega
    refine ⟨⟨fun _ => by simp [hnil], List.isChain_cons.2 ⟨hlast, hP.2⟩⟩, ?_, ?_⟩
    · simp [hnil]
    · simp
  · next hr => exact ⟨⟨fun hr' => absurd hr' hr, hP.2⟩, fun hr' => absurd hr' hr, h.le_now⟩

theorem onePending_onCall (hP : OnePending t) :
    OnePending t.onCall ↔ (t.running → t.pending = []) := by
  rw [onCall]
  split
  · next hr =>
    constructor
    · intro h _
      have hle := h.1 hr
      rw [scheduleNext, List.length_append, List.length_singleton] at hle
      exact List.length_eq_zero_iff.1 (by omega)
    · intro hnil
      refine ⟨fun _ => ?_, hP.2⟩
      rw [scheduleNext, hnil hr]
      rfl
  · next hr => exact iff_of_true hP fun hr' => absurd hr' hr

theorem Spaced.onCall (h : Spaced t) (hG : t.running → t.pending = []) : Spaced t.onCall := by
  rw [LoopingTask.onCall]
  split
  · next hr =>
    refine ⟨fun _ call hcall last hlast => ?_, h.le_now⟩
    rw [scheduleNext, hG hr, List.nil_append, List.mem_singleton] at hcall
    rw [hcall]
    exact h.le_now last hlast
  · exact h

theorem head?_frames_ne {frame : Frame} (h : ∀ frames, t.frames = frame :: frames → False) :
    t.frames.head? ≠ some frame := by
  intro hhead
  obtain ⟨frames, hf⟩ := List.head?_eq_some_iff.1 hhead
  exact h frames hf

/-- The step lemma of the scheduled calls: what an event needs to keep the property, and that
    what is scheduled then is later than the last call. -/
theorem onePending_step (h : Spaced t) (hP : OnePending t) (e : LoopingTaskEvent) :
    (OnePending (t.step e) ↔ StartsIdle t e) ∧ (StartsIdle t e → Spaced (t.step e)) := by
  cases e with
  | start interval => exact ⟨onePending_start hP interval, fun hG => spaced_start h hG interval⟩
  | stop =>
    obtain ⟨hr, hp, hc, hn⟩ := stop_eq t
    exact keeps_of_guard trivial ⟨hP.of_eq hr hp hc, h.of_eq hr hp hc hn.ge⟩
  | reschedule interval =>
    rw [step, reschedule]
    split
    · exact keeps_of_guard trivial ⟨hP.of_eq id rfl rfl, h.of_eq id rfl rfl le_rfl⟩
    · exact keeps_of_guard trivial ⟨hP, h⟩
  | fire i =>
    rw [step]
    split
    · next call _ hi =>
      split
      · next hdue =>
        exact keeps_of_guard trivial (onePending_fire h hP hi hdue)
      · exact keeps_of_guard trivial ⟨hP, h⟩
    · exact keeps_of_guard trivial ⟨hP, h⟩
  | returned =>
    rw [step, StartsIdle]
    split
    · next frames hframes =>
      rw [hframes, List.head?_cons, forall_prop_of_true rfl]
      have hP' : OnePending { t with frames } := hP.of_eq id rfl rfl
      have h' : Spaced { t with frames } := h.of_eq id rfl rfl le_rfl
      exact ⟨onePending_onCall hP', h'.onCall⟩
    · next hframes =>
      exact ⟨iff_of_true hP fun hhead => absurd hhead (head?_frames_ne hframes), fun _ => h⟩
  | threw e =>
    rw [step]
    split
    · next frames _ =>
      obtain ⟨hr, hp, hc, hn⟩ := threw_eq { t with frames } e
      exact keeps_of_guard trivial ⟨hP.of_eq hr hp hc, h.of_eq hr hp hc hn.ge⟩
    · exact keeps_of_guard trivial ⟨hP, h⟩
  | resumed =>
    rw [step]
    split
    · exact keeps_of_guard trivial ⟨hP.of_eq id rfl rfl, h.of_eq id rfl rfl le_rfl⟩
    · -- Behind a failure, the task does not run any more.
      have hr : false = true → t.running = true := fun hr => absurd hr Bool.false_ne_true
      exact keeps_of_guard trivial ⟨hP.of_eq hr rfl rfl, h.of_eq hr rfl rfl le_rfl⟩
    · exact keeps_of_guard trivial ⟨hP, h⟩
  | tick n =>
    exact keeps_of_guard trivial
      ⟨hP.of_eq id rfl rfl, h.of_eq id rfl rfl (Nat.le_add_right _ _)⟩

/-- In every history of a task, there is never more than one call scheduled for it while it is
    running, and its calls are their timeouts apart, exactly if it is started and its function
    returns only with nothing scheduled. -/
theorem always_onePending_iff :
    Always step OnePending init es ↔ Guarded step StartsIdle init es :=
  always_iff_guarded_of_invariant spaced_init ⟨fun _ => Nat.zero_le _, .nil⟩
    (fun _ e h hP => (onePending_step h hP e).1) fun _ e h hP => (onePending_step h hP e).2

/-- Started, stopped and started again before the first call was due, the task has two calls
    scheduled, and makes both at one time. -/
theorem not_always_onePending_restarted :
    ¬ Always step OnePending init [.start 50, .stop, .resumed, .start 50, .tick 50, .fire 0,
      .returned, .fire 0] := by
  decide

end LoopingTask

end SysAdmin
