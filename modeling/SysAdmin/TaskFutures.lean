import SysAdmin.LoopingTask

/-!
# The futures of looping tasks

A `LoopingTask` has one promise at a time. `Start` retrieves its future, `Stop` fulfils it and,
when the continuations have run, makes a new one; a call of the function that fails fulfils it
too, but makes no new one. A promise gives its future away once, and is fulfilled once.

So each `Start` returns a new future that completes as it should exactly if the task is not
started again after a failed call nor by the continuations of a future, and calls fail with
exceptions of class `std::exception` itself (`always_futuresComplete_iff`): what is in between
is related by `Consistent`, which these events keep.
-/

namespace SysAdmin

open Machine

namespace LoopingTask

variable {t : LoopingTask} {e : LoopingTaskEvent} {es : List LoopingTaskEvent}

/-- No `Start` of a task that should not be running has failed, and the futures returned so far
    have completed with what they should have: those of the sessions that are over with a value
    if `Stop` ended them, and with the exception of the failed call otherwise, and the one of a
    session that is going on with nothing yet. -/
def FuturesComplete (t : LoopingTask) : Prop := ¬ t.startFailed ∧ t.futures = t.expected

instance decidableFuturesComplete : DecidablePred FuturesComplete := fun _ =>
  inferInstanceAs (Decidable (_ ∧ _))

/-- A task that is not running is only started with a promise whose future has not been
    retrieved: the function has not failed before, and it is not a continuation of a future that
    `Stop` is completing which starts it. A task that is still running while it completes a
    future with an exception is not started. And the function throws `std::exception` only. -/
def StartsFresh (t : LoopingTask) : LoopingTaskEvent → Prop
  | .start _ => if t.running then t.promise.result = none else t.promise.retrieved = false
  | .threw e => t.frames.head? = some .function → t.running → e = .exception
  | _ => True

/-- How the flag, the promise and what the task is inside of fit together. -/
structure Consistent (t : LoopingTask) : Prop where
  frames : t.frames = [] ∨ t.frames = [.function] ∨ t.frames = [.stopping] ∨
    t.frames = [.stopping, .function] ∨ t.frames = [.failing]
  fresh : t.promise.retrieved = false → t.promise.result = none ∧ ¬ t.running
  idle : ¬ t.running → t.promise.result = none → t.promise.retrieved = false
  running : t.running → t.promise.result ≠ none → t.frames = [.failing]
  stopping : .stopping ∈ t.frames → ¬ t.running ∧ t.promise.result ≠ none
  failing : .failing ∈ t.frames → t.promise.result ≠ none
  completed : none ∉ t.completed

theorem consistent_init : Consistent init := by
  constructor <;> simp [init, freshPromise]

theorem futures_of_retrieved (h : t.promise.retrieved = true) :
    t.futures = t.completed ++ [t.promise.result] := by
  rw [futures, if_pos h]

theorem futures_of_fresh (h : t.promise.retrieved = false) : t.futures = t.completed := by
  rw [futures, if_neg (by simp [h]), List.append_nil]

theorem futuresComplete_of_retrieved (h : t.promise.retrieved = true) :
    FuturesComplete t ↔ ¬ t.startFailed ∧ t.completed ++ [t.promise.result] = t.expected := by
  rw [FuturesComplete, futures_of_retrieved h]

/-- A session is going on while its future is not complete. -/
theorem Consistent.ongoing_iff (h : Consistent t) (hP : FuturesComplete t) :
    t.Ongoing ↔ t.promise.retrieved = true ∧ t.promise.result = none := by
  rw [Ongoing, ← hP.2]
  cases hr : t.promise.retrieved with
  | true => rw [futures_of_retrieved hr, List.getLast?_concat, Option.some_inj,
      and_iff_right rfl]
  | false =>
    rw [futures_of_fresh hr]
    exact iff_of_false (fun hlast => h.completed (List.mem_of_getLast? hlast)) (by simp)

theorem Consistent.retrieved_of_running (h : Consistent t) (hr : t.running) :
    t.promise.retrieved = true := by
  by_contra hretrieved
  exact (h.fresh (Bool.eq_false_iff.2 hretrieved)).2 hr

theorem Consistent.ongoing_of_running (h : Consistent t) (hP : FuturesComplete t)
    (hr : t.running) : t.Ongoing ↔ t.promise.result = none := by
  rw [h.ongoing_iff hP, and_iff_right (h.retrieved_of_running hr)]

theorem Consistent.not_ongoing (h : Consistent t) (hP : FuturesComplete t) (hr : ¬ t.running) :
    ¬ t.Ongoing := by
  rw [h.ongoing_iff hP]
  rintro ⟨hretrieved, hnone⟩
  exact absurd (h.idle hr hnone) (by simp [hretrieved])

/-- While the future is not complete, no continuation of it runs. -/
theorem Consistent.frames_of_result_eq_none (h : Consistent t) (hnone : t.promise.result = none) :
    t.frames = [] ∨ t.frames = [.function] := by
  rcases h.frames with hf | hf | hf | hf | hf
  · exact .inl hf
  · exact .inr hf
  · exact absurd hnone (h.stopping (by simp [hf])).2
  · exact absurd hnone (h.stopping (by simp [hf])).2
  · exact absurd hnone (h.failing (by simp [hf]))

theorem Consistent.result_eq_none (h : Consistent t) (hframes : t.frames ≠ [.failing]) :
    t.running → t.promise.result = none := fun hr =>
  by_contra fun hsome => hframes (h.running hr hsome)

theorem closeLast_of_not_ongoing {result : TaskResult} (h : ¬ t.Ongoing) :
    closeLast result t.expected = t.expected := if_neg h

/-- What is expected of the session that is going on. -/
theorem Consistent.closeLast_eq (h : Consistent t) (hP : FuturesComplete t) (ho : t.Ongoing)
    (result : TaskResult) : closeLast result t.expected = t.completed ++ [some result] := by
  have hretrieved := ((h.ongoing_iff hP).1 ho).1
  rw [Ongoing] at ho
  rw [closeLast, if_pos ho, ← hP.2, futures_of_retrieved hretrieved, List.dropLast_concat]

/-- Events that change neither the flag, the promise nor the specification. -/
theorem FuturesComplete.of_eq {t' : LoopingTask} (hP : FuturesComplete t)
    (hfailed : t'.startFailed = t.startFailed) (hpromise : t'.promise = t.promise)
    (hcompleted : t'.completed = t.completed) (hexpected : t'.expected = t.expected) :
    FuturesComplete t' := by
  rw [FuturesComplete, futures, hfailed, hpromise, hcompleted, hexpected]
  exact hP

theorem futuresComplete_start (h : Consistent t) (hP : FuturesComplete t) (interval : ℕ) :
    (FuturesComplete (t.start interval) ↔ StartsFresh t (.start interval)) ∧
      (StartsFresh t (.start interval) → Consistent (t.start interval)) := by
  rw [start, StartsFresh]
  by_cases hr : t.running
  · rw [if_pos hr, if_pos hr, ← h.ongoing_of_running hP hr]
    split
    · next ho => exact ⟨iff_of_true hP ho, fun _ => h⟩
    · next ho => exact ⟨iff_of_false (fun hP' => hP'.1 rfl) ho, fun ho' => absurd ho' ho⟩
  · rw [if_neg hr, if_neg hr]
    split
    · next hretrieved =>
      -- The future of this promise has been retrieved before, so `getFuture` throws.
      exact ⟨iff_of_false (fun hP' => hP'.1 rfl) (by simp [hretrieved]),
        fun hnot => absurd hretrieved (by simp [hnot])⟩
    · next hretrieved =>
      rw [Bool.not_eq_true] at hretrieved
      have hnone := (h.fresh hretrieved).1
      refine ⟨iff_of_true ⟨hP.1, ?_⟩ hretrieved, fun _ => ?_⟩
      · have heq : t.completed ++ [t.promise.result] = t.expected ++ [none] := by
          rw [hnone, ← hP.2, futures_of_fresh hretrieved]
        exact (futures_of_retrieved rfl).trans heq
      · exact
          { frames := h.frames
            fresh := fun hf => absurd hf (by simp)
            idle := fun hr' => absurd rfl hr'
            running := fun _ hne => absurd hnone hne
            stopping := fun hmem => absurd hnone (h.stopping hmem).2
            failing := h.failing
            completed := h.completed }

theorem futuresComplete_stop (h : Consistent t) (hP : FuturesComplete t) :
    FuturesComplete t.stop ∧ Consistent t.stop := by
  rw [stop]
  by_cases hr : t.running
  · have hretrieved := h.retrieved_of_running hr
    rw [if_pos hr]
    split
    · next hnone =>
      -- the session ends with a value
      have ho := (h.ongoing_of_running hP hr).2 hnone
      refine ⟨⟨hP.1, ?_⟩, ?_⟩
      · rw [h.closeLast_eq hP ho]
        exact futures_of_retrieved hretrieved
      · have hframes := h.frames_of_result_eq_none hnone
        exact
          { frames := by rcases hframes with hf | hf <;> simp [hf]
            fresh := fun hf => absurd hf (by simp [hretrieved])
            idle := fun _ hf => absurd hf (by simp)
            running := fun hr' => absurd hr' (by simp)
            stopping := fun _ => by simp
            failing := fun _ => by simp
            completed := h.completed }
    · next hsome =>
      -- a continuation of a future that has completed with an exception stops the task
      have ho := mt (h.ongoing_of_running hP hr).1 hsome
      refine ⟨hP.of_eq rfl rfl rfl (closeLast_of_not_ongoing ho), ?_⟩
      exact
        { frames := h.frames
          fresh := fun hf => absurd hf (by simp [hretrieved])
          idle := fun _ hf => absurd hf hsome
          running := fun hr' => absurd hr' (by simp)
          stopping := fun hmem => ⟨by simp, hsome⟩
          failing := h.failing
          completed := h.completed }
  · rw [if_neg hr]
    exact ⟨hP, h⟩

/-- The function throws. -/
theorem futuresComplete_threw (h : Consistent t) (hP : FuturesComplete t)
    (hframes : t.frames = []) (e : Thrown) :
    (FuturesComplete (t.threw e) ↔ (t.running → e = .exception)) ∧
      ((t.running → e = .exception) → Consistent (t.threw e)) := by
  by_cases hr : t.running
  · have hnone := h.result_eq_none (by simp [hframes]) hr
    have ho := (h.ongoing_of_running hP hr).2 hnone
    have hretrieved := ((h.ongoing_iff hP).1 ho).1
    have hexpected := h.closeLast_eq hP ho (.exception e)
    rw [threw, hexpected, forall_prop_of_true hr]
    split
    · next he =>
      -- nobody takes the exception, and the session goes on
      subst he
      refine ⟨iff_of_false (fun hP' => ?_) (by simp), fun he => absurd he (by simp)⟩
      have heq : t.futures = t.completed ++ [some (.exception .other)] := hP'.2
      rw [futures_of_retrieved hretrieved, hnone] at heq
      simp at heq
    · rw [onError, if_pos ⟨hr, hnone⟩]
      have hcopy : t.completed ++ [some (.exception .exception)] =
          t.completed ++ [some (.exception e)] ↔ e = .exception := by simp [eq_comm]
      refine ⟨?_, fun _ => ?_⟩
      · rw [futuresComplete_of_retrieved]
        · exact (and_iff_right hP.1).trans hcopy
        · exact hretrieved
      · exact
          { frames := by simp [hframes]
            fresh := fun hf => absurd hf (by simp [hretrieved])
            idle := fun hr' => absurd hr hr'
            running := fun _ _ => by rw [hframes]
            stopping := fun hmem => by simp [hframes] at hmem
            failing := fun _ => by simp
            completed := h.completed }
  · have hexpected : closeLast (.exception e) t.expected = t.expected :=
      closeLast_of_not_ongoing (h.not_ongoing hP hr)
    have heq : t.threw e = t := by
      rw [threw, hexpected]
      split
      · rfl
      · exact if_neg fun hr' => hr hr'.1
    rw [heq]
    exact ⟨iff_of_true hP fun hr' => absurd hr' hr, fun _ => h⟩

theorem futuresComplete_afterStop {frames : List Frame} (h : Consistent t)
    (hP : FuturesComplete t) (hframes : t.frames = .stopping :: frames) :
    FuturesComplete { t with frames }.afterStop ∧ Consistent { t with frames }.afterStop := by
  obtain ⟨hr, hsome⟩ := h.stopping (by simp [hframes])
  have hrest : frames = [] ∨ frames = [.function] := by
    rcases h.frames with hf | hf | hf | hf | hf <;> simp_all
  have hcompleted : none ∉ t.futures := by
    rw [futures]
    split <;> simp [h.completed, Ne.symm hsome]
  refine ⟨⟨hP.1, ?_⟩, ?_⟩
  · exact (futures_of_fresh rfl).trans hP.2
  · exact
      { frames := by rcases hrest with hf | hf <;> simp [afterStop, hf]
        fresh := fun _ => ⟨rfl, hr⟩
        idle := fun _ _ => rfl
        running := fun hr' => absurd hr' hr
        stopping := fun hmem => by rcases hrest with hf | hf <;> simp [afterStop, hf] at hmem
        failing := fun hmem => by rcases hrest with hf | hf <;> simp [afterStop, hf] at hmem
        completed := hcompleted }

/-- Inside of nothing, only the flag and the promise matter. -/
theorem Consistent.of_frames_nil {t' : LoopingTask} (h : Consistent t)
    (hrunning : t'.running = t.running) (hpromise : t'.promise = t.promise)
    (hcompleted : t'.completed = t.completed) (hframes : t'.frames = [] ∨ t'.frames = [.function])
    (hresult : t.running → t.promise.result = none) : Consistent t' where
  frames := by rcases hframes with hf | hf <;> simp [hf]
  fresh := by
    rw [hrunning, hpromise]
    exact h.fresh
  idle := by
    rw [hrunning, hpromise]
    exact h.idle
  running := by
    rw [hrunning, hpromise]
    exact fun hr hsome => absurd (hresult hr) hsome
  stopping hmem := by rcases hframes with hf | hf <;> simp [hf] at hmem
  failing hmem := by rcases hframes with hf | hf <;> simp [hf] at hmem
  completed := hcompleted ▸ h.completed

theorem Consistent.of_eq {t' : LoopingTask} (h : Consistent t) (hrunning : t'.running = t.running)
    (hpromise : t'.promise = t.promise) (hcompleted : t'.completed = t.completed)
    (hframes : t'.frames = t.frames) : Consistent t' where
  frames := hframes ▸ h.frames
  fresh := by
    rw [hrunning, hpromise]
    exact h.fresh
  idle := by
    rw [hrunning, hpromise]
    exact h.idle
  running := by
    rw [hrunning, hpromise, hframes]
    exact h.running
  stopping := by
    rw [hrunning, hpromise, hframes]
    exact h.stopping
  failing := by
    rw [hpromise, hframes]
    exact h.failing
  completed := hcompleted ▸ h.completed

/-- The function is called, or has been, from outside of the task. -/
theorem Consistent.eq_singleton (h : Consistent t) {frames : List Frame}
    (hframes : t.frames = .function :: frames) : frames = [] := by
  rcases h.frames with hf | hf | hf | hf | hf <;> simp_all

theorem futuresComplete_fire (h : Consistent t) (hP : FuturesComplete t) (i : ℕ) :
    FuturesComplete (t.step (.fire i)) ∧ Consistent (t.step (.fire i)) := by
  rw [step]
  split
  · next hframes _ =>
    split
    · rw [scheduledFn]
      have hresult := h.result_eq_none (by simp [hframes])
      split
      · exact ⟨hP.of_eq rfl rfl rfl rfl,
          h.of_frames_nil rfl rfl rfl (.inr (congrArg (_ :: ·) hframes)) hresult⟩
      · exact ⟨hP.of_eq rfl rfl rfl rfl, h.of_eq rfl rfl rfl rfl⟩
    · exact ⟨hP, h⟩
  · exact ⟨hP, h⟩

theorem futuresComplete_returned (h : Consistent t) (hP : FuturesComplete t) :
    FuturesComplete (t.step .returned) ∧ Consistent (t.step .returned) := by
  rw [step]
  split
  · next frames hframes =>
    have hnil := h.eq_singleton hframes
    have hresult := h.result_eq_none (by simp [hframes])
    rw [onCall]
    split
    · exact ⟨hP.of_eq rfl rfl rfl rfl, h.of_frames_nil rfl rfl rfl (.inl hnil) hresult⟩
    · exact ⟨hP.of_eq rfl rfl rfl rfl, h.of_frames_nil rfl rfl rfl (.inl hnil) hresult⟩
  · exact ⟨hP, h⟩

theorem futuresComplete_resumed (h : Consistent t) (hP : FuturesComplete t) :
    FuturesComplete (t.step .resumed) ∧ Consistent (t.step .resumed) := by
  rw [step]
  split
  · next hframes => exact futuresComplete_afterStop h hP hframes
  · next frames hframes =>
    -- the exception has been handed over
    have hnil : frames = [] := by
      rcases h.frames with hf | hf | hf | hf | hf <;> simp_all
    have hsome := h.failing (by simp [hframes])
    refine ⟨hP.of_eq rfl rfl rfl rfl, ?_⟩
    exact
      { frames := .inl hnil
        fresh := fun hf => absurd (h.fresh hf).1 hsome
        idle := fun _ hnone => absurd hnone hsome
        running := fun hr => absurd hr Bool.false_ne_true
        stopping := fun hmem => by simp [hnil] at hmem
        failing := fun hmem => by simp [hnil] at hmem
        completed := h.completed }
  · exact ⟨hP, h⟩

/-- The step lemma of the futures: what an event needs to keep the property, and that the task is
    consistent then. Only starts and exceptions need something. -/
theorem futuresComplete_step (h : Consistent t) (hP : FuturesComplete t) (e : LoopingTaskEvent) :
    (FuturesComplete (t.step e) ↔ StartsFresh t e) ∧
      (StartsFresh t e → Consistent (t.step e)) := by
  cases e with
  | start interval => exact futuresComplete_start h hP interval
  | stop => exact keeps_of_guard trivial (futuresComplete_stop h hP)
  | reschedule interval =>
    rw [step, reschedule]
    split
    · exact keeps_of_guard trivial ⟨hP.of_eq rfl rfl rfl rfl, h.of_eq rfl rfl rfl rfl⟩
    · exact keeps_of_guard trivial ⟨hP, h⟩
  | fire i => exact keeps_of_guard trivial (futuresComplete_fire h hP i)
  | returned => exact keeps_of_guard trivial (futuresComplete_returned h hP)
  | threw e =>
    rw [step, StartsFresh]
    split
    · next frames hframes =>
      have hnil := h.eq_singleton hframes
      have hresult := h.result_eq_none (by simp [hframes])
      rw [hframes, List.head?_cons, forall_prop_of_true rfl]
      have h' : Consistent { t with frames } := h.of_frames_nil rfl rfl rfl (.inl hnil) hresult
      exact futuresComplete_threw h' (hP.of_eq rfl rfl rfl rfl) hnil e
    · next hframes =>
      exact ⟨iff_of_true hP fun hhead => absurd hhead (head?_frames_ne hframes), fun _ => h⟩
  | resumed => exact keeps_of_guard trivial (futuresComplete_resumed h hP)
  | tick n => exact keeps_of_guard trivial ⟨hP.of_eq rfl rfl rfl rfl, h.of_eq rfl rfl rfl rfl⟩

/-- In every history of a task, each `Start` returns a new future and this completes as it
    should, exactly if the task is only started with a promise that is new, and its function
    throws only what `OnError` hands on. -/
theorem always_futuresComplete_iff :
    Always step FuturesComplete init es ↔ Guarded step StartsFresh init es :=
  always_iff_guarded_of_invariant consistent_init ⟨Bool.false_ne_true, rfl⟩
    (fun _ e h hP => (futuresComplete_step h hP e).1)
    fun _ e h hP => (futuresComplete_step h hP e).2

/-- After a call that has failed, the task does not start again; nor does it in a continuation of
    the future that `Stop` completes. -/
theorem not_always_futuresComplete_restarted :
    ¬ Always step FuturesComplete init [.start 1, .tick 1, .fire 0, .threw .exception, .resumed,
        .start 1] ∧
      ¬ Always step FuturesComplete init [.start 1, .stop, .start 1] := by
  constructor <;> decide

end LoopingTask

end SysAdmin
