import SysAdmin.ExternalRunner

/-!
# Detached processes

Nobody waits for a process that is fully detached, and so its `FutureSubprocess` registers no
callbacks with the handler. Its standard output is read all the same, and `ReadCalled` asserts
that there is a callback for what is read.

* `CallbackHandler.foldlM_deliver`: with all callbacks, a handler is the one of
  `SysAdmin.SubprocessHandler`, and the assertion holds;
* `ExternalRunner.keepsAssertion_iff`: the assertion holds in all runs of a process exactly if
  the process is not detached, or nothing is read of its standard output.
-/

namespace SysAdmin

open Machine SubprocessHandler

/-- A handler with the callbacks that it has been given. -/
structure CallbackHandler where
  handler : SubprocessHandler
  stdOutCb : Bool
  internalStdOutCb : Bool
  stdErrCb : Bool
  processExitCb : Bool
  deriving DecidableEq

namespace CallbackHandler

def new : CallbackHandler := ⟨.new false, false, false, false, false⟩

/-- Registers a callback for the standard output, with the internal one that hands chunks to it
    or to the buffer. -/
def registerStdOutCallback (h : CallbackHandler) (streaming : Bool) : CallbackHandler :=
  { h with
    stdOutCb := true
    internalStdOutCb := true
    handler := { h.handler with streaming } }

def registerStdErrCallback (h : CallbackHandler) : CallbackHandler := { h with stdErrCb := true }

def registerProcessExitCallback (h : CallbackHandler) : CallbackHandler :=
  { h with processExitCb := true }

/-- The callback has been registered. -/
def isValid (h : CallbackHandler) : CallbackCall → Bool
  | .stdOutCb _ => h.stdOutCb
  | .stdErrCb _ => h.stdErrCb
  | .processExitCb _ => h.processExitCb

/-- Only callbacks that have been registered are called. -/
def callIfValid (h : CallbackHandler) (handler : SubprocessHandler) : CallbackHandler :=
  { h with handler := { handler with calls := handler.calls.filter h.isValid } }

def runProcess (h : CallbackHandler) (spawned : Bool) : CallbackHandler :=
  h.callIfValid (h.handler.runProcess spawned)

/-- What happens to the process. A chunk of the standard output needs the internal callback. -/
def deliver (h : CallbackHandler) (e : SubprocessEvent) : Option CallbackHandler :=
  match e with
  | .stdOut (.data _) =>
    if h.handler.readsOut ∧ ¬h.internalStdOutCb then none
    else some (h.callIfValid (h.handler.deliver e))
  | .stdOut (.ended _) | .stdErr _ | .exit .. => some (h.callIfValid (h.handler.deliver e))

variable {h : CallbackHandler} {e : SubprocessEvent} {es : List SubprocessEvent}

/-- All callbacks have been registered. -/
structure Complete (h : CallbackHandler) : Prop where
  stdOutCb : h.stdOutCb = true
  internalStdOutCb : h.internalStdOutCb = true
  stdErrCb : h.stdErrCb = true
  processExitCb : h.processExitCb = true

theorem Complete.callIfValid (hc : h.Complete) (handler : SubprocessHandler) :
    h.callIfValid handler = { h with handler } := by
  have hall : ∀ c ∈ handler.calls, h.isValid c = true := fun c _ => by
    cases c with
    | stdOutCb => exact hc.stdOutCb
    | stdErrCb => exact hc.stdErrCb
    | processExitCb => exact hc.processExitCb
  rw [CallbackHandler.callIfValid, List.filter_eq_self.2 hall]

theorem Complete.deliver (hc : h.Complete) :
    h.deliver e = some { h with handler := h.handler.deliver e } := by
  rw [CallbackHandler.deliver.eq_def]
  split
  · rw [if_neg (by simp [hc.internalStdOutCb]), hc.callIfValid]
  all_goals rw [hc.callIfValid]

/-- With all callbacks, a handler does what it does without looking for them. -/
theorem foldlM_deliver (hc : h.Complete) (es : List SubprocessEvent) :
    es.foldlM CallbackHandler.deliver h =
      some { h with handler := run SubprocessHandler.deliver h.handler es } := by
  induction es generalizing h with
  | nil => rfl
  | cons e es ih =>
    rw [List.foldlM_cons, hc.deliver]
    exact ih ⟨hc.stdOutCb, hc.internalStdOutCb, hc.stdErrCb, hc.processExitCb⟩

/-! ## Without callbacks -/

/-- The standard output is no longer read after its end. -/
def ReadsToEnd (h : SubprocessHandler) : Prop := h.eofd = true → h.readsOut = false

/-- The standard output is read until it ends. -/
theorem readsOut_deliver {h : SubprocessHandler} (hr : ReadsToEnd h) :
    (h.deliver e).readsOut = (h.readsOut && !isStdOutEnd e) ∧ ReadsToEnd (h.deliver e) := by
  obtain ⟨_, _, _, _, _, eofd, exited, readsOut, readsErr, awaitsExit, _⟩ := h
  cases e with
  | stdOut read =>
    rcases read with bytes | _ | _ <;> cases readsOut <;> cases exited <;>
      simp_all [ReadsToEnd, SubprocessHandler.deliver, readCalled, readStop, trueProcessExit,
        isStdOutEnd] <;> split <;> simp_all
  | stdErr read =>
    cases read <;> cases readsErr <;>
      simp_all [ReadsToEnd, SubprocessHandler.deliver, errCalled, isStdOutEnd]
  | exit status termSignal =>
    cases awaitsExit <;> cases eofd <;>
      simp_all [ReadsToEnd, SubprocessHandler.deliver, processExited, trueProcessExit, isStdOutEnd]

theorem deliver_of_unread (hout : h.handler.readsOut = false) :
    h.deliver e = some (h.callIfValid (h.handler.deliver e)) := by
  rw [CallbackHandler.deliver.eq_def]
  split
  · exact if_neg (by simp [hout])
  all_goals rfl

/-- Only a chunk of the standard output needs a callback. -/
theorem deliver_of_not_data (hdata : ∀ bytes, e ≠ .stdOut (.data bytes)) :
    h.deliver e = some (h.callIfValid (h.handler.deliver e)) := by
  rw [CallbackHandler.deliver.eq_def]
  split
  · exact absurd rfl (hdata _)
  all_goals rfl

/-- Nothing is asserted once the standard output is not read any more. -/
theorem isSome_foldlM_of_unread (hr : ReadsToEnd h.handler) (hout : h.handler.readsOut = false)
    (es : List SubprocessEvent) : (es.foldlM CallbackHandler.deliver h).isSome = true := by
  induction es generalizing h with
  | nil => rfl
  | cons e es ih =>
    obtain ⟨hread, hr'⟩ := readsOut_deliver (e := e) hr
    rw [List.foldlM_cons, deliver_of_unread hout]
    exact ih hr' (by rw [← Bool.false_and (!isStdOutEnd e), ← hout, ← hread]; rfl)

/-- Without the callback, the assertion holds as long as nothing is read. -/
theorem isSome_foldlM_iff (hr : ReadsToEnd h.handler) (hout : h.handler.readsOut = true)
    (hunset : h.internalStdOutCb = false) :
    (es.foldlM CallbackHandler.deliver h).isSome = true ↔
      ∀ bytes, .stdOut (.data bytes) ∉ beforeEnd es := by
  induction es generalizing h with
  | nil => exact iff_of_true rfl fun _ => List.not_mem_nil
  | cons e es ih =>
    obtain ⟨hread, hr'⟩ := readsOut_deliver (e := e) hr
    rw [hout, Bool.true_and] at hread
    rw [List.foldlM_cons]
    -- The first event is an end, a chunk, or neither.
    cases hend : isStdOutEnd e with
    | true =>
      have hdata : ∀ bytes, e ≠ .stdOut (.data bytes) := by
        rintro bytes rfl
        cases hend
      rw [deliver_of_not_data hdata]
      refine iff_of_true (isSome_foldlM_of_unread hr' (hread.trans (by rw [hend]; rfl)) es) ?_
      simp [beforeEnd, hend]
    | false =>
      have hbefore : beforeEnd (e :: es) = e :: beforeEnd es := by simp [beforeEnd, hend]
      rw [hbefore]
      by_cases hdata : ∃ bytes, e = .stdOut (.data bytes)
      · obtain ⟨bytes, rfl⟩ := hdata
        refine iff_of_false ?_ fun hno => hno bytes List.mem_cons_self
        rw [CallbackHandler.deliver, if_pos ⟨hout, by simp [hunset]⟩]
        exact Bool.false_ne_true
      · rw [deliver_of_not_data fun bytes he => hdata ⟨bytes, he⟩]
        refine (ih (h := h.callIfValid (h.handler.deliver e)) hr'
          (hread.trans (by rw [hend]; rfl)) hunset).trans (forall_congr' fun bytes => ?_)
        rw [List.mem_cons, not_or]
        exact (and_iff_right fun heq => hdata ⟨bytes, heq.symm⟩).symm

end CallbackHandler

/-! ## Runs of a process -/

/-- A process whose end is a future, unless it is fully detached. -/
structure FutureSubprocess where
  subprocess : CallbackHandler
  fullyDetach : Bool

namespace FutureSubprocess

def new (options : List SubprocessOption) : FutureSubprocess :=
  ⟨.new, decide (.starryProcessFullyDetach ∈ options)⟩

/-- Registers the callbacks that keep the promises, unless they are kept already, and starts the
    process. -/
def runSubprocess (f : FutureSubprocess) (spawned : Bool) : CallbackHandler :=
  let subprocess :=
    if f.fullyDetach then f.subprocess
    else
      ((f.subprocess.registerStdOutCallback false).registerStdErrCallback
        ).registerProcessExitCallback
  subprocess.runProcess spawned

end FutureSubprocess

namespace ExternalRunner

/-- The handler of the process that `Run` starts, which may be one that cannot be spawned. -/
def started (options : RunOptions) (spawned : Bool) : CallbackHandler :=
  (FutureSubprocess.new (convertOptions options)).runSubprocess spawned

/-- The assertion holds whatever happens to the process. -/
def KeepsAssertion (options : RunOptions) (spawned : Bool) (es : List SubprocessEvent) : Prop :=
  (es.foldlM CallbackHandler.deliver (started options spawned)).isSome = true

/-- The standard output of a process is read in any case. -/
theorem readsOut_started (options : RunOptions) (spawned : Bool) :
    (started options spawned).handler.readsOut = true ∧
      CallbackHandler.ReadsToEnd (started options spawned).handler := by
  cases options <;> cases spawned <;> exact ⟨rfl, nofun⟩

/-- `ReadCalled` finds its callback in all runs of a process, whatever the option and the order
    of the events, exactly if the process is not to be detached, or nothing is read of its
    standard output. -/
theorem keepsAssertion_iff (options : RunOptions) (spawned : Bool)
    (es : List SubprocessEvent) : KeepsAssertion options spawned es ↔
      (options = .detach → ∀ bytes, .stdOut (.data bytes) ∉ beforeEnd es) := by
  obtain ⟨hout, hr⟩ := readsOut_started options spawned
  by_cases hoptions : options = .detach
  · subst hoptions
    rw [forall_prop_of_true rfl]
    exact CallbackHandler.isSome_foldlM_iff hr hout rfl
  · have hc : (started options spawned).Complete := by
      cases options with
      | detach => exact absurd rfl hoptions
      | default | ignore | invalid => exact ⟨rfl, rfl, rfl, rfl⟩
    refine iff_of_true ?_ fun hdetach => absurd hdetach hoptions
    rw [KeepsAssertion, CallbackHandler.foldlM_deliver hc]
    rfl

/-- A detached process writes to its standard output. -/
theorem not_keepsAssertion_detach :
    ¬KeepsAssertion .detach true [.stdOut (.data [111, 107])] := by
  intro h
  rw [KeepsAssertion] at h
  exact absurd h (by decide)

end ExternalRunner

end SysAdmin
