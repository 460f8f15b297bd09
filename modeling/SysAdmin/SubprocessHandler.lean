import SysAdmin.Foundation.Futures
import SysAdmin.Foundation.Machine

/-!
# Processes and their output

A `SubprocessHandler` starts a process and hears from libuv what comes of it: chunks of
its output, the ends of the two streams, its exit. When the process has exited and its
standard output has ended, in whatever order, the handler calls back with all of it.

What it has heard so far is an `Observed`, and that is all there is to its state
(`run_deliver`).

* `FutureSubprocess.result`: what the future of a run is ready with, by the callbacks;
* `SubprocessHandler.completes_iff`: the exit is called back when it is due if and only if
  the standard output does not end in a read error;
* `SubprocessHandler.passesAll_iff`: both outputs are passed on in full if and only if
  nothing comes after the end of the standard output.
-/

namespace SysAdmin

open Machine Futures

abbrev Buffer := List UInt8

/-- How a stream ends. -/
inductive StreamEnd
  | eof
  | error
  deriving DecidableEq

/-- What is read from a stream. -/
inductive ReadResult
  | data (bytes : Buffer)
  | ended (e : StreamEnd)
  deriving DecidableEq

/-- What happens to a process. -/
inductive SubprocessEvent
  | stdOut (read : ReadResult)
  | stdErr (read : ReadResult)
  | exit (status termSignal : Int32)
  deriving DecidableEq

/-- A call of one of the registered callbacks. -/
inductive CallbackCall
  | stdOutCb (buffer : Buffer)
  | stdErrCb (buffer : Buffer)
  | processExitCb (status : Int32)
  deriving DecidableEq

/-- A handler with its callbacks, what libuv still listens to for it, and the calls of the
    callbacks since the process was started. -/
structure SubprocessHandler where
  streaming : Bool
  stdOutBuffer : Buffer
  stdErrBuffer : Buffer
  running : Bool
  exitStatus : Int32
  eofd : Bool
  exited : Bool
  readsOut : Bool
  readsErr : Bool
  awaitsExit : Bool
  calls : List CallbackCall
  deriving DecidableEq

namespace SubprocessHandler

/-- A handler that has not started anything. -/
def new (streaming : Bool) : SubprocessHandler :=
  ⟨streaming, [], [], false, 0, false, false, false, false, false, []⟩

/-! ## What libuv calls -/

/-- Neither stream is read any longer. -/
def readStop (h : SubprocessHandler) : SubprocessHandler :=
  { h with readsOut := false, readsErr := false }

/-- Calls back, and makes all handles new. -/
def trueProcessExit (h : SubprocessHandler) : SubprocessHandler :=
  { h with
    stdOutBuffer := []
    stdErrBuffer := []
    running := false
    readsOut := false
    readsErr := false
    awaitsExit := false
    calls := h.calls ++ (if h.streaming then [] else [.stdOutCb h.stdOutBuffer]) ++
      [.stdErrCb h.stdErrBuffer, .processExitCb h.exitStatus] }

/-- A chunk of the standard output goes to the callback or to the buffer. -/
def readCalled (h : SubprocessHandler) : ReadResult → SubprocessHandler
  | .data bytes =>
    if h.streaming then { h with calls := h.calls ++ [.stdOutCb bytes] }
    else { h with stdOutBuffer := h.stdOutBuffer ++ bytes }
  | .ended .eof =>
    let h := { h with eofd := true }
    if h.exited && h.eofd then h.trueProcessExit else h.readStop
  | .ended .error => h.readStop

/-- Only chunks of the standard error matter. -/
def errCalled (h : SubprocessHandler) : ReadResult → SubprocessHandler
  | .data bytes => { h with stdErrBuffer := h.stdErrBuffer ++ bytes }
  | .ended _ => h

def processExited (h : SubprocessHandler) (status _termSignal : Int32) : SubprocessHandler :=
  let h := { h with exited := true, exitStatus := status }
  if h.exited && h.eofd then h.trueProcessExit else h

/-- Spawns the process; one that cannot be spawned has exited. -/
def registerAndSpawnSubprocess (h : SubprocessHandler) (spawned : Bool) : SubprocessHandler :=
  if spawned then { h with awaitsExit := true } else h.processExited 100 0

/-- Starts the process, unless there is one running. -/
def runProcess (h : SubprocessHandler) (spawned : Bool) : SubprocessHandler :=
  if h.running then h
  else
    let h := { h with eofd := false, exited := false, calls := [] }
    { h.registerAndSpawnSubprocess spawned with
      readsOut := true
      readsErr := true
      running := true }

/-- What happens reaches the handler only if libuv listens to it. A process exits once. -/
def deliver (h : SubprocessHandler) : SubprocessEvent → SubprocessHandler
  | .stdOut read => if h.readsOut then h.readCalled read else h
  | .stdErr read => if h.readsErr then h.errCalled read else h
  | .exit status termSignal =>
    if h.awaitsExit then { h with awaitsExit := false }.processExited status termSignal else h

/-- Nothing runs, and nothing is left of an earlier run. -/
structure Idle (h : SubprocessHandler) : Prop where
  not_running : h.running = false
  not_awaitsExit : h.awaitsExit = false
  stdOutBuffer : h.stdOutBuffer = []
  stdErrBuffer : h.stdErrBuffer = []

theorem idle_new (streaming : Bool) : (new streaming).Idle := ⟨rfl, rfl, rfl, rfl⟩

/-- A process that cannot be spawned is one that exits with 100 at once. -/
theorem runProcess_not_spawned {h : SubprocessHandler} (hidle : h.Idle) :
    h.runProcess false = (h.runProcess true).deliver (.exit 100 0) := by
  simp [runProcess, registerAndSpawnSubprocess, deliver, processExited, hidle.not_running,
    hidle.not_awaitsExit]

end SubprocessHandler

/-! ## What a handler has heard -/

/-- What has come of a process, as far as the handler has heard of it. -/
structure Observed where
  chunks : List Buffer
  err : Buffer
  stdOutEnd : Option StreamEnd
  exitStatus : Option Int32

namespace Observed

def nothing : Observed := ⟨[], [], none, none⟩

/-- Nothing is read after the end of the standard output, and the first end is it. -/
def step (o : Observed) : SubprocessEvent → Observed
  | .stdOut (.data bytes) =>
    if o.stdOutEnd.isNone then { o with chunks := o.chunks ++ [bytes] } else o
  | .stdOut (.ended e) => { o with stdOutEnd := o.stdOutEnd.or (some e) }
  | .stdErr (.data bytes) => if o.stdOutEnd.isNone then { o with err := o.err ++ bytes } else o
  | .stdErr (.ended _) => o
  | .exit status _ => { o with exitStatus := o.exitStatus.or (some status) }

/-- The exit status, when it has been called back. -/
def calledBack (o : Observed) : Option Int32 :=
  match o.stdOutEnd with
  | some .eof => o.exitStatus
  | some .error | none => none

/-- The handler that has heard this, if it was idle before. -/
def handler (streaming : Bool) (exitStatus : Int32) (o : Observed) : SubprocessHandler where
  streaming := streaming
  stdOutBuffer := if streaming || o.calledBack.isSome then [] else o.chunks.flatten
  stdErrBuffer := if o.calledBack.isSome then [] else o.err
  running := o.calledBack.isNone
  exitStatus := o.exitStatus.getD exitStatus
  eofd := o.stdOutEnd == some .eof
  exited := o.exitStatus.isSome
  readsOut := o.stdOutEnd.isNone
  readsErr := o.stdOutEnd.isNone
  awaitsExit := o.exitStatus.isNone
  calls := (if streaming then o.chunks.map .stdOutCb else []) ++
    match o.calledBack with
    | none => []
    | some status => (if streaming then [] else [.stdOutCb o.chunks.flatten]) ++
      [.stdErrCb o.err, .processExitCb status]

variable {o : Observed} {e : SubprocessEvent} {streaming : Bool} {exitStatus : Int32}

/-- After the end of the standard output, reading tells nothing new. -/
theorem step_read_of_ended (read : ReadResult) (h : o.stdOutEnd ≠ none) :
    o.step (.stdOut read) = o ∧ o.step (.stdErr read) = o := by
  obtain ⟨end', hend⟩ := Option.ne_none_iff_exists'.1 h
  obtain ⟨chunks, err, stdOutEnd, exited⟩ := o
  subst hend
  cases read with
  | data bytes => exact ⟨rfl, rfl⟩
  | ended e => exact ⟨rfl, rfl⟩

theorem reads_handler (streaming : Bool) (exitStatus : Int32) (h : o.stdOutEnd ≠ none) :
    (o.handler streaming exitStatus).readsOut = false ∧
      (o.handler streaming exitStatus).readsErr = false := by
  have hisNone : o.stdOutEnd.isNone = false := by simpa [Option.isSome_iff_ne_none] using h
  exact ⟨hisNone, hisNone⟩

/-- The handler does with each event what the event adds to what it has heard. -/
theorem deliver_handler : (o.handler streaming exitStatus).deliver e =
    (o.step e).handler streaming exitStatus := by
  by_cases hend : o.stdOutEnd = none
  · obtain ⟨chunks, err, stdOutEnd, exited⟩ := o
    subst hend
    cases e with
    | stdOut read =>
      rcases read with bytes | _ | _
      · cases streaming <;>
          simp [SubprocessHandler.deliver, SubprocessHandler.readCalled, step, handler, calledBack]
      · -- The standard output ends, and the process may have exited already.
        cases exited <;> simp [SubprocessHandler.deliver, SubprocessHandler.readCalled,
          SubprocessHandler.trueProcessExit, SubprocessHandler.readStop, step, handler, calledBack]
        cases streaming <;> rfl
      · simp [SubprocessHandler.deliver, SubprocessHandler.readCalled,
          SubprocessHandler.readStop, step, handler, calledBack]
    | stdErr read =>
      cases read <;>
        simp [SubprocessHandler.deliver, SubprocessHandler.errCalled, step, handler, calledBack]
    | exit status termSignal =>
      cases exited <;>
        simp [SubprocessHandler.deliver, SubprocessHandler.processExited, step, handler, calledBack]
  · obtain ⟨hout, herr⟩ := reads_handler streaming exitStatus hend
    cases e with
    | stdOut read =>
      rw [(step_read_of_ended read hend).1, SubprocessHandler.deliver, hout]
      rfl
    | stdErr read =>
      rw [(step_read_of_ended read hend).2, SubprocessHandler.deliver, herr]
      rfl
    | exit status termSignal =>
      obtain ⟨chunks, err, stdOutEnd, exited⟩ := o
      rcases stdOutEnd with _ | _ | _
      · exact absurd rfl hend
      · cases exited <;> cases streaming <;>
          simp [SubprocessHandler.deliver, SubprocessHandler.processExited,
            SubprocessHandler.trueProcessExit, step, handler, calledBack]
      · cases exited <;>
          simp [SubprocessHandler.deliver, SubprocessHandler.processExited, step, handler,
            calledBack]

end Observed

/-! ## Runs of a process -/

/-- How the standard output ends. -/
def stdOutEndOf (es : List SubprocessEvent) : Option StreamEnd :=
  es.findSome? fun
    | .stdOut (.ended e) => some e
    | _ => none

/-- The status with which the process exits. -/
def exitStatusOf (es : List SubprocessEvent) : Option Int32 :=
  es.findSome? fun
    | .exit status _ => some status
    | _ => none

/-- All that the process writes to its standard output. -/
def stdOutOf (es : List SubprocessEvent) : Buffer :=
  es.flatMap fun
    | .stdOut (.data bytes) => bytes
    | _ => []

/-- All that the process writes to its standard error. -/
def stdErrOf (es : List SubprocessEvent) : Buffer :=
  es.flatMap fun
    | .stdErr (.data bytes) => bytes
    | _ => []

def isStdOutEnd : SubprocessEvent → Bool
  | .stdOut (.ended _) => true
  | _ => false

/-- What happens before the standard output ends. -/
def beforeEnd (es : List SubprocessEvent) : List SubprocessEvent :=
  es.takeWhile fun e => !isStdOutEnd e

/-- The end of the standard output, and what happens after it. -/
def fromEnd (es : List SubprocessEvent) : List SubprocessEvent :=
  es.dropWhile fun e => !isStdOutEnd e

/-- What comes of the events before the end, and of those from there on. -/
theorem flatMap_eq_append (es : List SubprocessEvent) (f : SubprocessEvent → Buffer) :
    es.flatMap f = (beforeEnd es).flatMap f ++ (fromEnd es).flatMap f := by
  rw [← List.flatMap_append, beforeEnd, fromEnd, List.takeWhile_append_dropWhile]

namespace Observed

variable {o : Observed} {es : List SubprocessEvent}

theorem stdOutEnd_run : (run step o es).stdOutEnd = o.stdOutEnd.or (stdOutEndOf es) := by
  refine run_eq_or_findSome? (fun o e => ?_) o es
  rcases e with (_ | _) | (_ | _) | _
  · rw [step]
    split <;> exact Option.or_none.symm
  · rfl
  · rw [step]
    split <;> exact Option.or_none.symm
  · exact Option.or_none.symm
  · exact Option.or_none.symm

theorem exitStatus_run : (run step o es).exitStatus = o.exitStatus.or (exitStatusOf es) := by
  refine run_eq_or_findSome? (fun o e => ?_) o es
  rcases e with (_ | _) | (_ | _) | _
  · rw [step]
    split <;> exact Option.or_none.symm
  · exact Option.or_none.symm
  · rw [step]
    split <;> exact Option.or_none.symm
  · exact Option.or_none.symm
  · rfl

/-- What has been called back stays so. -/
theorem calledBack_run_of_eq_some {status : Int32} (h : o.calledBack = some status) :
    (run step o es).calledBack = some status := by
  rw [calledBack] at h ⊢
  rw [stdOutEnd_run, exitStatus_run]
  rcases hend : o.stdOutEnd with _ | _ | _
  · rw [hend] at h
    cases h
  · rw [hend] at h
    rw [Option.some_or, show o.exitStatus = some status from h]
    rfl
  · rw [hend] at h
    cases h

/-- After the end of the standard output, nothing is read. -/
theorem read_run_of_ended (h : o.stdOutEnd ≠ none) :
    (run step o es).chunks = o.chunks ∧ (run step o es).err = o.err := by
  induction es generalizing o with
  | nil => exact ⟨rfl, rfl⟩
  | cons e es ih =>
    rw [run_cons]
    cases e with
    | stdOut read =>
      rw [(step_read_of_ended read h).1]
      exact ih h
    | stdErr read =>
      rw [(step_read_of_ended read h).2]
      exact ih h
    | exit status termSignal => exact ih h

/-- What is read is what comes before the end of the standard output. -/
theorem read_run (h : o.stdOutEnd = none) :
    (run step o es).chunks.flatten = o.chunks.flatten ++ stdOutOf (beforeEnd es) ∧
      (run step o es).err = o.err ++ stdErrOf (beforeEnd es) := by
  induction es generalizing o with
  | nil => exact ⟨(List.append_nil _).symm, (List.append_nil _).symm⟩
  | cons e es ih =>
    obtain ⟨chunks, err, _, exited⟩ := o
    subst h
    rw [run_cons]
    rcases e with (bytes | e) | (bytes | e) | ⟨status, termSignal⟩
    · obtain ⟨hout, herr⟩ := @ih ⟨chunks ++ [bytes], err, none, exited⟩ rfl
      refine ⟨hout.trans ?_, herr⟩
      simp [beforeEnd, isStdOutEnd, stdOutOf]
    · obtain ⟨hout, herr⟩ := @read_run_of_ended ⟨chunks, err, some e, exited⟩ es (by simp)
      refine ⟨(congrArg List.flatten hout).trans ?_, herr.trans ?_⟩
      · simp [beforeEnd, isStdOutEnd, stdOutOf]
      · simp [beforeEnd, isStdOutEnd, stdErrOf]
    · obtain ⟨hout, herr⟩ := @ih ⟨chunks, err ++ bytes, none, exited⟩ rfl
      refine ⟨hout, herr.trans ?_⟩
      simp [beforeEnd, isStdOutEnd, stdErrOf]
    · exact ih rfl
    · exact @ih ⟨chunks, err, none, _⟩ rfl

end Observed

/-! ## Futures of processes -/

structure FutureSubprocessError where
  what : String
  buffer : Buffer
  errBuffer : Buffer
  deriving DecidableEq

namespace FutureSubprocess

/-- What the promises of the callbacks come to: as soon as all three have been kept, the
    future is ready. -/
def result (uv_strerror : Int32 → String) (calls : List CallbackCall) :
    Option (Completion FutureSubprocessError Buffer) := do
  let buffer ← calls.findSome? fun
    | .stdOutCb buffer => some buffer
    | _ => none
  let status ← calls.findSome? fun
    | .processExitCb status => some status
    | _ => none
  let errBuffer ← calls.findSome? fun
    | .stdErrCb buffer => some buffer
    | _ => none
  return if status ≠ 0 then .exception ⟨uv_strerror status, buffer, errBuffer⟩
    else .value buffer

end FutureSubprocess

namespace SubprocessHandler

variable {h : SubprocessHandler} {es : List SubprocessEvent}

/-- What a handler does is what follows from what it has heard. -/
theorem run_deliver (hidle : h.Idle) (es : List SubprocessEvent) :
    run deliver (h.runProcess true) es =
      (run Observed.step .nothing es).handler h.streaming h.exitStatus := by
  have hstart : h.runProcess true = Observed.nothing.handler h.streaming h.exitStatus := by
    simp [runProcess, registerAndSpawnSubprocess, hidle.not_running, hidle.stdOutBuffer,
      hidle.stdErrBuffer, Observed.handler, Observed.nothing, Observed.calledBack]
  rw [hstart]
  exact List.foldl_hom _ fun _ _ => Observed.deliver_handler

/-- The exits that have been called back. -/
def exitCalls (h : SubprocessHandler) : List Int32 :=
  h.calls.filterMap fun
    | .processExitCb status => some status
    | _ => none

/-- What is to be called back: the exit, if the standard output has ended as well. -/
def due (es : List SubprocessEvent) : Option Int32 :=
  if stdOutEndOf es = none then none else exitStatusOf es

/-- The exit has been called back, and the future of the run is ready, if and only if the
    process has exited and its standard output has ended. -/
def Completes (uv_strerror : Int32 → String) (h : SubprocessHandler)
    (es : List SubprocessEvent) : Prop :=
  let h' := run deliver (h.runProcess true) es
  h'.exitCalls = (due es).toList ∧
    (h.streaming = false →
      (FutureSubprocess.result uv_strerror h'.calls).isSome = (due es).isSome)

theorem exitCalls_handler {o : Observed} {streaming : Bool} {exitStatus : Int32} :
    (o.handler streaming exitStatus).exitCalls = o.calledBack.toList := by
  cases streaming <;> cases hcalled : o.calledBack <;>
    simp [exitCalls, Observed.handler, hcalled, List.filterMap_map]

theorem calls_handler {o : Observed} {exitStatus : Int32} :
    (o.handler false exitStatus).calls =
      match o.calledBack with
      | none => []
      | some status => [.stdOutCb o.chunks.flatten, .stdErrCb o.err, .processExitCb status] := by
  cases hcalled : o.calledBack <;> simp [Observed.handler, hcalled]

/-- The future of a run, by what the handler has heard. -/
theorem result_handler {uv_strerror : Int32 → String} {o : Observed} {exitStatus : Int32} :
    FutureSubprocess.result uv_strerror (o.handler false exitStatus).calls =
      o.calledBack.map fun status =>
        if status ≠ 0 then .exception ⟨uv_strerror status, o.chunks.flatten, o.err⟩
        else .value o.chunks.flatten := by
  rw [calls_handler]
  cases o.calledBack with
  | none => rfl
  | some status => rfl

/-- The exit is called back unless the standard output has ended in an error. -/
theorem calledBack_run : (run Observed.step .nothing es).calledBack =
    if stdOutEndOf es = some .error then none else due es := by
  have hend : (run Observed.step .nothing es).stdOutEnd = stdOutEndOf es := Observed.stdOutEnd_run
  have hexit : (run Observed.step .nothing es).exitStatus = exitStatusOf es :=
    Observed.exitStatus_run
  rw [Observed.calledBack, hend, hexit, due]
  rcases stdOutEndOf es with _ | _ | _ <;> rfl

/-- A handler that has called back can be used again. -/
theorem idle_run (hidle : h.Idle) (hend : stdOutEndOf es = some .eof)
    (hexit : exitStatusOf es ≠ none) : (run deliver (h.runProcess true) es).Idle := by
  obtain ⟨status, hstatus⟩ := Option.ne_none_iff_exists'.1 hexit
  have hcalled : (run Observed.step .nothing es).calledBack = some status := by
    rw [calledBack_run, hend, due, hend, hstatus]
    rfl
  have hexited : (run Observed.step .nothing es).exitStatus = some status :=
    Observed.exitStatus_run.trans hstatus
  rw [run_deliver hidle]
  constructor <;> simp [Observed.handler, hcalled, hexited]

theorem due_of_calledBack {status : Int32}
    (h : (run Observed.step .nothing es).calledBack = some status) : due es = some status := by
  rw [calledBack_run] at h
  split at h
  · cases h
  · exact h

/-- Of what is due, nothing but what is called back can be missing. -/
theorem completes_iff_calledBack (uv_strerror : Int32 → String) (hidle : h.Idle) :
    h.Completes uv_strerror es ↔ (run Observed.step .nothing es).calledBack = due es := by
  rw [Completes, run_deliver hidle, exitCalls_handler]
  refine ⟨fun hcompletes => ?_, fun hcalled => ⟨?_, ?_⟩⟩
  · simpa using congrArg List.head? hcompletes.1
  · rw [hcalled]
  · intro hbuffered
    rw [hbuffered, result_handler, Option.isSome_map, hcalled]

theorem calledBack_run_iff : (run Observed.step .nothing es).calledBack = due es ↔
    ¬ (stdOutEndOf es = some .error ∧ exitStatusOf es ≠ none) := by
  rw [calledBack_run]
  by_cases herror : stdOutEndOf es = some .error
  · rw [if_pos herror, due, herror, and_iff_right rfl, not_not]
    exact eq_comm
  · rw [if_neg herror]
    exact ⟨fun _ h => herror h.1, fun _ => rfl⟩

/-- In whatever order things happen, the exit is called back, and the future ready, when
    the process has exited and its standard output has ended, and not before, if and only
    if the standard output of an exited process does not end in an error. -/
theorem completes_iff (uv_strerror : Int32 → String) (hidle : h.Idle)
    (es : List SubprocessEvent) :
    (∀ es', es' <+: es → h.Completes uv_strerror es') ↔
      ¬ (stdOutEndOf es = some .error ∧ exitStatusOf es ≠ none) := by
  simp only [completes_iff_calledBack uv_strerror hidle, calledBack_run_iff]
  refine ⟨fun hall => hall es List.prefix_rfl, fun hes es' hpre ⟨herror, hexit⟩ => hes ⟨?_, ?_⟩⟩
  · exact hpre.findSome?_eq_some herror
  · exact fun hnone => hexit (hpre.findSome?_eq_none hnone)

/-- A process that exits before its standard output has been read. -/
theorem completes_iff_exitFirst :
    (∀ es', es' <+: [.exit 0 0, .stdOut (.data [111, 107]), .stdOut (.ended .eof)] →
      (new false).Completes (fun _ => "") es') ↔
      ¬ (stdOutEndOf [.exit 0 0, .stdOut (.data [111, 107]), .stdOut (.ended .eof)] =
        some .error ∧
          exitStatusOf [.exit 0 0, .stdOut (.data [111, 107]), .stdOut (.ended .eof)] ≠ none) :=
  completes_iff _ (idle_new false) _

/-- The standard output of a process that has exited cannot be read: the future of its run
    is never ready. -/
theorem not_completes_readError :
    ¬ (new false).Completes (fun _ => "") [.exit 0 0, .stdOut (.ended .error)] := by
  rintro ⟨hcalls, -⟩
  exact absurd hcalls (by decide)

/-- All that the process has written is passed on, and its exit status. -/
def PassesAll (h : SubprocessHandler) (es : List SubprocessEvent) (status : Int32) : Prop :=
  (run deliver (h.runProcess true) es).calls =
    [.stdOutCb (stdOutOf es), .stdErrCb (stdErrOf es), .processExitCb status]

/-- If the process exits and its standard output ends, all that it has written is passed on
    if and only if nothing of it comes after that end. -/
theorem passesAll_iff (hidle : h.Idle) (hbuffered : h.streaming = false) {status : Int32}
    (hend : stdOutEndOf es = some .eof) (hexit : exitStatusOf es = some status) :
    h.PassesAll es status ↔ stdOutOf (fromEnd es) = [] ∧ stdErrOf (fromEnd es) = [] := by
  have hcalled : (run Observed.step .nothing es).calledBack = some status := by
    rw [calledBack_run, hend, due, hend, hexit]
    rfl
  obtain ⟨hout, herr⟩ := @Observed.read_run .nothing es rfl
  have hsplitOut : stdOutOf es = stdOutOf (beforeEnd es) ++ stdOutOf (fromEnd es) :=
    flatMap_eq_append es _
  have hsplitErr : stdErrOf es = stdErrOf (beforeEnd es) ++ stdErrOf (fromEnd es) :=
    flatMap_eq_append es _
  rw [PassesAll, run_deliver hidle, hbuffered, calls_handler, hcalled, hout, herr, hsplitOut,
    hsplitErr]
  simp [Observed.nothing]

/-- A process that exits before its standard output has been read to the end. -/
theorem passesAll_iff_exitFirst :
    let es : List SubprocessEvent :=
      [.stdErr (.data [33]), .exit 1 0, .stdOut (.data [111, 107]), .stdOut (.ended .eof)]
    (new false).PassesAll es 1 ↔ stdOutOf (fromEnd es) = [] ∧ stdErrOf (fromEnd es) = [] :=
  passesAll_iff (idle_new false) rfl rfl rfl

/-- A process closes its standard output, writes to its standard error, and exits: what it
    has written is lost. -/
theorem not_passesAll_stdOutClosed :
    let es : List SubprocessEvent :=
      [.stdOut (.ended .eof), .stdErr (.data [33]), .exit 1 0]
    ¬ (new false).PassesAll es 1 := by
  intro es h
  rw [PassesAll] at h
  exact absurd h (by decide)

end SubprocessHandler

end SysAdmin
