import SysAdmin.SubprocessHandler

/-!
# Processes of a hook

All runs of a hook go through its `ExternalRunner`, which keeps the process it has started
last, and nothing of the processes before it: with the handler of a process go its
callbacks and their promises, and a promise that has not been kept is broken. From then on
nobody hears of the process.

* `ExternalRunner.always_ownOutcomes_iff`: each call of `Run` has the outcome of its own
  process if and only if, whenever there is a call, all processes before have ended (and
  none of the processes is detached, and none is cut off by a read error).
-/

namespace SysAdmin

open Machine Futures SubprocessHandler

inductive RunOptions
  | default
  | detach
  | ignore
  | invalid
  deriving DecidableEq

inductive SubprocessOption
  | uvProcessDetached
  | starryProcessFullyDetach
  deriving DecidableEq

def convertOptions (options : RunOptions) : List SubprocessOption :=
  if options = .detach then [.uvProcessDetached, .starryProcessFullyDetach] else []

/-- What the future of a run fails with. -/
inductive RunException
  | futureSubprocessError (err : FutureSubprocessError)
  | externalRunnerError (what : String)
  | brokenPromise
  deriving DecidableEq

/-- A call of `Run`: the handler of the process that it has started, what has happened to
    the process, and whether the handler has been destroyed. -/
structure RunCall where
  handler : SubprocessHandler
  happened : List SubprocessEvent
  destroyed : Bool

namespace RunCall

/-- A process has been started. -/
def start : RunCall := ⟨(SubprocessHandler.new false).runProcess true, [], false⟩

def destroy (c : RunCall) : RunCall := { c with destroyed := true }

/-- What happens to a process reaches its handler, as long as there is one. -/
def happens (c : RunCall) (e : SubprocessEvent) : RunCall :=
  { c with
    handler := if c.destroyed then c.handler else c.handler.deliver e
    happened := c.happened ++ [e] }

variable (uv_strerror : Int32 → String) (options : RunOptions)

/-- The future of `RunSubprocess`. The promises of a fully detached process are kept at
    once; with the handler, the promises are destroyed. -/
def runSubprocess (c : RunCall) : Option (Completion RunException Buffer) :=
  if .starryProcessFullyDetach ∈ convertOptions options then some (.value [])
  else
    match FutureSubprocess.result uv_strerror c.handler.calls with
    | some (.value buffer) => some (.value buffer)
    | some (.exception err) => some (.exception (.futureSubprocessError err))
    | none => if c.destroyed then some (.exception .brokenPromise) else none

/-- What `Run` attaches to that future. -/
def completed : Completion RunException Buffer → Completion RunException Unit
  | .value _ => .value ()
  | .exception (.futureSubprocessError err) =>
    if options = .ignore then .value () else .exception (.externalRunnerError err.what)
  | .exception e => .exception e

/-- How the future of the call is ready, if it is. -/
def outcome (c : RunCall) : Option (Completion RunException Unit) :=
  (c.runSubprocess uv_strerror options).map (completed options)

/-- What the exit of a process means for the call that started it. -/
def outcomeOf (status : Int32) : Completion RunException Unit :=
  if status ≠ 0 ∧ options ≠ .ignore then .exception (.externalRunnerError (uv_strerror status))
  else .value ()

/-- The future of a call is ready if and only if the process has ended, and with what became
    of it; and the promises have not been kept twice. -/
structure OwnOutcome (c : RunCall) : Prop where
  outcome_eq : c.outcome uv_strerror options =
    (due c.happened).map (outcomeOf uv_strerror options)
  once : c.handler.calls = [] ∨
    ∃ out err status, c.handler.calls = [.stdOutCb out, .stdErrCb err, .processExitCb status]

/-- The handler has heard of all that happened to the process before it was destroyed. -/
def Hears (c : RunCall) : Prop :=
  ∃ heard, heard <+: c.happened ∧ (c.destroyed = false → heard = c.happened) ∧
    c.handler = run deliver ((SubprocessHandler.new false).runProcess true) heard

variable {uv_strerror options} {c : RunCall} {e : SubprocessEvent}

theorem hears_start : start.Hears := ⟨[], List.prefix_rfl, fun _ => rfl, rfl⟩

theorem Hears.destroy (h : c.Hears) : c.destroy.Hears := by
  obtain ⟨heard, hpre, _, hhandler⟩ := h
  exact ⟨heard, hpre, fun h => absurd h (by simp [RunCall.destroy]), hhandler⟩

theorem Hears.happens (h : c.Hears) : (c.happens e).Hears := by
  obtain ⟨heard, hpre, hheard, hhandler⟩ := h
  cases hd : c.destroyed with
  | true =>
    refine ⟨heard, hpre.trans (List.prefix_append _ _), fun h => ?_, ?_⟩
    · rw [RunCall.happens, hd] at h
      cases h
    · rw [RunCall.happens, hd]
      exact hhandler
  | false =>
    obtain rfl := hheard hd
    refine ⟨c.happened ++ [e], List.prefix_rfl, fun _ => rfl, ?_⟩
    rw [RunCall.happens, hd, run_append, ← hhandler]
    rfl

theorem due_append {es : List SubprocessEvent} {status : Int32} (h : due es = some status)
    (es' : List SubprocessEvent) : due (es ++ es') = some status := by
  rw [due] at h ⊢
  split at h
  · cases h
  · next hend =>
    obtain ⟨stdOutEnd, hsome⟩ := Option.ne_none_iff_exists'.1 hend
    have hpre := List.prefix_append es es'
    have hsome' : stdOutEndOf (es ++ es') = some stdOutEnd := hpre.findSome?_eq_some hsome
    rw [hsome', if_neg (Option.some_ne_none _)]
    exact hpre.findSome?_eq_some h

/-- The promises are kept once. -/
theorem Hears.once (h : c.Hears) : c.handler.calls = [] ∨
    ∃ out err status, c.handler.calls = [.stdOutCb out, .stdErrCb err, .processExitCb status] := by
  obtain ⟨heard, _, _, hhandler⟩ := h
  rw [hhandler, run_deliver (idle_new false), SubprocessHandler.new, calls_handler]
  cases (run Observed.step .nothing heard).calledBack with
  | none => exact .inl rfl
  | some status => exact .inr ⟨_, _, status, rfl⟩

theorem ownOutcome_iff (h : c.Hears) : c.OwnOutcome uv_strerror options ↔
    c.outcome uv_strerror options = (due c.happened).map (outcomeOf uv_strerror options) :=
  ⟨OwnOutcome.outcome_eq, fun houtcome => ⟨houtcome, h.once⟩⟩

theorem outcome_of_detach (h : options = .detach) :
    c.outcome uv_strerror options = some (.value ()) := by
  subst h
  rfl

/-- The outcome of a call, by what its handler has heard. -/
theorem outcome_of_heard {heard : List SubprocessEvent} (hoptions : options ≠ .detach)
    (hhandler : c.handler = run deliver ((SubprocessHandler.new false).runProcess true) heard) :
    c.outcome uv_strerror options =
      ((run Observed.step .nothing heard).calledBack.map (outcomeOf uv_strerror options)).or
        (if c.destroyed then some (.exception .brokenPromise) else none) := by
  have hattached : .starryProcessFullyDetach ∉ convertOptions options := by
    rw [convertOptions, if_neg hoptions]
    exact List.not_mem_nil
  rw [outcome, runSubprocess, if_neg hattached, hhandler, run_deliver (idle_new false),
    SubprocessHandler.new, result_handler]
  cases (run Observed.step .nothing heard).calledBack with
  | none => cases c.destroyed <;> rfl
  | some status =>
    by_cases hstatus : status = 0
    · simp [hstatus, completed, outcomeOf]
    · by_cases hignore : options = .ignore
      · simp [hstatus, hignore, completed, outcomeOf]
      · simp [hstatus, hignore, completed, outcomeOf]

theorem outcomeOf_ne_brokenPromise {status : Int32} :
    outcomeOf uv_strerror options status ≠ .exception .brokenPromise := by
  rw [outcomeOf]
  split <;> exact nofun

/-- With the handler, the promises that have not been kept are broken. -/
theorem outcome_destroy : c.destroy.outcome uv_strerror options =
    (c.outcome uv_strerror options).or (some (.exception .brokenPromise)) := by
  rw [outcome, outcome, runSubprocess, runSubprocess, destroy]
  split
  · rfl
  · dsimp only
    rcases FutureSubprocess.result uv_strerror c.handler.calls with _ | _ | _
    · cases c.destroyed <;> rfl
    · rfl
    · simp only [Option.map_some]
      rfl

/-- Nothing is heard after the handler has been destroyed. -/
theorem outcome_happens_of_destroyed (hd : c.destroyed = true) :
    (c.happens e).outcome uv_strerror options = c.outcome uv_strerror options := by
  rw [outcome, outcome, runSubprocess, runSubprocess, happens, hd]
  rfl

/-- A call keeps the outcome of its process when the handler is destroyed if and only if the
    process has ended. -/
theorem ownOutcome_destroy_iff (h : c.Hears) (hown : c.OwnOutcome uv_strerror options) :
    c.destroy.OwnOutcome uv_strerror options ↔ due c.happened ≠ none := by
  rw [ownOutcome_iff h.destroy, outcome_destroy, hown.outcome_eq, destroy]
  cases due c.happened with
  | none => simp
  | some status => simp

theorem ownOutcome_start_iff : start.OwnOutcome uv_strerror options ↔ options ≠ .detach := by
  rw [ownOutcome_iff hears_start]
  by_cases hoptions : options = .detach
  · rw [outcome_of_detach hoptions]
    exact iff_of_false (Option.some_ne_none _) (fun h => h hoptions)
  · have hhandler : start.handler =
        run deliver ((SubprocessHandler.new false).runProcess true) [] := rfl
    rw [outcome_of_heard hoptions hhandler]
    exact iff_of_true rfl hoptions

/-- A call has the outcome of its process, though the handler has been destroyed: it has
    heard of the end of the process before. -/
theorem OwnOutcome.calledBack (hown : c.OwnOutcome uv_strerror options) (h : c.Hears)
    (hoptions : options ≠ .detach) (hd : c.destroyed = true) :
    ∃ status, c.outcome uv_strerror options = some (outcomeOf uv_strerror options status) ∧
      ∀ behind, (run Observed.step .nothing (c.happened ++ behind)).calledBack = some status := by
  obtain ⟨heard, ⟨unheard, hunheard⟩, _, hhandler⟩ := h
  have houtcome := @outcome_of_heard uv_strerror _ _ _ hoptions hhandler
  rw [hd] at houtcome
  cases hcalled : (run Observed.step .nothing heard).calledBack with
  | none =>
    rw [hcalled, hown.outcome_eq] at houtcome
    obtain ⟨status, _, hstatus⟩ := Option.map_eq_some_iff.1 houtcome
    exact absurd hstatus outcomeOf_ne_brokenPromise
  | some status =>
    refine ⟨status, by rw [houtcome, hcalled]; rfl, fun behind => ?_⟩
    rw [← hunheard, List.append_assoc, run_append]
    exact Observed.calledBack_run_of_eq_some hcalled

/-- As long as there is a handler, the call has the outcome of its process unless that exits
    and its standard output cannot be read. -/
theorem ownOutcome_iff_of_alive (h : c.Hears) (hoptions : options ≠ .detach)
    (hd : c.destroyed = false) : c.OwnOutcome uv_strerror options ↔
      ¬ (stdOutEndOf c.happened = some .error ∧ exitStatusOf c.happened ≠ none) := by
  rw [ownOutcome_iff h, ← calledBack_run_iff]
  obtain ⟨heard, _, hheard, hhandler⟩ := h
  obtain rfl := hheard hd
  rw [outcome_of_heard hoptions hhandler, hd, if_neg Bool.false_ne_true, Option.or_none,
    calledBack_run]
  split
  · cases due c.happened with
    | none => exact iff_of_true rfl rfl
    | some status => exact iff_of_false nofun nofun
  · exact iff_of_true rfl rfl

/-- The outcome of its process is kept by what happens next to the process if and only if
    that does not leave an exited process with a standard output that cannot be read. -/
theorem ownOutcome_happens_iff (h : c.Hears) (hown : c.OwnOutcome uv_strerror options) :
    (c.happens e).OwnOutcome uv_strerror options ↔ (options ≠ .detach →
      ¬ (stdOutEndOf (c.happened ++ [e]) = some .error ∧
        exitStatusOf (c.happened ++ [e]) ≠ none)) := by
  by_cases hoptions : options = .detach
  · -- The future has been ready from the start: the process has ended well already.
    have houtcome := hown.outcome_eq
    rw [outcome_of_detach hoptions] at houtcome
    obtain ⟨status, hdue, hstatus⟩ := Option.map_eq_some_iff.1 houtcome.symm
    refine iff_of_true ((ownOutcome_iff h.happens).2 ?_) fun hne => absurd hoptions hne
    rw [outcome_of_detach hoptions, happens, due_append hdue, Option.map_some, hstatus]
  · rw [forall_prop_of_true hoptions]
    cases hd : c.destroyed with
    | true =>
      -- A process that is replaced has called back already; no event changes that.
      obtain ⟨status, houtcome, hcalled⟩ := hown.calledBack h hoptions hd
      have hdue := due_of_calledBack (hcalled [e])
      refine iff_of_true ((ownOutcome_iff h.happens).2 ?_) (calledBack_run_iff.1 ?_)
      · rw [outcome_happens_of_destroyed hd, houtcome, happens, hdue]
        rfl
      · rw [hcalled, hdue]
    | false => exact ownOutcome_iff_of_alive h.happens hoptions hd

end RunCall

/-- The calls of `Run`, one after the other; `mSubproc` is the process of the last one. -/
structure ExternalRunner where
  options : RunOptions
  calls : List RunCall

/-- `Run` is called, or something happens to the process of the `i`-th call. -/
inductive RunnerEvent
  | run
  | process (i : Nat) (e : SubprocessEvent)

namespace ExternalRunner

def new (options : RunOptions) : ExternalRunner := ⟨options, []⟩

/-- A call of `Run` destroys the handler of the process before. -/
def step (r : ExternalRunner) : RunnerEvent → ExternalRunner
  | .run => { r with calls := r.calls.map RunCall.destroy ++ [.start] }
  | .process i e => { r with calls := r.calls.modify i fun c => c.happens e }

/-- Each call has the outcome of its own process. -/
def OwnOutcomes (uv_strerror : Int32 → String) (r : ExternalRunner) : Prop :=
  ∀ c ∈ r.calls, c.OwnOutcome uv_strerror r.options

/-- `Run` is called only when all processes before have ended, and not for a process that is
    to be detached; and the standard output of a process that exits can be read. -/
def Quiet (r : ExternalRunner) : RunnerEvent → Prop
  | .run => r.options ≠ .detach ∧ ∀ c ∈ r.calls, due c.happened ≠ none
  | .process i e => r.options ≠ .detach → ∀ c, r.calls[i]? = some c →
    ¬ (stdOutEndOf (c.happened ++ [e]) = some .error ∧ exitStatusOf (c.happened ++ [e]) ≠ none)

/-- The handlers have heard of what happened to their processes, until they were destroyed. -/
def Hears (r : ExternalRunner) : Prop := ∀ c ∈ r.calls, c.Hears

variable {r : ExternalRunner}

theorem Hears.step (h : r.Hears) (e : RunnerEvent) : (r.step e).Hears := by
  intro c hc
  cases e with
  | run =>
    rcases List.mem_append.1 hc with hc | hc
    · obtain ⟨c', hc', rfl⟩ := List.mem_map.1 hc
      exact (h c' hc').destroy
    · rw [List.mem_singleton.1 hc]
      exact RunCall.hears_start
  | process i e =>
    obtain ⟨j, hj⟩ := List.mem_iff_getElem?.1 hc
    rw [ExternalRunner.step, List.getElem?_modify] at hj
    obtain ⟨c', hc', rfl⟩ := Option.map_eq_some_iff.1 hj
    have hhears := h c' (List.mem_of_getElem? hc')
    split
    · exact hhears.happens
    · exact hhears

/-- The step lemma: which steps keep the outcomes. -/
theorem ownOutcomes_step_iff {uv_strerror : Int32 → String} {e : RunnerEvent} (h : r.Hears)
    (hown : r.OwnOutcomes uv_strerror) : (r.step e).OwnOutcomes uv_strerror ↔ r.Quiet e := by
  cases e with
  | run =>
    rw [OwnOutcomes, step, Quiet, List.forall_mem_append, List.forall_mem_map,
      List.forall_mem_singleton, RunCall.ownOutcome_start_iff, and_comm]
    exact and_congr_right fun _ => forall₂_congr fun c hc =>
      RunCall.ownOutcome_destroy_iff (h c hc) (hown c hc)
  | process i e =>
    constructor
    · intro hstep hoptions c hc
      have hmem := List.mem_of_getElem? hc
      have hmem' : c.happens e ∈ r.calls.modify i fun c => c.happens e := by
        refine List.mem_of_getElem? (i := i) ?_
        rw [List.getElem?_modify, hc, Option.map_eq_map, Option.map_some, if_pos rfl]
      exact (RunCall.ownOutcome_happens_iff (h c hmem) (hown c hmem)).1 (hstep _ hmem') hoptions
    · intro hquiet c hc
      obtain ⟨j, hj⟩ := List.mem_iff_getElem?.1 hc
      rw [step, List.getElem?_modify] at hj
      obtain ⟨c', hc', rfl⟩ := Option.map_eq_some_iff.1 hj
      have hmem := List.mem_of_getElem? hc'
      split
      · next hij =>
        subst hij
        exact (RunCall.ownOutcome_happens_iff (h c' hmem) (hown c' hmem)).2
          fun hoptions => hquiet hoptions c' hc'
      · exact hown c' hmem

/-- Whatever the calls and the processes do, and in whatever order: all calls have the
    outcomes of their own processes at all times if and only if every step is quiet. -/
theorem always_ownOutcomes_iff (uv_strerror : Int32 → String) (options : RunOptions)
    (es : List RunnerEvent) :
    Always step (OwnOutcomes uv_strerror) (new options) es ↔
      Guarded step Quiet (new options) es :=
  always_iff_guarded (J := Hears) (fun _ hc => absurd hc List.not_mem_nil) (fun _ e h => h.step e)
    (fun _ hc => absurd hc List.not_mem_nil) fun _ _ h hown => ownOutcomes_step_iff h hown

/-- The same hook is run for a second time while its first process is running: the future of
    the first call is ready, with a broken promise. -/
theorem not_always_ownOutcomes_runTwice :
    ¬ Always step (OwnOutcomes fun _ => "") (new .default) [.run, .run] := by
  intro h
  have houtcome := (h.last RunCall.start.destroy (by simp [run, step, new])).outcome_eq
  cases houtcome

end ExternalRunner

end SysAdmin
