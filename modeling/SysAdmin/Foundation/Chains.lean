import SysAdmin.Foundation.Batches
import SysAdmin.Foundation.Futures

/-!
# Chains of futures

Jobs of batches whose futures may be ready as soon as the jobs are started. The futures of a batch
are collected: the first of them that is ready with an exception makes the chain fail, and when all
are ready with values, the next batch is started. This may be at once, so that starting a batch
starts the ones behind it up to one that has to be waited for (`launch`).

* `Jobs`: what the future of a job is when it is started, which may depend on what is found there,
  and what it completes with when the job ends;
* `Chain`, `step`: how far a chain has come, and the end of a job;
* `exists_run_launch`, `exists_run_step`: a chain is a run of its batches, in which the futures
  that are ready at once complete first;
* `Sound.step`: what holds of all chains. What a job has completed with is what its future was when
  it was started, or what it has ended with.
-/

namespace SysAdmin.Chains

open Machine Futures

/-- How jobs behave. -/
structure Jobs (σ α η ε : Type) where
  execute : σ → α → Option (Completion ε Unit)
  finish : α → η → Completion ε Unit

/-- How far a chain has come: which jobs have been started with what around, how those that were
    waited for have ended, and what the last future is ready with. -/
structure Chain (σ α η ε : Type) where
  todo : List (List α)
  started : List (σ × α)
  running : List α
  succeeded : List α
  ended : List (α × η)
  result : Option (Completion ε Unit)

variable {σ α η ε : Type}

/-- The future is ready with a value. -/
def isValue : Option (Completion ε Unit) → Bool
  | some (.value _) => true
  | some (.exception _) | none => false

/-- The exception with which the future is ready. -/
def exception? : Option (Completion ε Unit) → Option ε
  | some (.exception e) => some e
  | some (.value _) | none => none

@[simp] theorem isValue_none : isValue (none : Option (Completion ε Unit)) = false := rfl

@[simp] theorem isValue_value (u : Unit) :
    isValue (some (Completion.value u) : Option (Completion ε Unit)) = true := rfl

@[simp] theorem isValue_exception (e : ε) : isValue (some (.exception e)) = false := rfl

@[simp] theorem exception?_none : exception? (none : Option (Completion ε Unit)) = none := rfl

@[simp] theorem exception?_value (u : Unit) :
    exception? (some (Completion.value u) : Option (Completion ε Unit)) = none := rfl

@[simp] theorem exception?_exception (e : ε) : exception? (some (.exception e)) = some e := rfl

variable (jobs : Jobs σ α η ε)

/-- Starts the next batch, and the ones behind it as long as all futures are ready. -/
def launch (s : σ) (started : List (σ × α)) (succeeded : List α) (ended : List (α × η)) :
    List (List α) → Chain σ α η ε
  | [] => ⟨[], started, [], succeeded, ended, some (.value ())⟩
  | batch :: todo =>
    let started := started ++ batch.map (s, ·)
    let running := batch.filter fun x => (jobs.execute s x).isNone
    let succeeded := succeeded ++ batch.filter fun x => isValue (jobs.execute s x)
    match batch.findSome? fun x => exception? (jobs.execute s x) with
    | some e => ⟨todo, started, running, succeeded, ended, some (.exception e)⟩
    | none =>
      if running.isEmpty then launch s started succeeded ended todo
      else ⟨todo, started, running, succeeded, ended, none⟩

/-- Starts the first batch. -/
def start (s : σ) (batches : List (List α)) : Chain σ α η ε := launch jobs s [] [] [] batches

/-- A job that is waited for ends. -/
def step [DecidableEq α] (s : σ) (c : Chain σ α η ε) (x : α) (how : η) : Chain σ α η ε :=
  if x ∈ c.running then
    let c := { c with
      running := c.running.erase x
      succeeded := if isValue (some (jobs.finish x how)) then c.succeeded ++ [x] else c.succeeded
      ended := c.ended ++ [(x, how)] }
    match c.result, jobs.finish x how with
    -- Nobody waits for what is left of a batch that has failed.
    | some _, _ => c
    | none, .exception e => { c with result := some (.exception e) }
    | none, .value _ =>
      if c.running.isEmpty then launch jobs s c.started c.succeeded c.ended c.todo else c
  else c

/-! ## Chains as runs of batches -/

/-- What is known of the outcome. -/
def outcome : Option (Completion ε Unit) → Batches.Outcome
  | none => .pending
  | some (.value _) => .succeeded
  | some (.exception _) => .failed

/-- How far the batches have come. -/
def Chain.progress (c : Chain σ α η ε) : Batches.Progress α :=
  ⟨c.todo, c.started.map Prod.snd, c.running, c.succeeded, outcome c.result⟩

/-- The completions of the futures that are ready at once. -/
def completions (s : σ) (batch : List α) : List (α × Bool) :=
  (batch.filter fun x => (jobs.execute s x).isSome).map fun x => (x, isValue (jobs.execute s x))

section refinement

variable {jobs} [DecidableEq α] {s : σ} {started : List (σ × α)} {batch waiting succeeded : List α}
  {ended : List (α × η)} {c : Chain σ α η ε} {x : α} {how : η}

omit [DecidableEq α] in
theorem completions_cons : completions jobs s (x :: batch) =
    ((jobs.execute s x).map fun r => (x, isValue (some r))).toList ++ completions jobs s batch := by
  rw [completions, completions, List.filter_cons]
  rcases hx : jobs.execute s x with _ | r
  · rfl
  · simp [hx]

variable (batch) in
/-- A job that is ready is not one of those before it that are not. -/
theorem erase_append (hwaiting : ∀ y ∈ waiting, jobs.execute s y = none)
    (hx : jobs.execute s x ≠ none) : (waiting ++ x :: batch).erase x = waiting ++ batch := by
  rw [List.erase_append_right _ fun hmem => hx (hwaiting x hmem), List.erase_cons_head]

omit [DecidableEq α] in
theorem forall_mem_concat (hwaiting : ∀ y ∈ waiting, jobs.execute s y = none)
    (hx : jobs.execute s x = none) : ∀ y ∈ waiting ++ [x], jobs.execute s y = none :=
  List.forall_mem_append.2 ⟨hwaiting, List.forall_mem_singleton.2 hx⟩

/-- After a failure, the completions are only noted. -/
theorem run_failed {todo : List (List α)} {names : List α}
    (hwaiting : ∀ y ∈ waiting, jobs.execute s y = none) :
    run Batches.step ⟨todo, names, waiting ++ batch, succeeded, .failed⟩
        (completions jobs s batch) =
      ⟨todo, names, waiting ++ batch.filter fun x => (jobs.execute s x).isNone,
        succeeded ++ batch.filter fun x => isValue (jobs.execute s x), .failed⟩ := by
  induction batch generalizing waiting succeeded with
  | nil => simp [completions]
  | cons x batch ih =>
    rw [completions_cons]
    rcases hx : jobs.execute s x with _ | r
    · have h := @ih (waiting ++ [x]) succeeded (forall_mem_concat hwaiting hx)
      simp only [List.append_assoc, List.singleton_append] at h
      simpa [List.filter_cons, hx] using h
    · have herase := erase_append batch hwaiting (by rw [hx]; exact Option.some_ne_none r)
      have h := @ih waiting (if isValue (some r) then succeeded ++ [x] else succeeded) hwaiting
      simp only [Option.map_some, Option.toList_some, List.singleton_append, run_cons]
      rw [Batches.step, if_pos (List.mem_append_right _ List.mem_cons_self)]
      simp only [herase]
      rw [h]
      rcases r with _ | e <;> simp [hx]

/-- What the completions of a batch come to: a failure, the start of the next batch, or jobs that
    are waited for. -/
theorem run_completions {todo : List (List α)} {names : List α}
    (hwaiting : ∀ y ∈ waiting, jobs.execute s y = none) (hne : waiting ++ batch ≠ []) :
    run Batches.step ⟨todo, names, waiting ++ batch, succeeded, .pending⟩
        (completions jobs s batch) =
      match batch.findSome? fun x => exception? (jobs.execute s x) with
      | some _ => ⟨todo, names, waiting ++ batch.filter fun x => (jobs.execute s x).isNone,
          succeeded ++ batch.filter fun x => isValue (jobs.execute s x), .failed⟩
      | none =>
        if (waiting ++ batch.filter fun x => (jobs.execute s x).isNone).isEmpty then
          Batches.launch names
            (succeeded ++ batch.filter fun x => isValue (jobs.execute s x)) todo
        else ⟨todo, names, waiting ++ batch.filter fun x => (jobs.execute s x).isNone,
          succeeded ++ batch.filter fun x => isValue (jobs.execute s x), .pending⟩ := by
  induction batch generalizing waiting succeeded with
  | nil =>
    rw [List.append_nil] at hne
    simp [completions, hne]
  | cons x batch ih =>
    rw [completions_cons, List.findSome?_cons]
    rcases hx : jobs.execute s x with _ | _ | e
    · -- A job that is not ready is waited for.
      have h := @ih (waiting ++ [x]) succeeded (forall_mem_concat hwaiting hx) (by simp)
      simp only [List.append_assoc, List.singleton_append] at h
      simpa [List.filter_cons, hx] using h
    · have herase := erase_append batch hwaiting (by rw [hx]; exact Option.some_ne_none _)
      simp only [Option.map_some, Option.toList_some, List.singleton_append, run_cons]
      rw [Batches.step, if_pos (List.mem_append_right _ List.mem_cons_self)]
      simp only [herase, isValue_value, exception?_value, List.filter_cons, hx, Bool.not_true,
        if_true, Bool.false_eq_true, if_false, Option.isNone_some]
      by_cases hnil : waiting ++ batch = []
      · -- this was the last one
        obtain ⟨rfl, rfl⟩ := List.append_eq_nil_iff.1 hnil
        simp [completions]
      · rw [if_neg hnil, ih hwaiting hnil]
        simp [List.append_assoc]
    · -- The first exception decides; what completes after it is only noted.
      have herase := erase_append batch hwaiting (by rw [hx]; exact Option.some_ne_none _)
      simp only [Option.map_some, Option.toList_some, List.singleton_append, run_cons]
      rw [Batches.step, if_pos (List.mem_append_right _ List.mem_cons_self)]
      simp only [herase, isValue_exception, exception?_exception, List.filter_cons, hx,
        Bool.not_false, if_true, Bool.false_eq_true, if_false, Option.isNone_some]
      exact run_failed hwaiting

variable (jobs s started succeeded ended) in
/-- Starting batches is what the completions of the futures that are ready come to. -/
theorem exists_run_launch (todo : List (List α)) : ∃ es,
    (launch jobs s started succeeded ended todo).progress =
      run Batches.step (Batches.launch (started.map Prod.snd) succeeded todo) es := by
  induction todo generalizing started succeeded with
  | nil => exact ⟨[], rfl⟩
  | cons batch todo ih =>
    rcases batch with _ | ⟨x, xs⟩
    · obtain ⟨es, hes⟩ := ih started succeeded
      refine ⟨es, ?_⟩
      rw [launch, Batches.launch, ← hes]
      simp
    · have hnames : (started ++ (x :: xs).map (s, ·)).map Prod.snd =
          started.map Prod.snd ++ x :: xs := by
        simp [Function.comp_def]
      have hrun : run Batches.step
          ⟨todo, started.map Prod.snd ++ x :: xs, [] ++ x :: xs, succeeded, .pending⟩
          (completions jobs s (x :: xs)) = _ :=
        run_completions (fun _ h => absurd h List.not_mem_nil) (List.cons_ne_nil _ _)
      simp only [List.nil_append] at hrun
      rw [launch, Batches.launch]
      split
      · next e he =>
        -- A job of the batch has failed at once: no further batch is started.
        refine ⟨completions jobs s (x :: xs), ?_⟩
        rw [hrun, he, Chain.progress, hnames]
        rfl
      · next he =>
        rw [he] at hrun
        split
        · next hempty =>
          -- All jobs of the batch have succeeded at once: the next batch follows.
          obtain ⟨es, hes⟩ := ih (started ++ (x :: xs).map (s, ·))
            (succeeded ++ (x :: xs).filter fun x => isValue (jobs.execute s x))
          refine ⟨completions jobs s (x :: xs) ++ es, ?_⟩
          rw [run_append, hrun, if_pos hempty, hes, hnames]
        · next hempty =>
          refine ⟨completions jobs s (x :: xs), ?_⟩
          rw [hrun, if_neg hempty, Chain.progress, hnames]
          rfl

variable (jobs) in
/-- The end of a job is its completion, and what that starts. -/
theorem exists_run_step (s : σ) (c : Chain σ α η ε) (x : α) (how : η) : ∃ es,
    (step jobs s c x how).progress = run Batches.step c.progress es := by
  by_cases hx : x ∈ c.running
  · have hstep : Batches.step c.progress (x, isValue (some (jobs.finish x how))) = _ := if_pos hx
    rw [step, if_pos hx]
    rcases hr : c.result with _ | r
    · rcases hf : jobs.finish x how with _ | e
      · simp only [hf, isValue_value, Chain.progress, hr, outcome, Bool.not_true,
          Bool.false_eq_true, if_false, if_true] at hstep
        dsimp only
        split
        · next hempty =>
          obtain ⟨es, hes⟩ := exists_run_launch jobs s c.started (c.succeeded ++ [x])
            (c.ended ++ [(x, how)]) c.todo
          refine ⟨(x, true) :: es, ?_⟩
          rw [if_pos (isValue_value _), hes, run_cons, Chain.progress, hr, outcome, hstep,
            if_pos (List.isEmpty_iff.1 hempty)]
        · next hempty =>
          refine ⟨[(x, true)], ?_⟩
          rw [if_pos (isValue_value _), run_cons, run_nil, Chain.progress, Chain.progress, hr,
            outcome, hstep, if_neg fun h => hempty (List.isEmpty_iff.2 h)]
      · simp only [hf, isValue_exception, Chain.progress, hr, outcome, Bool.not_false,
          Bool.false_eq_true, if_false, if_true] at hstep
        refine ⟨[(x, false)], ?_⟩
        rw [run_cons, run_nil, Chain.progress, Chain.progress, hr, outcome, hstep]
        rfl
    · -- The chain is ready: the end is noted, and starts nothing.
      refine ⟨[(x, isValue (some (jobs.finish x how)))], ?_⟩
      rw [run_cons, run_nil, hstep, Chain.progress, Chain.progress]
      rcases r with _ | e <;> simp only [hr, outcome]
  · exact ⟨[], by rw [step, if_neg hx]; rfl⟩

end refinement

/-! ## What jobs have completed with -/

/-- The job has been started, and its future has completed so, at once or when the job ended. -/
def Completed (started : List (σ × α)) (ended : List (α × η)) (x : α) (r : Completion ε Unit) :
    Prop :=
  ∃ s, (s, x) ∈ started ∧ (jobs.execute s x = some r ∨
    jobs.execute s x = none ∧ ∃ how, (x, how) ∈ ended ∧ jobs.finish x how = r)

/-- What holds of all chains. A chain that is not ready waits for some job, and for all jobs that it
    waits for an end is still to come. -/
structure Sound (c : Chain σ α η ε) : Prop where
  running : ∀ x ∈ c.running, ∃ s, (s, x) ∈ c.started ∧ jobs.execute s x = none
  succeeded : ∀ x ∈ c.succeeded, Completed jobs c.started c.ended x (.value ())
  failed : ∀ e, c.result = some (.exception e) →
    ∃ x, Completed jobs c.started c.ended x (.exception e)
  waiting : c.result = none → c.running ≠ []
  ended : (c.ended.map Prod.fst ++ c.running).Subperm (c.started.map Prod.snd)

section sound

variable {jobs} {s : σ} {started started' : List (σ × α)} {ended ended' : List (α × η)}
  {succeeded : List α} {c : Chain σ α η ε} {x : α} {how : η} {r : Completion ε Unit}

theorem Completed.mono (h : Completed jobs started ended x r) (hstarted : started ⊆ started')
    (hended : ended ⊆ ended') : Completed jobs started' ended' x r := by
  obtain ⟨s, hs, h | ⟨hnone, how, hhow, hr⟩⟩ := h
  · exact ⟨s, hstarted hs, .inl h⟩
  · exact ⟨s, hstarted hs, .inr ⟨hnone, how, hended hhow, hr⟩⟩

/-- A future that is ready when its job is started. -/
theorem completed_of_execute {batch : List α} (hx : x ∈ batch)
    (h : jobs.execute s x = some r) :
    Completed jobs (started ++ batch.map (s, ·)) ended x r :=
  ⟨s, List.mem_append_right _ (List.mem_map_of_mem hx), .inl h⟩

theorem sound_launch {todo : List (List α)}
    (h : ∀ x ∈ succeeded, Completed jobs started ended x (.value ()))
    (hended : (ended.map Prod.fst).Subperm (started.map Prod.snd)) :
    Sound jobs (launch jobs s started succeeded ended todo) := by
  induction todo generalizing started succeeded with
  | nil =>
    refine ⟨fun _ h => absurd h List.not_mem_nil, h, nofun, nofun, ?_⟩
    rw [launch, List.append_nil]
    exact hended
  | cons batch todo ih =>
    have hnames : (started ++ batch.map (s, ·)).map Prod.snd = started.map Prod.snd ++ batch := by
      simp [Function.comp_def]
    -- What waits is part of the batch that has been started just now.
    have hended' : (ended.map Prod.fst ++ batch.filter fun x => (jobs.execute s x).isNone).Subperm
        ((started ++ batch.map (s, ·)).map Prod.snd) := by
      rw [hnames]
      exact hended.append List.filter_sublist.subperm
    have hrunning : ∀ x ∈ batch.filter fun x => (jobs.execute s x).isNone,
        ∃ s', (s', x) ∈ started ++ batch.map (s, ·) ∧ jobs.execute s' x = none := by
      intro x hx
      obtain ⟨hx, hnone⟩ := List.mem_filter.1 hx
      exact ⟨s, List.mem_append_right _ (List.mem_map_of_mem hx), Option.isNone_iff_eq_none.1 hnone⟩
    have hsucceeded : ∀ x ∈ succeeded ++ batch.filter fun x => isValue (jobs.execute s x),
        Completed jobs (started ++ batch.map (s, ·)) ended x (.value ()) := by
      refine List.forall_mem_append.2 ⟨fun x hx => (h x hx).mono (List.subset_append_left _ _)
        (List.Subset.refl _), fun x hx => ?_⟩
      obtain ⟨hx, hvalue⟩ := List.mem_filter.1 hx
      rcases hr : jobs.execute s x with _ | _ | e
      · rw [hr] at hvalue
        cases hvalue
      · exact completed_of_execute hx hr
      · rw [hr] at hvalue
        cases hvalue
    rw [launch]
    split
    · next e he =>
      obtain ⟨x, hx, hex⟩ := List.exists_of_findSome?_eq_some he
      refine ⟨hrunning, hsucceeded, fun e' he' => ⟨x, ?_⟩, nofun, hended'⟩
      obtain rfl : e = e' := Completion.exception.inj (Option.some.inj he')
      rcases hr : jobs.execute s x with _ | _ | e'
      · rw [hr] at hex
        cases hex
      · rw [hr] at hex
        cases hex
      · rw [hr] at hex
        rw [← Option.some.inj hex]
        exact completed_of_execute hx hr
    · split
      · exact ih hsucceeded ((List.sublist_append_left _ _).subperm.trans hended')
      · next hne =>
        exact ⟨hrunning, hsucceeded, nofun, fun _ hnil => hne (List.isEmpty_iff.2 hnil), hended'⟩

theorem Sound.step [DecidableEq α] (h : Sound jobs c) :
    Sound jobs (Chains.step jobs s c x how) := by
  rw [Chains.step]
  split
  · next hx =>
    obtain ⟨s', hs', hnone⟩ := h.running x hx
    have hended : c.ended ⊆ c.ended ++ [(x, how)] := List.subset_append_left _ _
    have hcompleted : Completed jobs c.started (c.ended ++ [(x, how)]) x (jobs.finish x how) :=
      ⟨s', hs', .inr ⟨hnone, how, List.mem_append_right _ (List.mem_singleton_self _), rfl⟩⟩
    -- the job ends that has been waited for
    have hperm : ((c.ended ++ [(x, how)]).map Prod.fst ++ c.running.erase x).Perm
        (c.ended.map Prod.fst ++ c.running) := by
      rw [List.map_append, List.append_assoc]
      exact (List.perm_cons_erase hx).symm.append_left _
    have hends := hperm.subperm.trans h.ended
    have hrunning : ∀ y ∈ c.running.erase x, ∃ s, (s, y) ∈ c.started ∧ jobs.execute s y = none :=
      fun y hy => h.running y (List.mem_of_mem_erase hy)
    have hsucceeded : ∀ y ∈ if isValue (some (jobs.finish x how)) then c.succeeded ++ [x]
        else c.succeeded, Completed jobs c.started (c.ended ++ [(x, how)]) y (.value ()) := by
      have hold : ∀ y ∈ c.succeeded,
          Completed jobs c.started (c.ended ++ [(x, how)]) y (.value ()) := fun y hy =>
        (h.succeeded y hy).mono (List.Subset.refl _) hended
      rcases hf : jobs.finish x how with _ | e
      · exact List.forall_mem_append.2 ⟨hold, List.forall_mem_singleton.2 (hf ▸ hcompleted)⟩
      · exact hold
    dsimp only
    split
    · next r hr =>
      refine ⟨hrunning, hsucceeded, fun e he => ?_, fun hnone => absurd (hr.symm.trans hnone) nofun,
        hends⟩
      obtain ⟨y, hy⟩ := h.failed e he
      exact ⟨y, hy.mono (List.Subset.refl _) hended⟩
    · next e _ hf =>
      refine ⟨hrunning, hsucceeded, fun e' he' => ⟨x, ?_⟩, nofun, hends⟩
      rw [← Completion.exception.inj (Option.some.inj he'), ← hf]
      exact hcompleted
    · split
      · exact sound_launch hsucceeded ((List.sublist_append_left _ _).subperm.trans hends)
      · next hr _ hne =>
        refine ⟨hrunning, hsucceeded, fun e he => absurd (hr.symm.trans he) nofun,
          fun _ hnil => hne (List.isEmpty_iff.2 hnil), hends⟩
  · exact h

variable (jobs s x how) in
/-- A future completes once, and nothing is started behind it. -/
theorem step_of_result [DecidableEq α] (h : c.result = some r) :
    (Chains.step jobs s c x how).result = some r ∧
      (Chains.step jobs s c x how).started = c.started := by
  rw [Chains.step]
  split
  · dsimp only
    split
    · exact ⟨h, rfl⟩
    · next hnone _ => exact absurd (hnone.symm.trans h) nofun
    · next hnone _ => exact absurd (hnone.symm.trans h) nofun
  · exact ⟨h, rfl⟩

end sound

end SysAdmin.Chains
