import Mathlib.Data.List.Basic
import Mathlib.Data.List.Perm.Subperm
import SysAdmin.Foundation.Machine

/-!
# Batches of jobs

Jobs are run in *batches*, one batch after the other: all jobs of a batch are started
together, and the next batch is started when all of them have succeeded. Once a job has
failed, nothing is started any more.

* `Progress`: how far the batches have come, with the jobs started and those that have
  succeeded so far;
* `step`: a running job completes, with success or not. In which order they complete is
  up to the jobs;
* `Sound`: what holds in all states of all runs (`sound_run`). From it come a bound on
  the jobs running (`Sound.length_running_le`), their order (`Sound.subperm_succeeded`),
  and what it takes for all batches to succeed (`Sound.perm_of_succeeded`).
-/

namespace SysAdmin.Batches

open Machine

variable {α : Type*}

/-- What is known of the outcome of all batches. -/
inductive Outcome
  | pending
  | succeeded
  | failed
  deriving DecidableEq

/-- How far the batches have come. -/
structure Progress (α : Type*) where
  todo : List (List α)
  started : List α
  running : List α
  succeeded : List α
  outcome : Outcome

/-- Starts the next batch that has jobs, if there is one. -/
def launch (started succeeded : List α) : List (List α) → Progress α
  | [] => ⟨[], started, [], succeeded, .succeeded⟩
  | [] :: todo => launch started succeeded todo
  | (x :: xs) :: todo => ⟨todo, started ++ x :: xs, x :: xs, succeeded, .pending⟩

/-- Starts the first batch. -/
def start (batches : List (List α)) : Progress α := launch [] [] batches

/-- A running job completes. -/
def step [DecidableEq α] (p : Progress α) : α × Bool → Progress α
  | (x, success) =>
    if x ∈ p.running then
      let p := { p with
        running := p.running.erase x
        succeeded := if success then p.succeeded ++ [x] else p.succeeded }
      match p.outcome with
      | .pending =>
        if !success then { p with outcome := .failed }
        else if p.running = [] then launch p.started p.succeeded p.todo
        else p
      -- Nobody waits for what is left of a batch that has failed.
      | .succeeded | .failed => p
    else p

/-- Where the batches are: those before the current one have succeeded, and those
    behind it are still to be started. -/
structure Current (batches : List (List α)) (p : Progress α) (before : List (List α))
    (batch : List α) : Prop where
  split : before ++ batch :: p.todo = batches
  started : p.started = before.flatten ++ batch
  succeeded : before.flatten.Subperm p.succeeded

/-- What holds at any time. -/
structure Sound (batches : List (List α)) (p : Progress α) : Prop where
  pending : p.outcome = .pending → ∃ before batch, Current batches p before batch ∧
    p.running.Subperm batch ∧ (p.succeeded ++ p.running).Perm p.started
  failed : p.outcome = .failed → ∃ before batch, Current batches p before batch
  succeeded : p.outcome = .succeeded → p.running = [] ∧ p.started = batches.flatten ∧
    p.succeeded.Perm p.started

variable {batches todo before pre post : List (List α)} {p : Progress α} {batch : List α}
  {es : List (α × Bool)} {e : α × Bool}

/-- Starting a batch when all before have succeeded. -/
theorem sound_launch (before : List (List α)) {started succeeded : List α}
    (hsplit : before ++ todo = batches) (hstarted : started = before.flatten)
    (hsucc : succeeded.Perm started) :
    Sound batches (launch started succeeded todo) := by
  induction todo generalizing before with
  | nil =>
    refine ⟨nofun, nofun, fun _ => ⟨rfl, ?_, hsucc⟩⟩
    rw [launch, hstarted, ← hsplit, List.append_nil]
  | cons batch todo ih =>
    cases batch with
    | nil =>
      -- An empty batch succeeds at once.
      rw [launch]
      exact ih (before ++ [[]]) (by simpa using hsplit) (by simpa using hstarted)
    | cons x xs =>
      refine ⟨fun _ => ⟨before, x :: xs, ⟨hsplit, ?_, ?_⟩, List.Subperm.refl _, ?_⟩, nofun, nofun⟩
      · rw [launch, hstarted]
      · rw [launch, ← hstarted]
        exact hsucc.symm.subperm
      · exact hsucc.append_right _

theorem sound_start : Sound batches (start batches) :=
  sound_launch [] rfl rfl (List.Perm.refl _)

/-- More may succeed while nothing is started. -/
theorem Current.mono (h : Current batches p before batch) {p' : Progress α}
    (htodo : p'.todo = p.todo) (hstarted : p'.started = p.started)
    (hsucc : p.succeeded.Subperm p'.succeeded) : Current batches p' before batch :=
  ⟨by rw [htodo, h.split], by rw [hstarted, h.started], h.succeeded.trans hsucc⟩

theorem Sound.step [DecidableEq α] (h : Sound batches p) : Sound batches (step p e) := by
  obtain ⟨x, success⟩ := e
  rw [Batches.step]
  split
  · next hx =>
    have hsub : p.succeeded.Subperm (if success then p.succeeded ++ [x] else p.succeeded) := by
      split
      · exact (List.sublist_append_left _ _).subperm
      · exact List.Subperm.refl _
    cases ho : p.outcome with
    | pending =>
      obtain ⟨before, batch, hcur, hrun, hperm⟩ := h.pending ho
      dsimp only
      cases success with
      | false => exact ⟨nofun, fun _ => ⟨before, batch, hcur.mono rfl rfl hsub⟩, nofun⟩
      | true =>
        -- The job goes from the running to the succeeded ones.
        have hperm' : ((p.succeeded ++ [x]) ++ p.running.erase x).Perm p.started := by
          rw [List.append_assoc]
          exact ((List.perm_cons_erase hx).symm.append_left _).trans hperm
        simp only [Bool.not_true, Bool.false_eq_true, if_false, if_true]
        split
        · next hnil =>
          rw [hnil, List.append_nil] at hperm'
          refine sound_launch (before ++ [batch]) ?_ ?_ hperm'
          · rw [← hcur.split, List.append_assoc, List.singleton_append]
          · rw [hcur.started, List.flatten_append, List.flatten_singleton]
        · exact ⟨fun _ => ⟨before, batch, hcur.mono rfl rfl hsub,
            List.erase_sublist.subperm.trans hrun, hperm'⟩,
            nofun, nofun⟩
    | failed =>
      obtain ⟨before, batch, hcur⟩ := h.failed ho
      exact ⟨nofun, fun _ => ⟨before, batch, hcur.mono rfl rfl hsub⟩, nofun⟩
    | succeeded =>
      rw [(h.succeeded ho).1] at hx
      exact absurd hx List.not_mem_nil
  · exact h

theorem sound_run [DecidableEq α] (batches : List (List α)) (es : List (α × Bool)) :
    Sound batches (run step (start batches) es) :=
  (Always.of_step step (I := Sound batches) (G := fun _ _ => True) sound_start
    (fun _ _ h _ => h.step) (guarded_of_forall fun _ _ => trivial)).last

/-! ## What follows -/

/-- The jobs started are the first ones. -/
theorem Sound.prefix_started (h : Sound batches p) : p.started <+: batches.flatten := by
  have hcur : ∀ {before batch}, Current batches p before batch → p.started <+: batches.flatten := by
    intro before batch hcur
    rw [hcur.started, ← hcur.split, List.flatten_append, List.flatten_cons, ← List.append_assoc]
    exact List.prefix_append _ _
  cases ho : p.outcome with
  | pending =>
    obtain ⟨before, batch, hc, _⟩ := h.pending ho
    exact hcur hc
  | failed =>
    obtain ⟨before, batch, hc⟩ := h.failed ho
    exact hcur hc
  | succeeded => rw [(h.succeeded ho).2.1]

/-- While none has failed, no more jobs are running than there are in a batch. -/
theorem Sound.length_running_le (h : Sound batches p) (ho : p.outcome ≠ .failed) {n : Nat}
    (hn : ∀ batch ∈ batches, batch.length ≤ n) : p.running.length ≤ n := by
  cases ho' : p.outcome with
  | pending =>
    obtain ⟨before, batch, hcur, hrun, _⟩ := h.pending ho'
    exact hrun.length_le.trans (hn batch (by rw [← hcur.split]; simp))
  | failed => exact absurd ho' ho
  | succeeded =>
    rw [(h.succeeded ho').1]
    exact Nat.zero_le n

/-- When more jobs have been started than there are in the first batches, all of these
    have succeeded. -/
theorem Sound.subperm_succeeded (h : Sound batches p) (hb : batches = pre ++ post)
    (hlen : pre.flatten.length < p.started.length) : pre.flatten.Subperm p.succeeded := by
  have hcur : ∀ {before batch}, Current batches p before batch →
      pre.flatten.Subperm p.succeeded := by
    intro before batch hcur
    have hsplit : pre ++ post = before ++ batch :: p.todo := by rw [← hb, hcur.split]
    -- The first batches end before the current one, or they contain all that was started.
    rcases List.append_eq_append_iff.1 hsplit with ⟨mid, rfl, _⟩ | ⟨mid, rfl, hmid⟩
    · refine List.Subperm.trans ?_ hcur.succeeded
      rw [List.flatten_append]
      exact (List.sublist_append_left _ _).subperm
    · cases mid with
      | nil => simpa using hcur.succeeded
      | cons b mid =>
        obtain ⟨rfl, _⟩ := List.cons.inj hmid
        rw [hcur.started, List.flatten_append, List.flatten_cons] at hlen
        simp only [List.length_append] at hlen
        omega
  cases ho : p.outcome with
  | pending =>
    obtain ⟨before, batch, hc, _⟩ := h.pending ho
    exact hcur hc
  | failed =>
    obtain ⟨before, batch, hc⟩ := h.failed ho
    exact hcur hc
  | succeeded =>
    obtain ⟨_, hstarted, hperm⟩ := h.succeeded ho
    refine List.Subperm.trans ?_ hperm.symm.subperm
    rw [hstarted, hb, List.flatten_append]
    exact (List.sublist_append_left _ _).subperm

/-- After a failure, nothing is started. -/
theorem started_run_of_failed [DecidableEq α] (ho : p.outcome = .failed) :
    (run step p es).started = p.started := by
  induction es generalizing p with
  | nil => rfl
  | cons e es ih =>
    have hstep : (step p e).outcome = .failed ∧ (step p e).started = p.started := by
      rw [step]
      split
      · simp only [ho, and_self]
      · exact ⟨ho, rfl⟩
    rw [run_cons, ih hstep.1, hstep.2]

/-- All batches succeed only when all of their jobs have. -/
theorem Sound.perm_of_succeeded (h : Sound batches p) (ho : p.outcome = .succeeded) :
    p.started = batches.flatten ∧ p.succeeded.Perm batches.flatten := by
  obtain ⟨_, hstarted, hperm⟩ := h.succeeded ho
  exact ⟨hstarted, hstarted ▸ hperm⟩

end SysAdmin.Batches
