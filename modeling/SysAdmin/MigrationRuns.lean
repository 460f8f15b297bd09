import SysAdmin.Migrations

/-!
# Runs of migrations

When migrations are run, all that are pending should be run and logged, or, at the first commit
that fails, all commits of the run should be rolled back and nothing logged.

* `Migrations.RunsAll` and `Migrations.RollsBack` are these two ways for a run to end;
* `Migrations.Guarded`: nothing raises, and if a commit fails, it is the one of the second
  migration of the list, before which no change of a type has been committed;
* `Migrations.meets_iff`: a run ends in one of the two ways exactly if it is guarded. For the
  script compares the index of a migration with the length of the migration, a pair, and not
  with the number of migrations, and rolls back the commits of its first client only.
-/

namespace SysAdmin

open Scripts

namespace Migrations

/-- An event of a script. -/
abbrev ClientEvent := Scripts.Event Call Sysadminctl.Response

/-- Whether a call has been answered with success. -/
def succeeded (e : ClientEvent) : Bool := e.answer.any fun r => decide (status r = .success)

/-- The id in the answer to a commit. -/
def idOf (e : ClientEvent) : UInt32 := (e.answer.map commitId).getD 0

/-- The commits of all clients. -/
def commits (events : List ClientEvent) : List ClientEvent := events.filter fun e => e.call.isCommit

/-- The commits of the client of the script. -/
def mainCommits (events : List ClientEvent) : List ClientEvent :=
  events.filter fun e => e.call.isMainCommit

/-- All commits but the last one have succeeded. -/
def FirstFails (events : List ClientEvent) : Prop :=
  ∃ earlier last, commits events = earlier ++ [last] ∧ (∀ e ∈ earlier, succeeded e = true) ∧
    succeeded last = false

section

variable (world : World Call Sysadminctl.Response)
  (hashMigration : List (String × PyValue) → String)

/-- The migrations that are not logged, also not by an earlier one. -/
def pending : MigrationLog → List Migration → List Migration
  | _, [] => []
  | log, m :: migrations =>
    if log.checkHistory hashMigration m.config then pending log migrations
    else m :: pending (log.logMigration hashMigration m.config) migrations

/-- Runs migrations one after the other, whatever comes of their commits. -/
def migrateAll : List Migration → ClientScript Unit
  | [] => pure ()
  | m :: migrations => do
    let _ ← migrate world m.config
    migrateAll migrations

/-- All pending migrations are run, in order and with success, and are then done in the log. -/
def RunsAll (migrations : List Migration) (logFile : Option MigrationLog) (exit : Exit) : Prop :=
  ∃ events later,
    migrateAll world (pending hashMigration (logFile.getD ∅) migrations) [] = (some (), events) ∧
    (∀ e ∈ commits events, succeeded e = true) ∧ exit.events = events ++ later ∧
    (∀ e ∈ later, e.call = .firehooks sysadmin ∨ e.call = .sync) ∧
    ∀ m ∈ pending hashMigration (logFile.getD ∅) migrations,
      (exit.logFile.any fun log => log.checkHistory hashMigration m.config) = true

/-- Pending migrations are run up to the first commit that fails. Then all commits are rolled
    back in reverse order, no migration is done in the log, and the script returns 1. -/
def RollsBack (migrations : List Migration) (logFile : Option MigrationLog) (exit : Exit) : Prop :=
  ∃ done failing rest events later,
    pending hashMigration (logFile.getD ∅) migrations = done ++ failing :: rest ∧
    migrateAll world (done ++ [failing]) [] = (some (), events) ∧ FirstFails events ∧
    exit.events = events ++ later ∧
    later.map Event.call = (commits events).reverse.map (fun e => .rollback sysadmin (idOf e)) ∧
    exit.code = some 1 ∧
    ∀ m ∈ done ++ [failing],
      (exit.logFile.any fun log => log.checkHistory hashMigration m.config) = false

/-- Rolls commits back, one after the other. -/
def rollbacks : List UInt32 → ClientScript Unit
  | [] => pure ()
  | id :: ids => do
    let _ ← Script.send world (.rollback sysadmin id)
    rollbacks ids

/-- Nothing raises while the migrations are run, and all commits succeed, up to the first
    migration that fails, if there is one. This is the second one of the list, no other client
    has made a commit, and nothing raises while the commits are rolled back. -/
def Guarded : Nat → MigrationLog → List Migration → List ClientEvent → Prop
  | _, _, [], _ => True
  | i, log, m :: migrations, events =>
    if log.checkHistory hashMigration m.config then Guarded (i + 1) log migrations events
    else
      match migrate world m.config events with
      | (none, _) => False
      | (some resp, events') =>
        if status resp = .success then
          (∀ e ∈ commits events', succeeded e = true) ∧
            Guarded (i + 1) (log.logMigration hashMigration m.config) migrations events'
        else
          i = 1 ∧ commits events' = mainCommits events' ∧
            (rollbacks world ((commits events').reverse.map idOf) events').1.isSome = true

end

variable {world : World Call Sysadminctl.Response}
  {hashMigration : List (String × PyValue) → String} {log log' : MigrationLog} {m : Migration}
  {migrations : List Migration} {history : MigrationHistory} {i : Nat}
  {config : List (String × PyValue)} {events events' new : List ClientEvent}
  {resp : Sysadminctl.Response} {r : Option Unit} {e : ClientEvent}

/-! ## The log -/

theorem checkHistory_logMigration : (log.logMigration hashMigration m.config).checkHistory
    hashMigration config = true ↔
      hashMigration config = hashMigration m.config ∨
        log.checkHistory hashMigration config = true := by
  rw [MigrationLog.checkHistory, MigrationLog.logMigration]
  by_cases h : hashMigration config = hashMigration m.config
  · rw [h, AList.lookup_insert]
    simp
  · rw [AList.lookup_insert_ne h]
    simp [h, MigrationLog.checkHistory]

theorem not_done_of_mem_pending (h : m ∈ pending hashMigration log migrations) :
    log.checkHistory hashMigration m.config = false := by
  induction migrations generalizing log with
  | nil => exact absurd h List.not_mem_nil
  | cons m' migrations ih =>
    rw [pending] at h
    split at h
    · exact ih h
    · next hcheck =>
      rcases List.mem_cons.1 h with rfl | h
      · exact eq_false_of_ne_true hcheck
      · have hnot := ih h
        rw [← Bool.not_eq_true, checkHistory_logMigration] at hnot
        exact eq_false_of_ne_true fun hdone => hnot (.inr hdone)

/-! ## Commits -/

@[simp] theorem commits_append : commits (events ++ new) = commits events ++ commits new :=
  List.filter_append ..

@[simp] theorem mainCommits_append :
    mainCommits (events ++ new) = mainCommits events ++ mainCommits new := List.filter_append ..

/-- Before its commit, a migration has no commit but those of the second client. -/
theorem mainCommits_of_stages (h : ∀ e ∈ new, e.call.Stages) : mainCommits new = [] := by
  refine List.filter_eq_nil_iff.2 fun e he => ?_
  have hstages := h e he
  cases hcall : e.call with
  | commit client opt =>
    rw [hcall] at hstages
    obtain rfl : client = cloneClient := hstages
    simp [Call.isMainCommit, cloneClient, sysadmin]
  | _ => simp [Call.isMainCommit]

/-- The commits of all clients are as many as those of the first one only if there is no other
    commit. -/
theorem commits_eq_of_length (h : (commits events).length = (mainCommits events).length) :
    commits events = mainCommits events := by
  have hsub : mainCommits events = (commits events).filter fun e => e.call.isMainCommit := by
    rw [commits, List.filter_filter]
    refine List.filter_congr fun e _ => ?_
    cases e.call <;> simp [Call.isMainCommit, Call.isCommit]
  rw [hsub] at h ⊢
  exact (List.filter_sublist.eq_of_length h.symm).symm

/-! ## Rolling back -/

theorem calls_rollbacks {ids : List UInt32}
    (h : rollbacks world ids events = (some (), events')) :
    ∃ later, events' = events ++ later ∧ later.map Event.call = ids.map (.rollback sysadmin) := by
  induction ids generalizing events with
  | nil =>
    cases h
    exact ⟨[], (List.append_nil _).symm, rfl⟩
  | cons id ids ih =>
    obtain ⟨resp, _, h⟩ := Script.send_bind_eq_some.1 h
    obtain ⟨later, hevents, hcalls⟩ := ih h
    refine ⟨⟨.rollback sysadmin id, some resp⟩ :: later, ?_, ?_⟩
    · rw [hevents, List.append_assoc, List.singleton_append]
    · rw [List.map_cons, hcalls, List.map_cons]

/-- Taking the migrations out of the log calls nothing. -/
theorem rollBack_eq (history : MigrationHistory) (log : MigrationLog) :
    ∃ log', rollBack world hashMigration history log events =
      ((rollbacks world (history.map Prod.snd) events).1.map fun _ => log',
        (rollbacks world (history.map Prod.snd) events).2) := by
  induction history generalizing log events with
  | nil => exact ⟨log, rfl⟩
  | cons entry history ih =>
    obtain ⟨migration, cid⟩ := entry
    rw [rollBack, List.map_cons, rollbacks]
    rcases hsend : world events (.rollback sysadmin cid) with _ | resp
    · rw [Script.send_bind_of_none hsend, Script.send_bind_of_none hsend]
      exact ⟨log, rfl⟩
    · rw [Script.send_bind_of_some hsend, Script.send_bind_of_some hsend]
      exact ih _

/-! ## The loop -/

theorem runMigrations_of_done (h : log.checkHistory hashMigration m.config = true) :
    runMigrations world hashMigration i log history (m :: migrations) =
      runMigrations world hashMigration (i + 1) log history migrations := by
  rw [runMigrations, if_pos h]

theorem runMigrations_of_raise (h : log.checkHistory hashMigration m.config = false)
    (hm : migrate world m.config events = (none, events')) :
    runMigrations world hashMigration i log history (m :: migrations) events =
      (none, events') := by
  rw [runMigrations, if_neg (by rw [h]; decide), Script.bind_of_none hm]

/-- A migration whose failure is not handled is logged as any other one. -/
theorem runMigrations_of_not_handled (h : log.checkHistory hashMigration m.config = false)
    (hm : migrate world m.config events = (some resp, events'))
    (hi : ¬(status resp ≠ .success ∧ i = 1)) :
    runMigrations world hashMigration i log history (m :: migrations) events =
      runMigrations world hashMigration (i + 1) (log.logMigration hashMigration m.config)
        (history ++ [(m.config, commitId resp)]) migrations events' := by
  rw [runMigrations, if_neg (by rw [h]; decide), Script.bind_of_some hm]
  exact congrFun (if_neg hi) events'

/-- The failure of the second migration of the list is handled. -/
theorem runMigrations_of_handled (history : MigrationHistory) (migrations : List Migration)
    (h : log.checkHistory hashMigration m.config = false)
    (hm : migrate world m.config events = (some resp, events')) (hf : status resp ≠ .success)
    (hi : i = 1) : ∃ log',
    runMigrations world hashMigration i log history (m :: migrations) events =
      ((rollbacks world (commitId resp :: (history.map Prod.snd).reverse) events').1.map
          fun _ => .failed log',
        (rollbacks world (commitId resp :: (history.map Prod.snd).reverse) events').2) := by
  have hids : (history ++ [(m.config, commitId resp)]).reverse.map Prod.snd =
      commitId resp :: (history.map Prod.snd).reverse := by
    simp
  obtain ⟨log', hback⟩ : ∃ log', rollBack world hashMigration
      (history ++ [(m.config, commitId resp)]).reverse log events' = _ := rollBack_eq _ log
  rw [hids] at hback
  have hrun : runMigrations world hashMigration i log history (m :: migrations) events =
      (rollBack world hashMigration (history ++ [(m.config, commitId resp)]).reverse log >>=
        fun log => pure (Outcome.failed log)) events' := by
    rw [runMigrations, if_neg (by rw [h]; decide), Script.bind_of_some hm]
    exact congrFun (if_pos ⟨hf, hi⟩) events'
  refine ⟨log', hrun.trans ?_⟩
  rcases hr : rollbacks world (commitId resp :: (history.map Prod.snd).reverse) events' with
    ⟨_ | _, events''⟩
  · rw [hr] at hback
    exact Script.bind_of_none hback
  · rw [hr] at hback
    exact Script.bind_of_some hback

/-- A run that comes to an end has not raised in the first migration. A failure of it is handled,
    or it is logged and the run goes on. -/
theorem runMigrations_cons_cases {outcome : Outcome}
    (h : log.checkHistory hashMigration m.config = false)
    (hrun : runMigrations world hashMigration i log history (m :: migrations) events =
      (some outcome, events')) :
    ∃ resp between, migrate world m.config events = (some resp, between) ∧
      ((status resp ≠ .success ∧ i = 1 ∧ (∃ log', outcome = .failed log') ∧
          rollbacks world (commitId resp :: (history.map Prod.snd).reverse) between =
            (some (), events')) ∨
        ¬(status resp ≠ .success ∧ i = 1) ∧
          runMigrations world hashMigration (i + 1) (log.logMigration hashMigration m.config)
            (history ++ [(m.config, commitId resp)]) migrations between =
              (some outcome, events')) := by
  rcases hm : migrate world m.config events with ⟨_ | resp, between⟩
  · rw [runMigrations_of_raise h hm] at hrun
    cases hrun
  · refine ⟨resp, between, rfl, ?_⟩
    by_cases hi : status resp ≠ .success ∧ i = 1
    · obtain ⟨log', hhandled⟩ := runMigrations_of_handled history migrations h hm hi.1 hi.2
      rw [hhandled] at hrun
      obtain ⟨houtcome, hevents⟩ := Prod.mk.inj hrun
      obtain ⟨_, hback, houtcome⟩ := Option.map_eq_some_iff.1 houtcome
      exact .inl ⟨hi.1, hi.2, ⟨log', houtcome.symm⟩, Prod.ext hback hevents⟩
    · rw [runMigrations_of_not_handled h hm hi] at hrun
      exact .inr ⟨hi, hrun⟩

theorem migrateAll_of_raise (hm : migrate world m.config events = (none, events')) :
    migrateAll world (m :: migrations) events = (none, events') := by
  rw [migrateAll, Script.bind_of_none hm]

theorem migrateAll_of_response (hm : migrate world m.config events = (some resp, events')) :
    migrateAll world (m :: migrations) events = migrateAll world migrations events' := by
  rw [migrateAll, Script.bind_of_some hm]

/-- A migration adds a commit behind those of the second client. -/
theorem commits_migrate (hm : migrate world m.config events = (some resp, events')) :
    ∃ staged, commits events' = commits events ++ staged ++
        [⟨.commit sysadmin .noHooks, some resp⟩] ∧
      mainCommits events' = mainCommits events ++ [⟨.commit sysadmin .noHooks, some resp⟩] := by
  obtain ⟨staged, hstages, rfl⟩ := migrate_eq hm
  refine ⟨commits staged, ?_, ?_⟩
  · simp only [commits_append]
    rfl
  · simp only [mainCommits_append, mainCommits_of_stages hstages, List.append_nil]
    rfl

/-- Migrations only add commits, and one at least if there is one of them. -/
theorem commits_migrateAll (h : migrateAll world migrations events = (some (), events')) :
    ∃ more, commits events' = commits events ++ more ∧ (migrations ≠ [] → more ≠ []) := by
  induction migrations generalizing events with
  | nil =>
    cases h
    exact ⟨[], (List.append_nil _).symm, fun hne => absurd rfl hne⟩
  | cons m migrations ih =>
    obtain ⟨resp, between, hm, h⟩ := Script.bind_eq_some.1 h
    obtain ⟨more, hmore, _⟩ := ih h
    obtain ⟨staged, hstaged, _⟩ := commits_migrate hm
    refine ⟨staged ++ [⟨.commit sysadmin .noHooks, some resp⟩] ++ more, ?_, fun _ => by simp⟩
    rw [hmore, hstaged]
    simp only [List.append_assoc]

/-- Before a failure is handled, a migration has been run. -/
theorem commits_of_failed
    (h : runMigrations world hashMigration i log history migrations events =
      (some (.failed log'), events')) :
    ∃ new, events' = events ++ new ∧ ∃ e ∈ new, e.call.isCommit = true := by
  induction migrations generalizing i log history events with
  | nil => cases h
  | cons m migrations ih =>
    cases hdone : log.checkHistory hashMigration m.config with
    | true =>
      rw [runMigrations_of_done hdone] at h
      exact ih h
    | false =>
      obtain ⟨resp, between, hm, hrest⟩ := runMigrations_cons_cases hdone h
      obtain ⟨staged, _, rfl⟩ := migrate_eq hm
      obtain ⟨new, rfl⟩ : ∃ new, events' = events ++ staged ++
          [⟨.commit sysadmin .noHooks, some resp⟩] ++ new := by
        rcases hrest with ⟨_, _, _, hback⟩ | ⟨_, hrest⟩
        · obtain ⟨later, hlater, _⟩ := calls_rollbacks hback
          exact ⟨later, hlater⟩
        · obtain ⟨new, hnew, _⟩ := ih hrest
          exact ⟨new, hnew⟩
      exact ⟨staged ++ [⟨.commit sysadmin .noHooks, some resp⟩] ++ new, by simp,
        ⟨.commit sysadmin .noHooks, some resp⟩, by simp, rfl⟩

/-! ## Guarded runs -/

/-- The pending migrations are run, and all commits succeed. -/
def AllRun (world : World Call Sysadminctl.Response)
    (hashMigration : List (String × PyValue) → String) (log : MigrationLog)
    (migrations : List Migration) (events : List ClientEvent) : Prop :=
  ∃ events', migrateAll world (pending hashMigration log migrations) events = (some (), events') ∧
    ∀ e ∈ commits events', succeeded e = true

/-- The pending migrations are run up to the first commit that fails, and then all commits are
    rolled back in reverse order. -/
def BackedOut (world : World Call Sysadminctl.Response)
    (hashMigration : List (String × PyValue) → String) (i : Nat) (log : MigrationLog)
    (history : MigrationHistory) (migrations : List Migration) (events : List ClientEvent) :
    Prop :=
  ∃ done failing rest events' later log',
    pending hashMigration log migrations = done ++ failing :: rest ∧
    migrateAll world (done ++ [failing]) events = (some (), events') ∧ FirstFails events' ∧
    runMigrations world hashMigration i log history migrations events =
      (some (.failed log'), events' ++ later) ∧
    later.map Event.call = (commits events').reverse.map (fun e => .rollback sysadmin (idOf e))

theorem pending_of_done (h : log.checkHistory hashMigration m.config = true) :
    pending hashMigration log (m :: migrations) = pending hashMigration log migrations := by
  rw [pending, if_pos h]

theorem pending_of_not_done (h : log.checkHistory hashMigration m.config = false) :
    pending hashMigration log (m :: migrations) =
      m :: pending hashMigration (log.logMigration hashMigration m.config) migrations := by
  rw [pending, if_neg (by rw [h]; decide)]

/-- If all commits succeed, all migrations are run. -/
theorem runMigrations_of_allRun (i : Nat) (history : MigrationHistory)
    (h : AllRun world hashMigration log migrations events) :
    ∃ events' log' history',
      migrateAll world (pending hashMigration log migrations) events = (some (), events') ∧
      runMigrations world hashMigration i log history migrations events =
        (some (.finished log' history'), events') := by
  obtain ⟨events', hrun, hsucc⟩ := h
  refine ⟨events', ?_⟩
  induction migrations generalizing i log history events with
  | nil =>
    cases hrun
    exact ⟨log, history, rfl, rfl⟩
  | cons m migrations ih =>
    cases hdone : log.checkHistory hashMigration m.config with
    | true =>
      rw [pending_of_done hdone] at hrun ⊢
      rw [runMigrations_of_done hdone]
      exact ih _ _ hrun
    | false =>
      rw [pending_of_not_done hdone] at hrun ⊢
      obtain ⟨resp, between, hm, hrun⟩ := Script.bind_eq_some.1 hrun
      -- The last commit of the migration is one of the run, and all of these succeed.
      have hok : status resp = .success := by
        obtain ⟨staged, hstaged, _⟩ := commits_migrate hm
        obtain ⟨more, hmore, _⟩ := commits_migrateAll hrun
        have := hsucc ⟨.commit sysadmin .noHooks, some resp⟩ (by rw [hmore, hstaged]; simp)
        simpa [succeeded] using this
      rw [migrateAll_of_response hm, runMigrations_of_not_handled hdone hm fun h => h.1 hok]
      exact ih _ _ hrun

/-- The log of a run that is finished has all that were done or pending. -/
theorem checkHistory_of_finished {history' : MigrationHistory}
    (h : runMigrations world hashMigration i log history migrations events =
      (some (.finished log' history'), events')) :
    (∀ config, log.checkHistory hashMigration config = true →
      log'.checkHistory hashMigration config = true) ∧
    ∀ m ∈ pending hashMigration log migrations,
      log'.checkHistory hashMigration m.config = true := by
  induction migrations generalizing i log history events with
  | nil =>
    cases h
    exact ⟨fun _ hdone => hdone, nofun⟩
  | cons m migrations ih =>
    cases hdone : log.checkHistory hashMigration m.config with
    | true =>
      rw [runMigrations_of_done hdone] at h
      rw [pending_of_done hdone]
      exact ih h
    | false =>
      rw [pending_of_not_done hdone]
      obtain ⟨resp, between, -, ⟨_, _, ⟨_, hfailed⟩, _⟩ | ⟨_, hrest⟩⟩ :=
        runMigrations_cons_cases hdone h
      · -- The migration has been logged, and no entry of the log goes.
        cases hfailed
      · obtain ⟨hkept, hpending⟩ := ih hrest
        refine ⟨fun config hc => hkept config (checkHistory_logMigration.2 (.inr hc)),
          fun m' hm' => ?_⟩
        rcases List.mem_cons.1 hm' with rfl | hm'
        · exact hkept _ (checkHistory_logMigration.2 (.inl rfl))
        · exact hpending m' hm'

theorem guarded_of_done (h : log.checkHistory hashMigration m.config = true) :
    Guarded world hashMigration i log (m :: migrations) events ↔
      Guarded world hashMigration (i + 1) log migrations events := by
  rw [Guarded, if_pos h]

theorem not_guarded_of_raise (h : log.checkHistory hashMigration m.config = false)
    (hm : migrate world m.config events = (none, events')) :
    ¬Guarded world hashMigration i log (m :: migrations) events := by
  rw [Guarded, if_neg (by rw [h]; decide), hm]
  exact id

theorem guarded_of_response (h : log.checkHistory hashMigration m.config = false)
    (hm : migrate world m.config events = (some resp, events')) :
    Guarded world hashMigration i log (m :: migrations) events ↔
      if status resp = .success then
        (∀ e ∈ commits events', succeeded e = true) ∧
          Guarded world hashMigration (i + 1) (log.logMigration hashMigration m.config) migrations
            events'
      else
        i = 1 ∧ commits events' = mainCommits events' ∧
          (rollbacks world ((commits events').reverse.map idOf) events').1.isSome = true := by
  rw [Guarded, if_neg (by rw [h]; decide), hm]

/-- A commit that fails is the last one of all. -/
theorem FirstFails.eq_last {earlier later : List ClientEvent} (h : FirstFails events)
    (hc : commits events = earlier ++ e :: later) (he : succeeded e = false) : later = [] := by
  obtain ⟨pre, last, hlast, hpre, _⟩ := h
  rcases List.eq_nil_or_concat' later with rfl | ⟨later, last', rfl⟩
  · rfl
  · rw [hlast, ← List.cons_append, ← List.append_assoc, List.append_singleton_inj] at hc
    have hsucc := hpre e (by rw [hc.1]; simp)
    exact absurd hsucc (ne_true_of_eq_false he)

/-- The first migration raises, so that nothing is run or backed out. -/
theorem not_meets_of_raise (h : log.checkHistory hashMigration m.config = false)
    (hm : migrate world m.config events = (none, events')) :
    ¬(AllRun world hashMigration log (m :: migrations) events ∨
      BackedOut world hashMigration i log history (m :: migrations) events) := by
  rintro (⟨_, hrun, _⟩ | ⟨done, failing, rest, _, _, _, hpending, hrun, _⟩)
  · rw [pending_of_not_done h, migrateAll_of_raise hm] at hrun
    cases hrun
  · rw [pending_of_not_done h] at hpending
    cases done with
    | nil =>
      obtain ⟨rfl, _⟩ := List.cons.inj hpending
      rw [List.nil_append, migrateAll_of_raise hm] at hrun
      cases hrun
    | cons d done =>
      obtain ⟨rfl, _⟩ := List.cons.inj hpending
      rw [List.cons_append, migrateAll_of_raise hm] at hrun
      cases hrun

/-- The migrations run first are the first of those pending. -/
theorem migrateAll_cons_cases {done rest p : List Migration} {failing : Migration}
    (hsplit : m :: p = done ++ failing :: rest)
    (hm : migrate world m.config events = (some resp, events')) :
    (done = [] ∧ m = failing ∧ p = rest ∧
      migrateAll world (done ++ [failing]) events = (some (), events')) ∨
    ∃ done', done = m :: done' ∧ p = done' ++ failing :: rest ∧
      migrateAll world (done ++ [failing]) events =
        migrateAll world (done' ++ [failing]) events' := by
  cases done with
  | nil =>
    obtain ⟨rfl, rfl⟩ := List.cons.inj hsplit
    exact .inl ⟨rfl, rfl, rfl, migrateAll_of_response hm⟩
  | cons d done =>
    obtain ⟨rfl, rfl⟩ := List.cons.inj hsplit
    exact .inr ⟨done, rfl, rfl, migrateAll_of_response hm⟩

/-- After a migration whose commits succeed, the run goes on. -/
theorem meets_iff_of_success (h : log.checkHistory hashMigration m.config = false)
    (hm : migrate world m.config events = (some resp, events')) (hok : status resp = .success)
    (hall : ∀ e ∈ commits events', succeeded e = true) :
    AllRun world hashMigration log (m :: migrations) events ∨
        BackedOut world hashMigration i log history (m :: migrations) events ↔
      AllRun world hashMigration (log.logMigration hashMigration m.config) migrations events' ∨
        BackedOut world hashMigration (i + 1) (log.logMigration hashMigration m.config)
          (history ++ [(m.config, commitId resp)]) migrations events' := by
  have hrun : runMigrations world hashMigration i log history (m :: migrations) events = _ :=
    runMigrations_of_not_handled h hm fun hi => hi.1 hok
  refine or_congr ?_ ?_
  · rw [AllRun, pending_of_not_done h, migrateAll_of_response hm]
    rfl
  · rw [BackedOut, pending_of_not_done h, hrun]
    constructor
    · rintro ⟨done, failing, rest, events'', later, log', hsplit, hmigrate, hfails, hback⟩
      rcases migrateAll_cons_cases hsplit hm with ⟨_, _, _, hone⟩ | ⟨done, rfl, hp, hmore⟩
      · rw [hone] at hmigrate
        obtain rfl := (Prod.mk.inj hmigrate).2
        obtain ⟨earlier, last, hlast, _, hfailed⟩ := hfails
        have hsucc := hall last (by rw [hlast]; simp)
        exact absurd hsucc (ne_true_of_eq_false hfailed)
      · exact ⟨done, failing, rest, events'', later, log', hp, hmore ▸ hmigrate, hfails, hback⟩
    · rintro ⟨done, failing, rest, events'', later, log', hp, hmigrate, hback⟩
      refine ⟨m :: done, failing, rest, events'', later, log', by rw [hp]; rfl, ?_, hback⟩
      rw [List.cons_append, migrateAll_of_response hm]
      exact hmigrate

/-- If a commit of a migration fails, not all succeed. -/
theorem not_allRun_of_failed (h : log.checkHistory hashMigration m.config = false)
    (hm : migrate world m.config events = (some resp, events')) (he : e ∈ commits events')
    (hfailed : succeeded e = false) : ¬AllRun world hashMigration log (m :: migrations) events := by
  rintro ⟨events'', hrun, hall⟩
  rw [pending_of_not_done h, migrateAll_of_response hm] at hrun
  obtain ⟨more, hmore, _⟩ := commits_migrateAll hrun
  have hsucc := hall e (by rw [hmore]; exact List.mem_append_left _ he)
  exact absurd hsucc (ne_true_of_eq_false hfailed)

/-- A commit that failed before the last one of a migration has not stopped the run. -/
theorem not_meets_of_earlier (h : log.checkHistory hashMigration m.config = false)
    (hm : migrate world m.config events = (some resp, events')) (hok : status resp = .success)
    (he : e ∈ commits events') (hfailed : succeeded e = false) :
    ¬(AllRun world hashMigration log (m :: migrations) events ∨
      BackedOut world hashMigration i log history (m :: migrations) events) := by
  obtain ⟨staged, hcommits, _⟩ := commits_migrate hm
  rintro (hrun | ⟨done, failing, rest, events'', _, _, hsplit, hrun, hfails, _⟩)
  · exact not_allRun_of_failed h hm he hfailed hrun
  · -- The last commit of the migration comes behind the one that failed.
    obtain ⟨more, hmore⟩ : ∃ more, commits events'' = commits events' ++ more := by
      rw [pending_of_not_done h] at hsplit
      rcases migrateAll_cons_cases hsplit hm with ⟨_, _, _, hone⟩ | ⟨done, _, _, hrest⟩
      · rw [hone] at hrun
        obtain rfl := (Prod.mk.inj hrun).2
        exact ⟨[], (List.append_nil _).symm⟩
      · rw [hrest] at hrun
        obtain ⟨more, hmore, _⟩ := commits_migrateAll hrun
        exact ⟨more, hmore⟩
    have hne : e ≠ ⟨.commit sysadmin .noHooks, some resp⟩ := by
      rintro rfl
      simp [succeeded, hok] at hfailed
    rw [hcommits] at he hmore
    have hmem := (List.mem_append.1 he).resolve_right fun hlast => hne (List.mem_singleton.1 hlast)
    obtain ⟨pre, post, hpre⟩ := List.append_of_mem hmem
    have hplace : commits events'' =
        pre ++ e :: (post ++ [⟨.commit sysadmin .noHooks, some resp⟩] ++ more) := by
      rw [hmore, hpre]
      simp
    -- A run stops at the commit that failed, but this one has others behind it.
    have hnil := hfails.eq_last hplace hfailed
    simp at hnil

theorem mem_commits_of_mem_mainCommits (h : e ∈ mainCommits events) : e ∈ commits events := by
  obtain ⟨he, hcall⟩ := List.mem_filter.1 h
  refine List.mem_filter.2 ⟨he, ?_⟩
  cases hc : e.call <;> simp_all [Call.isMainCommit, Call.isCommit]

/-- The ids that are rolled back when a migration fails. -/
theorem ids_mainCommits (hh : (mainCommits events).map idOf = history.map Prod.snd)
    (hm : migrate world m.config events = (some resp, events')) :
    (mainCommits events').reverse.map idOf = commitId resp :: (history.map Prod.snd).reverse := by
  obtain ⟨_, _, hmain⟩ := commits_migrate hm
  have hold : (mainCommits events).reverse.map idOf = (history.map Prod.snd).reverse := by
    rw [List.map_reverse, hh]
  rw [hmain, List.reverse_append, List.map_append, hold]
  rfl

/-- If only the client of the script has committed, a failure of the second migration is backed
    out. -/
theorem backedOut_of_handled (h : log.checkHistory hashMigration m.config = false)
    (hm : migrate world m.config events = (some resp, events')) (hf : status resp ≠ .success)
    (hs : ∀ e ∈ commits events, succeeded e = true)
    (hh : (mainCommits events).map idOf = history.map Prod.snd) (hi : i = 1)
    (hmain : commits events' = mainCommits events')
    (hback : (rollbacks world ((commits events').reverse.map idOf) events').1.isSome = true) :
    BackedOut world hashMigration i log history (m :: migrations) events := by
  obtain ⟨log', hrun⟩ := runMigrations_of_handled history migrations h hm hf hi
  obtain ⟨_, _, hlast⟩ := commits_migrate hm
  rw [← ids_mainCommits hh hm, ← hmain] at hrun
  rcases hroll : rollbacks world ((commits events').reverse.map idOf) events' with ⟨_ | _, events''⟩
  · rw [hroll] at hback
    cases hback
  · obtain ⟨later, rfl, hcalls⟩ := calls_rollbacks hroll
    rw [hroll] at hrun
    refine ⟨[], m, _, events', later, log', pending_of_not_done h, migrateAll_of_response hm,
      ⟨mainCommits events, _, hmain.trans hlast, fun e he => ?_, ?_⟩, hrun, ?_⟩
    · exact hs e (mem_commits_of_mem_mainCommits he)
    · simpa [succeeded] using hf
    · rw [hcalls, List.map_map]
      rfl

/-- A migration whose commit fails ends the run well only if it is the second one, and only the
    client of the script has committed. -/
theorem meets_iff_of_failure (h : log.checkHistory hashMigration m.config = false)
    (hm : migrate world m.config events = (some resp, events')) (hf : status resp ≠ .success)
    (hs : ∀ e ∈ commits events, succeeded e = true)
    (hh : (mainCommits events).map idOf = history.map Prod.snd) :
    AllRun world hashMigration log (m :: migrations) events ∨
        BackedOut world hashMigration i log history (m :: migrations) events ↔
      i = 1 ∧ commits events' = mainCommits events' ∧
        (rollbacks world ((commits events').reverse.map idOf) events').1.isSome = true := by
  obtain ⟨staged, hcommits, _⟩ := commits_migrate hm
  have hfailed : succeeded ⟨.commit sysadmin .noHooks, some resp⟩ = false := by
    simpa [succeeded] using hf
  constructor
  · rintro (hrun |
      ⟨done, failing, rest, events'', later, log', hsplit, hmigrate, hfails, hrun, hcalls⟩)
    · exact absurd hrun (not_allRun_of_failed h hm (by rw [hcommits]; simp) hfailed)
    · rw [pending_of_not_done h] at hsplit
      rcases migrateAll_cons_cases hsplit hm with ⟨_, _, _, hone⟩ | ⟨done, _, _, hrest⟩
      · rw [hone] at hmigrate
        obtain rfl := (Prod.mk.inj hmigrate).2
        obtain ⟨resp', between, hm', hrest⟩ := runMigrations_cons_cases h hrun
        obtain ⟨rfl, rfl⟩ : resp = resp' ∧ events' = between := by
          simpa using hm.symm.trans hm'
        rcases hrest with ⟨_, hi, _, hroll⟩ | ⟨_, hrest⟩
        · rw [← ids_mainCommits hh hm] at hroll
          obtain ⟨later', hlater, hmain⟩ := calls_rollbacks hroll
          obtain rfl := List.append_cancel_left hlater
          -- As many commits are rolled back as the client of the script has made.
          have hlength := congrArg List.length (hcalls.symm.trans hmain)
          simp only [List.length_map, List.length_reverse] at hlength
          have heq := commits_eq_of_length hlength
          exact ⟨hi, heq, by rw [heq, hroll]; rfl⟩
        · -- The run goes on with another migration, and not with the rollbacks.
          obtain ⟨new, hnew, e, he, hcommit⟩ := commits_of_failed hrest
          obtain rfl := List.append_cancel_left hnew
          have hmem : e.call ∈ later.map Event.call := List.mem_map_of_mem he
          rw [hcalls] at hmem
          obtain ⟨_, _, hroll⟩ := List.mem_map.1 hmem
          rw [← hroll] at hcommit
          cases hcommit
      · -- No migration is run after this one.
        rw [hrest] at hmigrate
        obtain ⟨more, hmore, hne⟩ := commits_migrateAll hmigrate
        rw [hcommits, List.append_assoc, List.singleton_append] at hmore
        exact absurd (hfails.eq_last hmore hfailed) (hne (by simp))
  · rintro ⟨hi, hmain, hback⟩
    exact .inr (backedOut_of_handled h hm hf hs hh hi hmain hback)

/-- The loop over the migrations ends well exactly if it is guarded. -/
theorem loop_meets_iff (hs : ∀ e ∈ commits events, succeeded e = true)
    (hh : (mainCommits events).map idOf = history.map Prod.snd) :
    AllRun world hashMigration log migrations events ∨
        BackedOut world hashMigration i log history migrations events ↔
      Guarded world hashMigration i log migrations events := by
  induction migrations generalizing i log history events with
  | nil => exact iff_of_true (.inl ⟨events, rfl, hs⟩) trivial
  | cons m migrations ih =>
    cases hdone : log.checkHistory hashMigration m.config with
    | true =>
      rw [guarded_of_done hdone, ← ih hs hh, AllRun, BackedOut, pending_of_done hdone,
        runMigrations_of_done hdone]
      rfl
    | false =>
      rcases hm : migrate world m.config events with ⟨_ | resp, events'⟩
      · exact iff_of_false (not_meets_of_raise hdone hm) (not_guarded_of_raise hdone hm)
      · rw [guarded_of_response hdone hm]
        split
        · next hok =>
          -- The response tells of the last commit only; one before it may have failed.
          by_cases hall : ∀ e ∈ commits events', succeeded e = true
          · have hids : (mainCommits events').map idOf =
                (history ++ [(m.config, commitId resp)]).map Prod.snd := by
              obtain ⟨_, _, hmain⟩ := commits_migrate hm
              rw [hmain, List.map_append, hh, List.map_append]
              rfl
            rw [meets_iff_of_success hdone hm hok hall, ih hall hids]
            exact (and_iff_right hall).symm
          · refine iff_of_false ?_ fun h => hall h.1
            obtain ⟨e, he, hfailed⟩ : ∃ e ∈ commits events', succeeded e = false := by
              simpa using hall
            exact not_meets_of_earlier hdone hm hok he hfailed
        · next hf => exact meets_iff_of_failure hdone hm hf hs hh

theorem script_meets_iff : AllRun world hashMigration log migrations [] ∨
      BackedOut world hashMigration 0 log [] migrations [] ↔
    Guarded world hashMigration 0 log migrations [] :=
  loop_meets_iff (fun _ he => absurd he List.not_mem_nil) rfl

/-! ## The script -/

theorem appends_finish (world : World Call Sysadminctl.Response) (history : MigrationHistory) :
    Script.Appends (fun call => call = .firehooks sysadmin ∨ call = .sync)
      (finish world history) := by
  rw [finish]
  split
  · exact .bind (.send (.inl rfl)) fun _ => .bind (.send (.inr rfl)) fun _ => .pure
  · exact .bind (.send (.inr rfl)) fun _ => .pure

/-- Syncing is the last thing that may raise. -/
theorem code_sync {code : Nat} (h : (Script.send world .sync >>= fun _ =>
    (pure 0 : ClientScript Nat)) events = (some code, events')) : code = 0 := by
  obtain ⟨_, _, hend⟩ := Script.send_bind_eq_some.1 h
  cases hend
  rfl

theorem code_finish {code : Nat} (h : finish world history events = (some code, events')) :
    code = 0 := by
  rw [finish] at h
  split at h
  · obtain ⟨_, _, hsync⟩ := Script.send_bind_eq_some.1 h
    exact code_sync hsync
  · exact code_sync h

variable {logFile : Option MigrationLog}

theorem main_nil : main world hashMigration [] logFile =
    ⟨(finish world [] []).1, (finish world [] []).2, logFile⟩ := rfl

theorem main_of_ne_nil (hne : migrations ≠ []) : main world hashMigration migrations logFile =
    match runMigrations world hashMigration 0 (logFile.getD ∅) [] migrations [] with
    | (none, events) => ⟨none, events, logFile⟩
    | (some (.failed _), events) => ⟨some 1, events, logFile⟩
    | (some (.finished log history), events) =>
      ⟨(finish world history events).1, (finish world history events).2, some log⟩ := by
  rw [main]
  exact if_pos (List.length_pos_iff.2 hne)

theorem runsAll_iff : RunsAll world hashMigration migrations logFile
      (main world hashMigration migrations logFile) ↔
    AllRun world hashMigration (logFile.getD ∅) migrations [] := by
  constructor
  · rintro ⟨events, _, hrun, hall, _⟩
    exact ⟨events, hrun, hall⟩
  · intro h
    obtain ⟨events, hrun, hall⟩ := h
    by_cases hne : migrations = []
    · subst hne
      obtain rfl := (Prod.mk.inj hrun).2
      obtain ⟨later, hlater, hcalls⟩ := appends_finish world [] []
      exact ⟨[], later, rfl, fun _ he => absurd he List.not_mem_nil, by rw [main_nil, hlater],
        hcalls, fun _ hm => absurd hm List.not_mem_nil⟩
    · obtain ⟨_, log', history', hrun', hloop⟩ := runMigrations_of_allRun 0 []
        ⟨events, hrun, hall⟩
      rw [hrun] at hrun'
      obtain rfl := (Prod.mk.inj hrun').2
      obtain ⟨later, hlater, hcalls⟩ := appends_finish world history' events
      refine ⟨events, later, hrun, hall, ?_, hcalls, fun m hm => ?_⟩
      · rw [main_of_ne_nil hne, hloop, ← hlater]
      · rw [main_of_ne_nil hne, hloop]
        exact (checkHistory_of_finished hloop).2 m hm

theorem rollsBack_iff : RollsBack world hashMigration migrations logFile
      (main world hashMigration migrations logFile) ↔
    BackedOut world hashMigration 0 (logFile.getD ∅) [] migrations [] := by
  constructor
  · rintro ⟨done, failing, rest, events, later, hpending, hrun, hfails, hevents, hcalls, hcode, _⟩
    have hne : migrations ≠ [] := by
      rintro rfl
      cases done <;> cases hpending
    rw [main_of_ne_nil hne] at hevents hcode
    rcases hloop : runMigrations world hashMigration 0 (logFile.getD ∅) [] migrations [] with
      ⟨_ | outcome, events'⟩
    · rw [hloop] at hcode
      cases hcode
    · rw [hloop] at hevents hcode
      cases outcome with
      | failed log' =>
        exact ⟨done, failing, rest, events, later, log', hpending, hrun, hfails,
          by rw [← hevents, hloop], hcalls⟩
      | finished log' history' => exact absurd (code_finish (Prod.ext hcode rfl)) (by decide)
  · rintro ⟨done, failing, rest, events, later, log', hpending, hrun, hfails, hloop, hcalls⟩
    have hne : migrations ≠ [] := by
      rintro rfl
      cases done <;> cases hpending
    have hmain : main world hashMigration migrations logFile = _ := main_of_ne_nil hne
    rw [hloop] at hmain
    refine ⟨done, failing, rest, events, later, hpending, hrun, hfails, by rw [hmain], hcalls,
      by rw [hmain], fun m hm => ?_⟩
    -- The log file is as it was, and the migrations were pending.
    have hmem : m ∈ pending hashMigration (logFile.getD ∅) migrations := by
      rw [hpending, List.append_cons]
      exact List.mem_append_left _ hm
    rw [hmain]
    have hnot := not_done_of_mem_pending hmem
    cases logFile with
    | none => rfl
    | some log => exact hnot

/-- The script runs all pending migrations and logs them, or backs out at the first commit
    that fails, exactly if the run is guarded. -/
theorem meets_iff (world : World Call Sysadminctl.Response)
    (hashMigration : List (String × PyValue) → String) (migrations : List Migration)
    (logFile : Option MigrationLog) :
    RunsAll world hashMigration migrations logFile
        (main world hashMigration migrations logFile) ∨
      RollsBack world hashMigration migrations logFile
        (main world hashMigration migrations logFile) ↔
    Guarded world hashMigration 0 (logFile.getD ∅) migrations [] := by
  rw [runsAll_iff, rollsBack_iff, script_meets_iff]

/-- A migration that sets a key. -/
def setsKey : Migration := ⟨"1.yaml", [("valuechange", .dict [("a", .int 1)])]⟩

/-- A server whose commits all have the id 1 and fail, as hooks do. -/
def failing : World Call Sysadminctl.Response
  | _, .commit .. => some ⟨some (.commit 1), some 0, some .externalProcessError⟩
  | _, _ => some ⟨none, some 0, some .success⟩

/-- The failure of the only migration is not handled: the script logs it as done. -/
theorem not_meets_setsKey :
    ¬(RunsAll failing (fun _ => "1") [setsKey] none (main failing (fun _ => "1") [setsKey] none) ∨
      RollsBack failing (fun _ => "1") [setsKey] none
        (main failing (fun _ => "1") [setsKey] none)) ∧
    (main failing (fun _ => "1") [setsKey] none).code = some 0 ∧
    ((main failing (fun _ => "1") [setsKey] none).logFile.any fun log =>
      log.checkHistory (fun _ => "1") setsKey.config) = true := by
  refine ⟨?_, rfl, by decide⟩
  rw [runsAll_iff, rollsBack_iff, script_meets_iff]
  intro h
  have hguard := (guarded_of_response rfl rfl).1 h
  rw [if_neg (by decide)] at hguard
  exact absurd hguard.1 (by decide)

end Migrations

end SysAdmin
