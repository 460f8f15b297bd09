import SysAdmin.HookProcesses
import SysAdmin.OneofProtocols

/-!
# Replies of commands with hooks

A commit runs the hooks of the keys that it has changed, and other commands run all hooks, or one
of them. The command is answered when its hooks are done. Meanwhile the daemon handles other
commands, and other hooks run.

Here the server of the connections has the processes with it (`HookedServer`): what its commands
wait for is a pipeline for each, whose batches are started in the states that the daemon is then in.

* `HookedServer.honest_run`: in all states, a command whose hooks are not done has no answer, and
  one whose hooks are done has one, unless its client is gone or a process has been taken over. A
  `SUCCESS` says that all hooks that the command calls have succeeded, and an
  `EXTERNAL_PROCESS_ERROR` that one of them has failed;
* `HookedServer.exists_oneof_run`: the server with processes does at all times what the server does
  with the results of its hooks.
-/

namespace SysAdmin

open Futures Machine SysAdminController

/-! ## What commands run -/

/-- What runs hooks. -/
inductive HookCause
  | commit (changed : ConfigPairList) (runServices : Bool)
  | fireHooks
  | trigger (name : String)

/-- What the commit of a command comes to. -/
def Daemon.commitOutcome (d : Daemon) (env : Environment) (clientId : ClientId)
    (m : Sysadminctl.Command) : Option CommitOutcome :=
  match m.payload with
  | some (.commit config) => some (d.conf.commit env (clientOf m clientId) (config.getD .default)).2
  | some (.rollback id) =>
    match (d.conf.rollback env id.toNat).2 with
    | .commit outcome => some outcome
    | .rollbackError _ | .diverges => none
  | some .reset =>
    match (resetHandler d.conf env clientId).2 with
    | .commit outcome => some outcome
    | .typeMismatch => none
  | some (.set ..) | some (.get _) | some .drop | some .firehooks | some (.erase _) | some .dump
  | some (.trigger _) | some (.blame _) | some .inflight | none => none

/-- What hooks a command runs. -/
def Daemon.hookCause (d : Daemon) (env : Environment) (clientId : ClientId)
    (m : Sysadminctl.Command) : Option HookCause :=
  match m.payload with
  | some .firehooks => some .fireHooks
  | some (.trigger name) => some (.trigger name)
  | some (.commit _) | some (.rollback _) | some .reset | some (.set ..) | some (.get _)
  | some .drop | some (.erase _) | some .dump | some (.blame _) | some .inflight | none =>
    match d.commitOutcome env clientId m with
    | some (.hooks changed runServices _) => some (.commit changed runServices)
    | some (.ready _) | some .threw | none => none

/-- How the hooks complete, as far as it is told apart. -/
def HookResult.ofCompletion : Completion RunException Unit → HookResult
  | .value _ => .value
  | .exception (.externalRunnerError what) => .externalRunnerError what
  | .exception (.futureSubprocessError _) | .exception .brokenPromise => .otherException

/-- The future of the hooks. -/
def HookResult.completion : HookResult → Completion Exception Unit
  | .value => .value ()
  | .externalRunnerError what => .exception (.externalRunnerError what)
  | .otherException => .exception .other

namespace HookSetup

variable (setup : HookSetup)

/-- The pipeline that is run. There is none for a hook that does not exist. -/
def pipeline : HookCause → Option (HookPipeline HookUser)
  | .commit changed runServices => some (setup.manager.getHooksToRun changed runServices)
  | .fireHooks => some setup.manager.getAllHooks
  | .trigger name => setup.manager.hookToTrigger name

/-- What the calls of the hook manager come to for a command. -/
def answers (m : Sysadminctl.Command) (result : HookResult) : HookAnswers where
  runHooks := .future result.completion
  triggerHook :=
    match m.payload with
    | some (.trigger name) =>
      if (setup.manager.table.byName name).isSome then
        .future (result.completion.thenValue fun _ => true)
      else .future (.value false)
    | _ => .future (.value false)
  dumpHooks := .ok ((setup.manager.table.byType .templater).map HookUser.name,
    (setup.manager.table.byType .service).map HookUser.name)

end HookSetup

/-! ### Tickets -/

/-- A commit whose future waits for hooks. -/
def CommitOutcome.runsHooks : CommitOutcome → Bool
  | .hooks .. => true
  | .ready _ | .threw => false

/-- What a command waits for, if it runs hooks. -/
def HookCause.awaited (ticket number : ℕ) : HookCause → AwaitedHooks
  | .commit .. => .commit ticket
  | .fireHooks | .trigger _ => .command number

namespace Daemon

variable {d : Daemon} {env : Environment} {clientId : ClientId} {m : Sysadminctl.Command}

theorem nextTicket_await (c : Configurator) (o : CommitOutcome) :
    (d.await clientId c o).nextTicket = d.nextTicket + o.runsHooks.toNat := by
  cases o <;> rfl

/-- A command takes a ticket for the hooks of its commit. -/
theorem nextTicket_request : (d.request env clientId m).nextTicket =
    d.nextTicket + ((d.commitOutcome env clientId m).map fun o => o.runsHooks.toNat).getD 0 := by
  rw [request, commitOutcome]
  rcases m.payload with _ | payload
  · rfl
  · cases payload with
    | set key value =>
      dsimp only
      rw [setHandler]
      split
      · rfl
      · split <;> rfl
    | commit config => exact nextTicket_await _ _
    | rollback id =>
      dsimp only
      rw [rollback]
      rcases d.conf.rollback env id.toNat with ⟨c, _ | _ | o⟩
      · rfl
      · rfl
      · exact nextTicket_await _ _
    | reset =>
      dsimp only
      rw [reset]
      rcases resetHandler d.conf env clientId with ⟨c, _ | o⟩
      · rfl
      · exact nextTicket_await _ _
    | get | drop | firehooks | erase | dump | trigger | blame | inflight => rfl

theorem nextTicket_le : d.nextTicket ≤ (d.request env clientId m).nextTicket := by
  rw [nextTicket_request]
  exact Nat.le_add_right _ _

/-- A command waits for the hooks that it runs. -/
theorem awaited_eq (around : Surroundings) (number : ℕ) :
    d.awaited around clientId m number =
      (d.hookCause around.env clientId m).map (HookCause.awaited d.nextTicket number) := by
  rw [awaited, hookCause, nextTicket_request]
  rcases hm : m.payload with _ | payload
  · rcases d.commitOutcome around.env clientId m with _ | _ | _ | _
    <;> simp [CommitOutcome.runsHooks, HookCause.awaited]
  · cases payload with
    | firehooks | trigger =>
      have hnone : d.commitOutcome around.env clientId m = none := by rw [commitOutcome, hm]
      simp [hnone, HookCause.awaited]
    | commit | rollback | reset | set | get | drop | erase | dump | blame | inflight =>
      rcases d.commitOutcome around.env clientId m with _ | _ | _ | _
      <;> simp [CommitOutcome.runsHooks, HookCause.awaited]

end Daemon

/-! ## The server -/

/-- A pipeline of a command, and what the command waits for. -/
structure HookRun where
  cause : HookCause
  awaited : AwaitedHooks
  hooks : HookPipeline HookUser
  chain : HookChain

/-- How the hooks have completed. -/
def HookRun.result (r : HookRun) : Option HookResult := r.chain.result.map .ofCompletion

/-- Starts the hooks of a command. The commit of the command has been made then. -/
def HookSetup.startRun (setup : HookSetup) (d : Daemon) (env : Environment) (clientId : ClientId)
    (m : Sysadminctl.Command) (number : ℕ) : Option HookRun := do
  let cause ← d.hookCause env clientId m
  let hooks ← setup.pipeline cause
  return ⟨cause, HookCause.awaited d.nextTicket number cause, hooks,
    setup.runHooks (d.request env clientId m).conf hooks⟩

/-- The server, and for each of its commands the hooks that it runs. -/
structure HookedServer where
  server : OneofServer Sysadminctl.Response
  runs : List (Option HookRun)

/-- What happens to the server: a command comes with the environment of its commit, and a process
    of a hook of a command ends. -/
inductive HookedEvent
  | connect (id : ClientId)
  | disconnect (serial : ℕ)
  | message (serial : ℕ) (m : Sysadminctl.Command) (env : Environment)
  | ends (number : ℕ) (hook : HookUser) (how : ProcessEnd)

/-- What clients do. -/
def HookedEvent.ofClient : HookedEvent → Option OneofEvent
  | .connect id => some (.connect id)
  | .disconnect serial => some (.disconnect serial)
  | .message serial m _ => some (.message serial m)
  | .ends .. => none

/-- What clients do, and not what becomes of hooks. -/
def OneofEvent.isOfClient : OneofEvent → Bool
  | .connect _ | .disconnect _ | .message .. => true
  | .complete .. => false

namespace HookedServer

variable (setup : HookSetup) (write : Sysadminctl.Response → List Sysadminctl.Response)

/-- A server without connections. -/
def start (d : Daemon) : HookedServer := ⟨.start d, []⟩

/-- What a command finds around the daemon. That a hook does not exist is known at once. -/
def around (m : Sysadminctl.Command) (env : Environment) (r : Option HookRun) : Surroundings :=
  ⟨env, setup.answers m, match r with | some r => r.result | none => some .value⟩

/-- A command comes over a connection. -/
def handleMessage (s : HookedServer) (conn : Connection) (m : Sysadminctl.Command)
    (env : Environment) : HookedServer :=
  let r := setup.startRun s.server.daemon env conn.id m s.server.commands.length
  { server := s.server.handleMessage write (fun _ => around setup m env r) conn m
    runs := s.runs ++ [r] }

/-- A process of a hook ends. What waits for the hooks goes on when they are done. -/
def ends (s : HookedServer) (number : ℕ) (hook : HookUser) (how : ProcessEnd) : HookedServer :=
  match s.runs[number]? with
  | some (some r) =>
    let r' := { r with chain := setup.ends r.chain ⟨s.server.daemon.conf, hook, how⟩ }
    { server :=
        match r.result, r'.result with
        | none, some result => s.server.complete write r.awaited result
        | none, none | some _, _ => s.server
      runs := s.runs.set number (some r') }
  | some none | none => s

/-- Handles one event. -/
def step (s : HookedServer) : HookedEvent → HookedServer
  | .connect id =>
    { s with server := s.server.step write (fun _ => .quiet) (.connect id) }
  | .disconnect serial =>
    { s with server := s.server.step write (fun _ => .quiet) (.disconnect serial) }
  | .message serial m env =>
    match s.server.connections.find? fun conn => conn.serial = serial with
    | none => s
    | some conn => s.handleMessage setup write conn m env
  | .ends number hook how => s.ends setup write number hook how

end HookedServer

/-! ## What is answered -/

/-- What becomes of the hooks decides about the answer. -/
structure Answering (response : HookResult → Completion Exception ResponseType) : Prop where
  value : ∃ r, response .value = .value (some r) ∧ r.status = some .success
  externalRunnerError : ∀ what, ∃ r, response (.externalRunnerError what) = .value (some r) ∧
    r.status = some .externalProcessError
  otherException : ∃ e, response .otherException = .exception e

section answering

variable {setup : HookSetup} {d : Daemon} {env : Environment} {clientId : ClientId}
  {m : Sysadminctl.Command} {cause : HookCause} {hooks : HookPipeline HookUser}

theorem exists_hooks_of_hookCause (hcause : d.hookCause env clientId m = some cause)
    (hfire : m.payload ≠ some .firehooks) (htrigger : ∀ name, m.payload ≠ some (.trigger name)) :
    ∃ changed runServices commitId,
      d.commitOutcome env clientId m = some (.hooks changed runServices commitId) := by
  rw [Daemon.hookCause] at hcause
  split at hcause
  · next h => exact absurd h hfire
  · next h => exact absurd h (htrigger _)
  all_goals
    split at hcause
    · next h => exact ⟨_, _, _, h⟩
    all_goals cases hcause

/-- All handlers but that of a reset see the daemon as it is when they are called. -/
theorem response_eq {payload : Sysadminctl.Payload} (hm : m.payload = some payload)
    (hreset : payload ≠ .reset) (hooks : HookAnswers) (result : HookResult) :
    d.response env hooks clientId m result =
      ((d.callees env hooks result).handler clientId m payload).makeFutureWith := by
  rw [Daemon.response, hm]
  split
  · next h => exact absurd (Option.some.inj h) hreset
  · rw [Callees.dispatch, hm]

/-- A command whose hooks are run is answered as they complete. -/
theorem answering_response (hcause : d.hookCause env clientId m = some cause)
    (hhooks : setup.pipeline cause = some hooks) :
    Answering fun result => d.response env (setup.answers m result) clientId m result := by
  rcases hm : m.payload with _ | payload
  · obtain ⟨_, _, _, h⟩ := exists_hooks_of_hookCause hcause (by simp [hm]) (by simp [hm])
    rw [Daemon.commitOutcome, hm] at h
    cases h
  · cases payload with
    | commit config =>
      -- A refused commit, and one that throws, have no hooks.
      obtain ⟨_, _, commitId, h⟩ := exists_hooks_of_hookCause hcause (by simp [hm]) (by simp [hm])
      rw [Daemon.commitOutcome, hm] at h
      have hfuture : ∀ result, d.conf.commitFuture env (clientOf m clientId)
          (config.getD .default) result = .future ((d.conf.commit env (clientOf m clientId)
            (config.getD .default)).1.completeHooks (clientOf m clientId) commitId
              result).2.completion := by
        intro result
        rw [Configurator.commitFuture]
        split
        · next hc => simp [hc] at h
        · next hc => simp [hc] at h
        · next hc =>
          obtain ⟨rfl, rfl, rfl⟩ : _ ∧ _ ∧ _ := by simpa [hc] using h
          rw [hc]
      simp only [response_eq hm (by simp), Callees.handler, Callees.commitHandler, Daemon.callees,
        hfuture]
      exact ⟨⟨_, rfl, rfl⟩, fun what => ⟨_, rfl, rfl⟩, ⟨_, rfl⟩⟩
    | rollback id =>
      obtain ⟨_, _, commitId, h⟩ := exists_hooks_of_hookCause hcause (by simp [hm]) (by simp [hm])
      rw [Daemon.commitOutcome, hm] at h
      have hfuture : ∀ result, d.conf.rollbackFuture env id.toNat result =
          (Call.future ((d.conf.rollback env id.toNat).1.completeHooks
            TransactionManager.TRANSACTION_HISTORY_ID commitId result).2.completion).thenValue
              fun _ => () := by
        intro result
        rw [Configurator.rollbackFuture]
        split
        · next hc => simp [hc] at h
        · next hc => simp [hc] at h
        · next hc =>
          obtain rfl := Option.some.inj (by simpa [hc] using h)
          rw [hc]
          rfl
      simp only [response_eq hm (by simp), Callees.handler, Callees.rollbackHandler,
        Daemon.callees, hfuture]
      exact ⟨⟨_, rfl, rfl⟩, fun what => ⟨_, rfl, rfl⟩, ⟨_, rfl⟩⟩
    | reset =>
      obtain ⟨_, _, commitId, h⟩ := exists_hooks_of_hookCause hcause (by simp [hm]) (by simp [hm])
      rw [Daemon.commitOutcome, hm] at h
      have hfuture : ∀ result, d.resetFuture env clientId m.id result =
          ((Call.future ((resetHandler d.conf env clientId).1.completeHooks clientId commitId
            result).2.completion).thenValue fun commitId =>
              some (resetCommitResponse m.id .success commitId)).thenError
                (onCommitError (resetCommitResponse m.id .externalProcessError)) := by
        intro result
        rw [Daemon.resetFuture]
        split
        · next hc => simp [hc] at h
        · next hc =>
          obtain rfl := Option.some.inj (by simpa [hc] using h)
          rw [hc]
          rfl
      simp only [Daemon.response, hm, hfuture]
      exact ⟨⟨_, rfl, rfl⟩, fun what => ⟨_, rfl, rfl⟩, ⟨_, rfl⟩⟩
    | firehooks =>
      simp only [response_eq hm (by simp), Callees.handler, Callees.fireHooksHandler,
        Daemon.callees, HookSetup.answers]
      exact ⟨⟨_, rfl, rfl⟩, fun what => ⟨_, rfl, rfl⟩, ⟨_, rfl⟩⟩
    | trigger name =>
      -- There is a pipeline, so that a hook has this name.
      have hfound : (setup.manager.table.byName name).isSome = true := by
        rw [Daemon.hookCause, hm] at hcause
        rw [← Option.some.inj hcause] at hhooks
        obtain ⟨hook, hhook, -⟩ := Option.map_eq_some_iff.1 hhooks
        rw [hhook]
        rfl
      simp only [response_eq hm (by simp), Callees.handler, Callees.triggerHookHandler,
        Daemon.callees, HookSetup.answers, hm, if_pos hfound]
      exact ⟨⟨_, rfl, rfl⟩, fun what => ⟨_, rfl, rfl⟩, ⟨_, rfl⟩⟩
    | set | get | drop | erase | dump | blame | inflight =>
      obtain ⟨_, _, _, h⟩ := exists_hooks_of_hookCause hcause (by simp [hm]) (by simp [hm])
      rw [Daemon.commitOutcome, hm] at h
      cases h

end answering

/-! ## Entries of lists -/

section entries

variable {α : Type*} {l : List α} {a b : α} {n k : ℕ}

theorem lt_of_getElem?_eq_some (h : l[n]? = some a) : n < l.length :=
  (List.getElem?_eq_some_iff.1 h).1

theorem getElem?_concat_eq_some :
    (l ++ [a])[n]? = some b ↔ l[n]? = some b ∨ n = l.length ∧ a = b := by
  rcases Nat.lt_trichotomy n l.length with hn | rfl | hn
  · rw [List.getElem?_append_left hn]
    simp [hn.ne]
  · simp
  · rw [List.getElem?_append_right hn.le]
    simp [hn.ne', Nat.sub_eq_zero_iff_le, hn, hn.le]

theorem getElem?_set_eq_some (hn : n < l.length) :
    (l.set n a)[k]? = some b ↔ n = k ∧ a = b ∨ n ≠ k ∧ l[k]? = some b := by
  rw [List.getElem?_set]
  by_cases hk : n = k
  · simp [hk, hk ▸ hn]
  · simp [hk]

end entries

/-! ## What results of hooks come to -/

namespace OneofServer

/-- What the commands wait for, each with the result of its hooks if that has come. -/
abbrev HookResults := List (Option (AwaitedHooks × Option HookResult))

/-- The hooks are those of a command with the number, or of a commit that has a ticket. -/
def HooksOf (nextTicket number : ℕ) : AwaitedHooks → Prop
  | .commit ticket => ticket < nextTicket
  | .command n => n = number

/-- The commands whose hooks have no result wait for it. Whatever is written for a command with
    hooks is made of the response with their result, and the response is written if its connection
    is there. -/
structure Delivered (write : Sysadminctl.Response → List Sysadminctl.Response)
    (s : OneofServer Sysadminctl.Response) (results : HookResults) : Prop where
  orderly : s.Orderly write
  length_results : results.length = s.commands.length
  hooksOf : ∀ (n : ℕ) hooks result, results[n]? = some (some (hooks, result)) →
    HooksOf s.daemon.nextTicket n hooks
  distinct : ∀ (n n' : ℕ) hooks result result', results[n]? = some (some (hooks, result)) →
    results[n']? = some (some (hooks, result')) → n = n'
  awaiting_iff : ∀ (n : ℕ) hooks, results[n]? = some (some (hooks, none)) ↔
    ∃ a ∈ s.awaiting, a.number = n ∧ a.hooks = hooks
  written : ∀ w ∈ s.written, ∀ hooks result, results[w.number]? = some (some (hooks, result)) →
    ∃ c r, s.commands[w.number]? = some c ∧ ∃ result', result = some result' ∧
      c.response result' = .value (some r) ∧ write r = [w.item]
  answered : ∀ (n : ℕ) c hooks result r, results[n]? = some (some (hooks, some result)) →
    s.commands[n]? = some c → s.Open c.serial → c.response result = .value r →
      ∃ w ∈ s.written, w.number = n

section delivered

variable {write : Sysadminctl.Response → List Sysadminctl.Response}
  {surroundings : ℕ → Surroundings} {s s' : OneofServer Sysadminctl.Response} {d : Daemon}
  {c : ServedCommand} {results : HookResults} {hooks : AwaitedHooks} {result : HookResult} {n : ℕ}

theorem mem_reply_iff {connections : List Connection} {w : Written Sysadminctl.Response} :
    w ∈ reply write connections n c result ↔ ∃ r, c.response result = .value (some r) ∧
      c.serial ∈ connections.map Connection.serial ∧ ∃ item ∈ write r, w = ⟨c.serial, n, item⟩ := by
  rw [reply]
  rcases c.response result with (_ | r) | e
  · simp
  · by_cases hopen : c.serial ∈ connections.map Connection.serial
    · simp only [hopen, if_true, List.mem_map, eq_comm (b := w)]
      simp
    · simp [hopen]
  · simp

theorem HooksOf.mono {k k' : ℕ} (h : HooksOf k n hooks) (hk : k ≤ k') : HooksOf k' n hooks := by
  cases hooks with
  | commit ticket => exact Nat.lt_of_lt_of_le h hk
  | command number => exact h

theorem delivered_start (d : Daemon) : (start d).Delivered write [] where
  orderly := orderly_start
  length_results := rfl
  hooksOf _ _ _ h := by cases h
  distinct _ _ _ _ _ h := by cases h
  awaiting_iff _ _ := ⟨fun h => (by cases h), fun ⟨_, ha, _⟩ => absurd ha List.not_mem_nil⟩
  written _ h := absurd h List.not_mem_nil
  answered _ _ _ _ _ h := by cases h

/-- A connection comes. -/
theorem Delivered.connect (h : s.Delivered write results) (hwrite : WritesOne write)
    (id : ClientId) : (s.step write surroundings (.connect id)).Delivered write results := by
  have ho : (s.step write surroundings (.connect id)).Orderly write := h.orderly.step hwrite
  rw [OneofServer.step] at ho ⊢
  split at ho
  · next hid =>
    rw [if_pos hid]
    exact h
  · next hid =>
    rw [if_neg hid]
    refine { h with
      orderly := ho
      answered := fun n c hooks result r hn hc hopen => h.answered n c hooks result r hn hc ?_ }
    rw [Open, List.map_append, List.mem_append] at hopen
    refine hopen.resolve_right fun hlast => ?_
    exact (h.orderly.command_lt c (List.mem_of_getElem? hc)).ne (List.mem_singleton.1 hlast)

/-- A connection is gone. -/
theorem Delivered.disconnect (h : s.Delivered write results) (hwrite : WritesOne write)
    (serial : ℕ) : (s.step write surroundings (.disconnect serial)).Delivered write results :=
  { h with
    orderly := h.orderly.step hwrite
    answered := fun n c hooks result r hn hc hopen => h.answered n c hooks result r hn hc
      ((List.filter_sublist.map _).subset hopen) }

/-- A command that comes waits for its hooks. -/
theorem Delivered.await (h : s.Delivered write results) (hlt : c.serial < s.nextSerial)
    (hid : ∀ result o, c.response result = .value o → HasId c.message.id o)
    (hticket : s.daemon.nextTicket ≤ d.nextTicket)
    (hhooks : HooksOf d.nextTicket s.commands.length hooks)
    (hnew : ∀ n < s.commands.length, ¬ HooksOf s.daemon.nextTicket n hooks) :
    ({ s with
      daemon := d
      commands := s.commands ++ [c]
      awaiting := s.awaiting ++ [⟨hooks, s.commands.length, c⟩] } :
      OneofServer Sysadminctl.Response).Delivered write (results ++ [some (hooks, none)]) := by
  have hlen := h.length_results
  -- No command from before waits for the hooks of the new one.
  have hold : ∀ (n : ℕ) hooks' result, results[n]? = some (some (hooks', result)) →
      hooks' ≠ hooks := by
    rintro n hooks' result hn rfl
    exact hnew n (hlen ▸ lt_of_getElem?_eq_some hn) (h.hooksOf n hooks' result hn)
  refine ⟨h.orderly.await hooks hlt hid, by simp [hlen], ?_, ?_, ?_, ?_, ?_⟩
  · intro n hooks' result hn
    rcases getElem?_concat_eq_some.1 hn with hn | ⟨rfl, heq⟩
    · exact (h.hooksOf n hooks' result hn).mono hticket
    · cases heq
      rwa [hlen]
  · intro n n' hooks' result result' hn hn'
    rcases getElem?_concat_eq_some.1 hn with hn | ⟨rfl, heq⟩
    · rcases getElem?_concat_eq_some.1 hn' with hn' | ⟨rfl, heq⟩
      · exact h.distinct n n' hooks' result result' hn hn'
      · cases heq
        exact absurd rfl (hold n _ _ hn)
    · cases heq
      rcases getElem?_concat_eq_some.1 hn' with hn' | ⟨rfl, -⟩
      · exact absurd rfl (hold n' _ _ hn')
      · rfl
  · intro n hooks'
    rw [getElem?_concat_eq_some, h.awaiting_iff, hlen]
    simp [or_and_right, exists_or, eq_comm]
  · intro w hw hooks' result hn
    rcases getElem?_concat_eq_some.1 hn with hn | ⟨hn, -⟩
    · obtain ⟨c', r, hc', hr⟩ := h.written w hw hooks' result hn
      exact ⟨c', r, getElem?_concat_eq_some.2 (.inl hc'), hr⟩
    · obtain ⟨c', hc', -⟩ := h.orderly.written_get w hw
      exact absurd (hn.trans hlen) (lt_of_getElem?_eq_some hc').ne
  · intro n c' hooks' result r hn hc' hopen hr
    rcases getElem?_concat_eq_some.1 hn with hn | ⟨rfl, heq⟩
    · have hc' := (getElem?_concat_eq_some.1 hc').resolve_right fun hlast =>
        (lt_of_getElem?_eq_some hn).ne (hlast.1.trans hlen.symm)
      exact h.answered n c' hooks' result r hn hc' hopen hr
    · cases heq

theorem nextTicket_complete :
    (s.complete write hooks result).daemon.nextTicket = s.daemon.nextTicket := by
  cases hooks with
  | command number => rfl
  | commit ticket =>
    change (s.daemon.step (.complete ticket result)).nextTicket = _
    rw [Daemon.step]
    split <;> rfl

/-- The hooks of a command that waits for them complete. -/
theorem Delivered.complete (h : s.Delivered write results) (hwrite : WritesOne write)
    (hn : results[n]? = some (some (hooks, none))) (result : HookResult) :
    (s.complete write hooks result).Delivered write
      (results.set n (some (hooks, some result))) := by
  have hlt := lt_of_getElem?_eq_some hn
  have hset : ∀ (k : ℕ) hooks' result', (results.set n (some (hooks, some result)))[k]? =
      some (some (hooks', result')) ↔
        n = k ∧ hooks = hooks' ∧ some result = result' ∨
          n ≠ k ∧ results[k]? = some (some (hooks', result')) := by
    intro k hooks' result'
    rw [getElem?_set_eq_some hlt, Option.some_inj, Prod.mk.injEq]
  -- nothing but the command waits for the hooks
  have hnumber : ∀ a ∈ s.awaiting, (a.hooks = hooks ↔ a.number = n) := by
    intro a ha
    have hget := (h.awaiting_iff a.number a.hooks).2 ⟨a, ha, rfl, rfl⟩
    constructor
    · intro heq
      exact h.distinct _ _ hooks none none (heq ▸ hget) hn
    · intro heq
      rw [heq, hn] at hget
      exact (Prod.mk.inj (Option.some.inj (Option.some.inj hget))).1.symm
  have hwritten : ∀ w, w ∈ (s.complete write hooks result).written ↔ w ∈ s.written ∨
      ∃ c r, s.commands[n]? = some c ∧ c.response result = .value (some r) ∧ s.Open c.serial ∧
        ∃ item ∈ write r, w = ⟨c.serial, n, item⟩ := by
    intro w
    rw [written_complete, List.mem_append, List.mem_flatMap]
    refine or_congr_right ⟨?_, ?_⟩
    · rintro ⟨a, ha, hw⟩
      obtain ⟨ha, hhooks⟩ := List.mem_filter.1 ha
      obtain rfl := (hnumber a ha).1 (of_decide_eq_true hhooks)
      obtain ⟨r, hr, hopen, hitem⟩ := mem_reply_iff.1 hw
      exact ⟨a.command, r, h.orderly.awaiting_get a ha, hr, hopen, hitem⟩
    · rintro ⟨c, r, hc, hr, hopen, hitem⟩
      obtain ⟨a, ha, rfl, hhooks⟩ := (h.awaiting_iff n hooks).1 hn
      obtain rfl : a.command = c := Option.some.inj ((h.orderly.awaiting_get a ha).symm.trans hc)
      exact ⟨a, List.mem_filter.2 ⟨ha, decide_eq_true hhooks⟩,
        mem_reply_iff.2 ⟨r, hr, hopen, hitem⟩⟩
  have hone : ∀ c, s.commands[n]? = some c → ∀ r, c.response result = .value (some r) →
      ∃ item, write r = [item] := by
    intro c hc r hr
    obtain ⟨r', hr', hid⟩ := h.orderly.hasId c (List.mem_of_getElem? hc) result _ hr
    obtain rfl := Option.some.inj hr'
    obtain ⟨item, hitem, -⟩ := hwrite r _ hid
    exact ⟨item, hitem⟩
  refine ⟨h.orderly.complete hwrite hooks result, by rw [List.length_set, h.length_results]; rfl,
    ?_, ?_, ?_, ?_, ?_⟩
  · intro k hooks' result' hk
    rw [nextTicket_complete]
    obtain ⟨rfl, rfl, -⟩ | ⟨-, hk⟩ := (hset k hooks' result').1 hk
    · exact h.hooksOf n hooks none hn
    · exact h.hooksOf k hooks' result' hk
  · have hkey : ∀ (k : ℕ) hooks' result', (results.set n (some (hooks, some result)))[k]? =
        some (some (hooks', result')) →
          ∃ result'', results[k]? = some (some (hooks', result'')) := by
      intro k hooks' result' hk
      obtain ⟨rfl, rfl, -⟩ | ⟨-, hk⟩ := (hset k hooks' result').1 hk
      · exact ⟨none, hn⟩
      · exact ⟨result', hk⟩
    intro k k' hooks' _ _ hk hk'
    obtain ⟨r, hk⟩ := hkey k _ _ hk
    obtain ⟨r', hk'⟩ := hkey k' _ _ hk'
    exact h.distinct k k' hooks' r r' hk hk'
  · intro k hooks'
    have hfilter : ∀ a, a ∈ (s.complete write hooks result).awaiting ↔
        a ∈ s.awaiting ∧ a.hooks ≠ hooks := fun a =>
      List.mem_filter.trans (and_congr_right fun _ => decide_eq_true_iff)
    simp only [hset, hfilter, reduceCtorEq, and_false, false_or, h.awaiting_iff]
    constructor
    · rintro ⟨hne, a, ha, rfl, rfl⟩
      exact ⟨a, ⟨ha, fun heq => hne ((hnumber a ha).1 heq).symm⟩, rfl, rfl⟩
    · rintro ⟨a, ⟨ha, hne⟩, rfl, rfl⟩
      exact ⟨fun heq => hne ((hnumber a ha).2 heq.symm), a, ha, rfl, rfl⟩
  · intro w hw hooks' result' hk
    obtain ⟨hnk, rfl, rfl⟩ | ⟨hnk, hk⟩ := (hset w.number hooks' result').1 hk
    · rcases (hwritten w).1 hw with hw | ⟨c, r, hc, hr, -, item, hitem, rfl⟩
      · obtain ⟨-, -, -, _, hnone, -⟩ := h.written w hw hooks none (hnk ▸ hn)
        cases hnone
      · obtain ⟨item', hitem'⟩ := hone c hc r hr
        rw [hitem', List.mem_singleton] at hitem
        exact ⟨c, r, hc, result, rfl, hr, by rw [hitem', hitem]⟩
    · rcases (hwritten w).1 hw with hw | ⟨c, r, -, -, -, item, -, rfl⟩
      · exact h.written w hw hooks' result' hk
      · exact absurd rfl hnk
  · intro k c hooks' result' o hk hc hopen ho
    obtain ⟨rfl, rfl, heq⟩ | ⟨-, hk⟩ := (hset k hooks' (some result')).1 hk
    · obtain rfl := Option.some.inj heq
      obtain ⟨r, rfl, hid⟩ := h.orderly.hasId c (List.mem_of_getElem? hc) result _ ho
      obtain ⟨item, hitem⟩ := hone c hc r ho
      refine ⟨⟨c.serial, n, item⟩, (hwritten _).2 (.inr ⟨c, r, hc, ho, hopen, item, ?_, rfl⟩), rfl⟩
      rw [hitem]
      exact List.mem_singleton_self _
    · obtain ⟨w, hw, rfl⟩ := h.answered k c hooks' result' o hk hc hopen ho
      exact ⟨w, (hwritten w).2 (.inl hw), rfl⟩

/-- A command whose handler does not wait for hooks. -/
theorem Delivered.answer (h : s.Delivered write results) {numbered : List (Written _)}
    {completed : List (ℕ × HookResult)}
    (ho : ({ s with
      daemon := d
      commands := s.commands ++ [c]
      written := s.written ++ numbered
      completed } : OneofServer Sysadminctl.Response).Orderly write)
    (hticket : s.daemon.nextTicket ≤ d.nextTicket)
    (hnumbered : ∀ w ∈ numbered, w.number = s.commands.length) :
    ({ s with
      daemon := d
      commands := s.commands ++ [c]
      written := s.written ++ numbered
      completed } : OneofServer Sysadminctl.Response).Delivered write
        (results ++ [none]) := by
  have hlen := h.length_results
  have hget : ∀ (n : ℕ) hooks result, (results ++ [none])[n]? = some (some (hooks, result)) ↔
      results[n]? = some (some (hooks, result)) := fun n hooks result => by
    simp [getElem?_concat_eq_some]
  -- What is written now is written for the new command.
  have hold : ∀ (n : ℕ) x, results[n]? = some x → n ≠ s.commands.length := fun n x hn =>
    hlen ▸ (lt_of_getElem?_eq_some hn).ne
  refine ⟨ho, by simp [hlen], ?_, ?_, ?_, ?_, ?_⟩
  · exact fun n hooks result hn => (h.hooksOf n hooks result ((hget _ _ _).1 hn)).mono hticket
  · exact fun n n' hooks result result' hn hn' =>
      h.distinct n n' hooks result result' ((hget _ _ _).1 hn) ((hget _ _ _).1 hn')
  · exact fun n hooks => (hget n hooks none).trans (h.awaiting_iff n hooks)
  · intro w hw hooks result hn
    rw [hget] at hn
    have hw := (List.mem_append.1 hw).resolve_right fun hw => hold _ _ hn (hnumbered w hw)
    obtain ⟨c', r, hc', hr⟩ := h.written w hw hooks result hn
    exact ⟨c', r, getElem?_concat_eq_some.2 (.inl hc'), hr⟩
  · intro n c' hooks result r hn hc' hopen hr
    rw [hget] at hn
    have hc' := (getElem?_concat_eq_some.1 hc').resolve_right fun hlast => hold _ _ hn hlast.1
    obtain ⟨w, hw, hwn⟩ := h.answered n c' hooks result r hn hc' hopen hr
    exact ⟨w, List.mem_append_left _ hw, hwn⟩

/-- What a command waits for is new. -/
theorem hooksOf_of_awaited {around : Surroundings} {clientId : ClientId} {m : Sysadminctl.Command}
    {number : ℕ} (h : d.awaited around clientId m number = some hooks) :
    HooksOf (d.request around.env clientId m).nextTicket number hooks ∧
      ∀ n < number, ¬ HooksOf d.nextTicket n hooks := by
  rw [Daemon.awaited] at h
  split at h
  · next hne =>
    obtain rfl := Option.some.inj h
    exact ⟨Nat.lt_of_le_of_ne Daemon.nextTicket_le (Ne.symm hne), fun _ _ => lt_irrefl _⟩
  · -- The hooks of firehooks and trigger go by the number of their command.
    have hcommand : hooks = .command number := by
      split at h
      all_goals cases h <;> rfl
    subst hcommand
    exact ⟨rfl, fun n hn heq => hn.ne' heq⟩

/-- A command comes, and the result of its hooks, if that is there. -/
theorem Delivered.handleMessage (h : s.Delivered write results) (hwrite : WritesOne write)
    {conn : Connection} (hconn : conn ∈ s.connections) (m : Sysadminctl.Command) :
    (s.handleMessage write surroundings conn m).Delivered write
      (results ++ [(s.daemon.awaited (surroundings s.commands.length) conn.id m
        s.commands.length).map fun hooks => (hooks, (surroundings s.commands.length).done)]) := by
  have ho : (s.handleMessage write surroundings conn m).Orderly write :=
    h.orderly.handleMessage hwrite hconn m
  rw [OneofServer.handleMessage] at ho ⊢
  dsimp only at ho ⊢
  rcases hawaited : s.daemon.awaited (surroundings s.commands.length) conn.id m s.commands.length
    with _ | hooks
  · simp only [hawaited] at ho
    exact h.answer ho Daemon.nextTicket_le fun w hw => (serial_of_mem_reply hw).2.2
  · obtain ⟨hof, hnew⟩ := hooksOf_of_awaited hawaited
    have hawait := h.await (h.orderly.serial_lt conn hconn)
      (c := s.daemon.served (surroundings s.commands.length) conn m) Daemon.hasId_served
      Daemon.nextTicket_le hof hnew
    rcases hdone : (surroundings s.commands.length).done with _ | result
    · exact hawait
    · -- The result is there already: the command waits, and its hooks complete.
      have hn : (results ++ [some (hooks, none)])[results.length]? = some (some (hooks, none)) :=
        List.getElem?_concat_length
      have hcomplete := hawait.complete hwrite hn result
      simpa [List.set_append] using hcomplete

end delivered

end OneofServer

/-! ## The hooks of a command -/

namespace HookCause

/-- The hook is one of those that are run. -/
def Calls (hook : HookUser) : HookCause → Prop
  | commit changed runServices => (hook.type = .templater ∨ runServices = true) ∧
      ∃ pair ∈ changed, hook.RunsFor ConfigKey.Meets pair.key
  | fireHooks => True
  | trigger name => hook.name = name

end HookCause

section calls

variable {setup : HookSetup} {m : HookManager} {hooks : HookPipeline HookUser} {hook : HookUser}

theorem RunLevelServicesMap.mem_services_iff {α : Type} {services : RunLevelServicesMap α} {s : α} :
    s ∈ (services.entries.map Prod.snd).flatten ↔ ∃ rl, s ∈ services.under rl := by
  simp only [List.mem_flatten, List.mem_map, under]
  constructor
  · rintro ⟨_, ⟨⟨rl, l⟩, hmem, rfl⟩, hs⟩
    obtain ⟨before, behind, heq⟩ := List.append_of_mem hmem
    have hsorted := services.sorted
    rw [heq, List.pairwise_append] at hsorted
    have hlookup : services.entries.lookup rl = some l :=
      List.lookup_eq_some_iff.2 ⟨before, behind, heq, fun e he => bne_iff_ne.2
        (hsorted.2.2 e he _ List.mem_cons_self).ne'⟩
    exact ⟨rl, by rwa [hlookup]⟩
  · rintro ⟨rl, hs⟩
    rcases hlookup : services.entries.lookup rl with _ | l
    · rw [hlookup] at hs
      cases hs
    · rw [hlookup] at hs
      obtain ⟨before, behind, heq, -⟩ := List.lookup_eq_some_iff.1 hlookup
      refine ⟨l, ⟨(rl, l), ?_, rfl⟩, hs⟩
      rw [heq]
      exact List.mem_append_right _ List.mem_cons_self

theorem mem_all_getHooksToRun {committed : ConfigPairList} {runServices : Bool} :
    hook ∈ (m.getHooksToRun committed runServices).all ↔
      hook ∈ m.table.hooks ∧ (HookCause.commit committed runServices).Calls hook := by
  have hselects := m.selects committed runServices
  rw [HookPipeline.all, List.mem_append, RunLevelServicesMap.mem_services_iff, hselects.templates]
  simp only [hselects.services, HookCause.Calls]
  cases htype : hook.type <;> simp [and_left_comm]

theorem mem_all_getAllHooks : hook ∈ m.getAllHooks.all ↔ hook ∈ m.table.hooks := by
  have htemplates : hook ∈ m.getAllHooks.templates.list ↔ hook ∈ m.table.byType .templater := by
    refine (foldl_iff (fun templates : TemplatesSet HookUser => hook ∈ templates.list)
      (Q := (hook = ·)) (fun templates templater => ?_) _ .empty).trans ?_
    · rw [TemplatesSet.emplace, List.mem_insert_iff, or_comm]
    · simp [TemplatesSet.empty]
  have hservices : (∃ rl, hook ∈ m.getAllHooks.services.under rl) ↔
      hook ∈ m.table.runLevelOrder .service := by
    refine (foldl_iff
      (fun services : RunLevelServicesMap HookUser => ∃ rl, hook ∈ services.under rl)
      (Q := (hook = ·)) (fun services service => ?_) _ .empty).trans ?_
    · simp [RunLevelServicesMap.mem_under_add, exists_or]
    · simp [RunLevelServicesMap.empty, RunLevelServicesMap.under]
  rw [HookPipeline.all, List.mem_append, htemplates, RunLevelServicesMap.mem_services_iff,
    hservices, HookTable.mem_byType, HookTable.mem_runLevelOrder]
  cases hook.type <;> simp

theorem mem_all_hookToTrigger {name : String} (h : m.hookToTrigger name = some hooks) :
    hook ∈ hooks.all ↔ hook ∈ m.table.hooks ∧ hook.name = name := by
  obtain ⟨hook', hfind, heq⟩ := Option.map_eq_some_iff.1 h
  have hall : hook ∈ hooks.all ↔ hook = hook' := by
    rw [← heq]
    cases hook'.type <;> simp [HookPipeline.all, TemplatesSet.emplace, TemplatesSet.empty,
      RunLevelServicesMap.empty, RunLevelServicesMap.add, RunLevelServicesMap.addEntry]
  rw [hall, HookTable.mem_hooks_iff]
  constructor
  · rintro rfl
    have hname : hook.name = name := by simpa using List.find?_some hfind
    exact ⟨by rw [hname, hfind], hname⟩
  · rintro ⟨hget, rfl⟩
    exact Option.some.inj (hget.symm.trans hfind)

/-- The hooks that a command calls are those of its pipeline. -/
theorem mem_all_iff {cause : HookCause} (h : setup.pipeline cause = some hooks) :
    hook ∈ hooks.all ↔ hook ∈ setup.manager.table.hooks ∧ cause.Calls hook := by
  cases cause with
  | commit changed runServices => rw [← Option.some.inj h, mem_all_getHooksToRun]
  | fireHooks => rw [← Option.some.inj h, mem_all_getAllHooks, HookCause.Calls, and_true]
  | trigger name => exact mem_all_hookToTrigger h

theorem runs_of_pipeline {cause : HookCause} (h : setup.pipeline cause = some hooks) :
    setup.manager.Runs hooks := by
  cases cause with
  | commit changed runServices => exact Option.some.inj h ▸ .committed changed runServices
  | fireHooks => exact Option.some.inj h ▸ .all
  | trigger name => exact .trigger h

end calls

/-! ## The server with its hooks -/

namespace HookedServer

open OneofServer (WritesOne)

variable {setup : HookSetup} {write : Sysadminctl.Response → List Sysadminctl.Response}
  {s : HookedServer} {e : HookedEvent} {conn : Connection} {m : Sysadminctl.Command}
  {env : Environment} {n : ℕ} {r : HookRun} {c : ServedCommand}

/-- The hooks of each command are run as a pipeline, whose result is that with which the command is
    answered. -/
structure Accounted (setup : HookSetup) (write : Sysadminctl.Response → List Sysadminctl.Response)
    (s : HookedServer) : Prop where
  length_runs : s.runs.length = s.server.commands.length
  isRunOf : ∀ (n : ℕ) r, s.runs[n]? = some (some r) →
    setup.pipeline r.cause = some r.hooks ∧ setup.IsRunOf r.hooks r.chain
  answering : ∀ (n : ℕ) r c, s.runs[n]? = some (some r) → s.server.commands[n]? = some c →
    Answering c.response
  delivered : ∃ results, s.server.Delivered write results ∧ ∀ (n : ℕ) r,
    s.runs[n]? = some (some r) → results[n]? = some (some (r.awaited, r.result))

theorem accounted_start (d : Daemon) : (start d).Accounted setup write where
  length_runs := rfl
  isRunOf _ _ h := by cases h
  answering _ _ _ h := by cases h
  delivered := ⟨[], OneofServer.delivered_start d, fun _ _ h => (by cases h)⟩

theorem startRun_eq_some {d : Daemon} {clientId : ClientId} {number : ℕ}
    (h : setup.startRun d env clientId m number = some r) :
    d.hookCause env clientId m = some r.cause ∧ setup.pipeline r.cause = some r.hooks ∧
      r.awaited = r.cause.awaited d.nextTicket number ∧ setup.IsRunOf r.hooks r.chain := by
  simp only [HookSetup.startRun, Option.bind_eq_bind, Option.bind_eq_some_iff, Option.pure_def,
    Option.some_inj] at h
  obtain ⟨cause, hcause, hooks, hhooks, rfl⟩ := h
  exact ⟨hcause, hhooks, rfl, HookSetup.isRunOf_runHooks _ _ _⟩

theorem Accounted.handleMessage (h : s.Accounted setup write) (hwrite : WritesOne write)
    (hconn : conn ∈ s.server.connections) :
    (s.handleMessage setup write conn m env).Accounted setup write := by
  obtain ⟨results, hdelivered, hresults⟩ := h.delivered
  have hlen := h.length_runs
  have hr : ∀ r, setup.startRun s.server.daemon env conn.id m s.server.commands.length = some r →
      _ := fun r hr => startRun_eq_some hr
  rw [HookedServer.handleMessage]
  generalize setup.startRun s.server.daemon env conn.id m s.server.commands.length = new at hr
  have hcommands :
      (s.server.handleMessage write (fun _ => around setup m env new) conn m).commands =
        s.server.commands ++ [s.server.daemon.served (around setup m env new) conn m] :=
    OneofServer.handleMessage_frame.2.2
  have hnew : (s.server.handleMessage write (fun _ => around setup m env new) conn m).Delivered
      write (results ++ [(s.server.daemon.awaited (around setup m env new) conn.id m
        s.server.commands.length).map fun hooks => (hooks, (around setup m env new).done)]) :=
    hdelivered.handleMessage hwrite hconn m
  refine ⟨?_, ?_, ?_, _, hnew, ?_⟩
  · simp [hcommands, hlen]
  · intro n r hn
    rcases getElem?_concat_eq_some.1 hn with hn | ⟨rfl, rfl⟩
    · -- The run of the new command has just been started, and none of its processes has ended.
      exact h.isRunOf n r hn
    · obtain ⟨-, hpipeline, -, hrun⟩ := hr r rfl
      exact ⟨hpipeline, hrun⟩
  · intro n r c hn hc
    rw [hcommands] at hc
    rcases getElem?_concat_eq_some.1 hn with hn | ⟨rfl, rfl⟩
    · have hc := (getElem?_concat_eq_some.1 hc).resolve_right fun hlast =>
        (lt_of_getElem?_eq_some hn).ne (hlast.1.trans hlen.symm)
      exact h.answering n r c hn hc
    · obtain ⟨hcause, hpipeline, -, -⟩ := hr r rfl
      rw [hlen, List.getElem?_concat_length] at hc
      rw [← Option.some.inj hc]
      exact answering_response hcause hpipeline
  · intro n r hn
    rcases getElem?_concat_eq_some.1 hn with hn | ⟨rfl, rfl⟩
    · exact getElem?_concat_eq_some.2 (.inl (hresults n r hn))
    · obtain ⟨hcause, -, hawaited, -⟩ := hr r rfl
      refine getElem?_concat_eq_some.2 (.inr ⟨by rw [hlen, hdelivered.length_results], ?_⟩)
      rw [Daemon.awaited_eq, around, hcause, hawaited]
      rfl

/-- A run goes on, and the server with it. -/
theorem Accounted.set (h : s.Accounted setup write) {server : OneofServer Sysadminctl.Response}
    {r r' : HookRun} (hn : s.runs[n]? = some (some r)) (hcause : r'.cause = r.cause)
    (hhooks : r'.hooks = r.hooks) (hrun : setup.IsRunOf r'.hooks r'.chain)
    (hcommands : server.commands = s.server.commands)
    (hdelivered : ∃ results, server.Delivered write results ∧ ∀ (k : ℕ) r'',
      (s.runs.set n (some r'))[k]? = some (some r'') →
        results[k]? = some (some (r''.awaited, r''.result))) :
    (HookedServer.mk server (s.runs.set n (some r'))).Accounted setup write := by
  have hset : ∀ (k : ℕ) r'', (s.runs.set n (some r'))[k]? = some (some r'') →
      n = k ∧ r' = r'' ∨ s.runs[k]? = some (some r'') := fun k r'' hk => by
    rw [getElem?_set_eq_some (lt_of_getElem?_eq_some hn)] at hk
    exact hk.imp (And.imp_right Option.some.inj) And.right
  refine ⟨?_, ?_, ?_, hdelivered⟩
  · rw [List.length_set, h.length_runs, hcommands]
  · intro k r'' hk
    rcases hset k r'' hk with ⟨-, rfl⟩ | hk
    · exact ⟨by rw [hcause, hhooks, (h.isRunOf n r hn).1], hrun⟩
    · exact h.isRunOf k r'' hk
  · intro k r'' c hk hc
    rw [hcommands] at hc
    rcases hset k r'' hk with ⟨rfl, -⟩ | hk
    · exact h.answering n r c hn hc
    · exact h.answering k r'' c hk hc

theorem Accounted.ends (h : s.Accounted setup write) (hwrite : WritesOne write) (n : ℕ)
    (hook : HookUser) (how : ProcessEnd) :
    (s.ends setup write n hook how).Accounted setup write := by
  rw [HookedServer.ends]
  split
  · next r hn =>
    obtain ⟨results, hdelivered, hresults⟩ := h.delivered
    have hlt := lt_of_getElem?_eq_some hn
    have hrun := (h.isRunOf n r hn).2.ends ⟨s.server.daemon.conf, hook, how⟩
    dsimp only
    generalize hchain : setup.ends r.chain ⟨s.server.daemon.conf, hook, how⟩ = chain at hrun
    -- without a new result, the others are what they have been
    have hsame : ({ r with chain } : HookRun).result = r.result → ∀ (k : ℕ) r'',
        (s.runs.set n (some { r with chain }))[k]? = some (some r'') →
          results[k]? = some (some (r''.awaited, r''.result)) := by
      intro heq k r'' hk
      rw [getElem?_set_eq_some hlt] at hk
      obtain ⟨rfl, hk⟩ | ⟨-, hk⟩ := hk
      · rw [← Option.some.inj hk, heq]
        exact hresults n r hn
      · exact hresults k r'' hk
    split
    · next result hnone hsome =>
      refine h.set hn rfl rfl hrun rfl ⟨_, hdelivered.complete hwrite
        (hnone ▸ hresults n r hn) result, fun k r'' hk => ?_⟩
      have hlt' := lt_of_getElem?_eq_some (hresults n r hn)
      rw [getElem?_set_eq_some hlt] at hk
      rw [getElem?_set_eq_some hlt']
      obtain ⟨rfl, hk⟩ | ⟨hne, hk⟩ := hk
      · rw [← Option.some.inj hk, hsome]
        exact .inl ⟨rfl, rfl⟩
      · exact .inr ⟨hne, hresults k r'' hk⟩
    · next hnone hnone' =>
      exact h.set hn rfl rfl hrun rfl ⟨results, hdelivered, hsame (hnone'.trans hnone.symm)⟩
    · next x hsome =>
      -- A run that has its result keeps it, whatever processes end.
      have heq : ({ r with chain } : HookRun).result = r.result := by
        obtain ⟨y, hy, -⟩ := Option.map_eq_some_iff.1 hsome
        rw [HookRun.result, HookRun.result, ← hchain, hy]
        exact congrArg _ (Chains.step_of_result _ _ _ _ hy).1
      exact h.set hn rfl rfl hrun rfl ⟨results, hdelivered, hsame heq⟩
  · exact h
  · exact h

theorem Accounted.step (h : s.Accounted setup write) (hwrite : WritesOne write) :
    (s.step setup write e).Accounted setup write := by
  obtain ⟨results, hdelivered, hresults⟩ := h.delivered
  cases e with
  | connect id =>
    have hcommands : (s.server.step write (fun _ => .quiet) (.connect id)).commands =
        s.server.commands := by
      rw [OneofServer.step]
      split <;> rfl
    have hconnect : (s.server.step write (fun _ => .quiet) (.connect id)).Delivered write results :=
      hdelivered.connect hwrite id
    exact ⟨by rw [HookedServer.step, hcommands, h.length_runs], h.isRunOf,
      fun n r c hn hc => h.answering n r c hn (hcommands ▸ hc), results, hconnect, hresults⟩
  | disconnect serial =>
    have hdisconnect : (s.server.step write (fun _ => .quiet) (.disconnect serial)).Delivered write
        results := hdelivered.disconnect hwrite serial
    exact ⟨h.length_runs, h.isRunOf, h.answering, results, hdisconnect, hresults⟩
  | message serial m env =>
    rw [HookedServer.step]
    split
    · exact h
    · next conn hconn => exact h.handleMessage hwrite (List.mem_of_find?_eq_some hconn)
  | ends n hook how => exact h.ends hwrite n hook how

/-- The answer to a command tells what has become of its hooks. It is not there before they are
    done, and says `SUCCESS` only if all hooks that the command calls have succeeded, and
    `EXTERNAL_PROCESS_ERROR` only if one of them has failed. -/
structure Honest (setup : HookSetup) (s : HookedServer) (n : ℕ) (r : HookRun) : Prop where
  ranHooks : setup.RanHooks r.hooks r.chain
  nodup_started : (r.chain.started.map Prod.snd).Nodup
  started : ∀ p ∈ r.chain.started, p.2 ∈ setup.manager.table.hooks ∧ r.cause.Calls p.2
  waits : r.result = none → ∀ w ∈ s.server.written, w.number ≠ n
  answers : ∀ result c, r.result = some result → result ≠ .otherException →
    s.server.commands[n]? = some c → s.server.Open c.serial →
      ∃ w ∈ s.server.written, w.number = n
  success : ∀ w ∈ s.server.written, w.number = n → w.item.status = some .success →
    ∀ hook ∈ setup.manager.table.hooks, r.cause.Calls hook → setup.HasSucceeded r.chain hook
  externalProcessError : ∀ w ∈ s.server.written, w.number = n →
    w.item.status = some .externalProcessError →
      ∃ hook ∈ setup.manager.table.hooks, r.cause.Calls hook ∧
        ∃ what, setup.HasFailed r.chain hook (.externalRunnerError what)

/-- A response that is not sent is replaced by an error of its size. -/
theorem eq_or_status_of_sendReply {size : Sysadminctl.Response → ℕ} {r item : Sysadminctl.Response}
    (h : sendReply (send size) r = [item]) :
    item = r ∨ item.status = some .messageSizeError :=
  (OneofServer.eq_of_sendReply h).imp_right (congrArg Sysadminctl.Response.status)

theorem chain_result_of_value (h : r.result = some .value) : r.chain.result = some (.value ()) := by
  obtain ⟨_ | e, hresult, hr⟩ := Option.map_eq_some_iff.1 h
  · exact hresult
  · cases e <;> cases hr

theorem chain_result_of_externalRunnerError {what : String}
    (h : r.result = some (.externalRunnerError what)) :
    r.chain.result = some (.exception (.externalRunnerError what)) := by
  obtain ⟨_ | e, hresult, hr⟩ := Option.map_eq_some_iff.1 h
  · cases hr
  · cases e with
    | externalRunnerError what' => rwa [← HookResult.externalRunnerError.inj hr]
    | futureSubprocessError | brokenPromise => cases hr

theorem Accounted.honest {size : Sysadminctl.Response → ℕ}
    (h : s.Accounted setup (sendReply (send size))) (hn : s.runs[n]? = some (some r)) :
    s.Honest setup n r := by
  obtain ⟨hpipeline, hrun⟩ := h.isRunOf n r hn
  obtain ⟨results, hdelivered, hresults⟩ := h.delivered
  have hran := hrun.ranHooks (runs_of_pipeline hpipeline)
  have hstarted : ∀ p ∈ r.chain.started,
      p.2 ∈ setup.manager.table.hooks ∧ r.cause.Calls p.2 := fun p hp =>
    (mem_all_iff hpipeline).1 (hran.scheduled.inOrder.subset (List.mem_map_of_mem hp))
  -- what has been written for the command, if it is not about its size
  have hitem : ∀ w ∈ s.server.written, w.number = n → w.item.status ≠ some .messageSizeError →
      ∃ (c : ServedCommand) (result : HookResult), Answering c.response ∧ r.result = some result ∧
        c.response result = .value (some w.item) := by
    rintro w hw rfl hstatus
    obtain ⟨c, r', hc, result, hresult, hr', hwrite⟩ :=
      hdelivered.written w hw _ _ (hresults w.number r hn)
    obtain rfl := (eq_or_status_of_sendReply hwrite).resolve_right hstatus
    exact ⟨c, result, h.answering w.number r c hn hc, hresult, hr'⟩
  refine ⟨hran, ?_, hstarted, ?_, ?_, ?_, ?_⟩
  · exact (runs_of_pipeline hpipeline).nodup_all.sublist hran.scheduled.inOrder.sublist
  · rintro hnone w hw rfl
    obtain ⟨-, -, -, result, hresult, -⟩ :=
      hdelivered.written w hw _ _ (hresults w.number r hn)
    rw [hnone] at hresult
    cases hresult
  · intro result c hresult hother hc hopen
    have hvalue : ∃ r', c.response result = .value (some r') := by
      have hanswering := h.answering n r c hn hc
      cases result with
      | value => exact hanswering.value.imp fun _ h => h.1
      | externalRunnerError what => exact (hanswering.externalRunnerError what).imp fun _ h => h.1
      | otherException => exact absurd rfl hother
    obtain ⟨r', hr'⟩ := hvalue
    exact hdelivered.answered n c _ result _ (hresult ▸ hresults n r hn) hc hopen hr'
  · intro w hw hnumber hstatus hook hhook hcalls
    obtain ⟨c, result, hanswering, hresult, hr'⟩ := hitem w hw hnumber (by simp [hstatus])
    have hsucceeded : r.chain.result = some (.value ()) := by
      cases result with
      | value => exact chain_result_of_value hresult
      | externalRunnerError what =>
        obtain ⟨r'', hr'', hstatus'⟩ := hanswering.externalRunnerError what
        obtain rfl : w.item = r'' := by simpa [hr'] using hr''
        rw [hstatus] at hstatus'
        cases hstatus'
      | otherException =>
        obtain ⟨e, he⟩ := hanswering.otherException
        cases hr'.symm.trans he
    have hperm := (hran.scheduled.succeeded (by rw [Chains.Chain.progress, hsucceeded]; rfl)).2
    exact hran.succeeded hook (hperm.mem_iff.2 ((mem_all_iff hpipeline).2 ⟨hhook, hcalls⟩))
  · intro w hw hnumber hstatus
    obtain ⟨c, result, hanswering, hresult, hr'⟩ := hitem w hw hnumber (by simp [hstatus])
    cases result with
    | value =>
      obtain ⟨r'', hr'', hstatus'⟩ := hanswering.value
      obtain rfl : w.item = r'' := by simpa [hr'] using hr''
      rw [hstatus] at hstatus'
      cases hstatus'
    | externalRunnerError what =>
      obtain ⟨hook, hfailed⟩ := hran.failed _ (chain_result_of_externalRunnerError hresult)
      obtain ⟨sysadmin, hmem, hwhy⟩ := hfailed
      obtain ⟨hhook, hcalls⟩ := hstarted _ hmem
      exact ⟨hook, hhook, hcalls, what, sysadmin, hmem, hwhy⟩
    | otherException =>
      obtain ⟨e, he⟩ := hanswering.otherException
      cases hr'.symm.trans he

/-- In all states, whatever happens, the answers to commands tell what has become of their hooks. -/
theorem honest_run {size : Sysadminctl.Response → ℕ}
    (hsize : ∀ id, size (statusResponse id .messageSizeError) ≤ UInt32.size - 1)
    (setup : HookSetup) (d : Daemon) (es : List HookedEvent) :
    Always (step setup (sendReply (send size)))
      (fun s => ∀ n r, s.runs[n]? = some (some r) → s.Honest setup n r) (start d) es := by
  have hrun : Always (step setup (sendReply (send size)))
      (Accounted setup (sendReply (send size))) (start d) es :=
    Always.of_step _ (G := fun _ _ => True) (accounted_start d)
      (fun _ _ h _ => h.step (OneofServer.writesOne_sendReply hsize))
      (guarded_of_forall fun _ _ => trivial)
  exact hrun.mono fun s hs n r hn => hs.honest hn

/-- A client sets a key, and commits it; the process of the service for the key ends. -/
theorem honest_run_mtu :
    let setup := HookSetup.ofService "mtu" "net.mtu"
    Always (step setup (sendReply (send Callees.headerSize)))
      (fun s => ∀ n r, s.runs[n]? = some (some r) → s.Honest setup n r) (start (.onEmpty 3))
      [.connect 5,
        .message 0 ⟨some (.set "net.mtu" (some ⟨some (.int32val 1500)⟩)), 1, none⟩ ⟨0, true⟩,
        .message 0 ⟨some (.commit none), 2, none⟩ ⟨0, true⟩,
        .ends 1 ⟨"mtu", .service, [⟨.ofString "net.mtu", false⟩], 1⟩ (.exited 0)] :=
  honest_run (fun id => Callees.headerSize_le id .messageSizeError) _ _ _

/-! ## The server without its processes -/

/-- The surroundings of the commands that have come. -/
def Extends (surroundings : ℕ → Surroundings) (found : List Surroundings) : Prop :=
  ∀ (n : ℕ) around, found[n]? = some around → surroundings n = around

theorem extends_concat {surroundings : ℕ → Surroundings} {found : List Surroundings}
    {around : Surroundings} : Extends surroundings (found ++ [around]) ↔
      Extends surroundings found ∧ surroundings found.length = around := by
  simp only [Extends, getElem?_concat_eq_some]
  exact ⟨fun h => ⟨fun n a hn => h n a (.inl hn), h _ _ (.inr ⟨rfl, rfl⟩)⟩,
    fun h n a hn => hn.elim (h.1 n a) (by rintro ⟨rfl, rfl⟩; exact h.2)⟩

/-- The server has come so far in a run without processes, whatever the commands find that are
    still to come. -/
def SimulatedBy (write : Sysadminctl.Response → List Sysadminctl.Response) (d : Daemon)
    (es : List OneofEvent) (found : List Surroundings) (s : HookedServer) : Prop :=
  found.length = s.server.commands.length ∧ ∀ surroundings, Extends surroundings found →
    run (OneofServer.step write surroundings) (.start d) es = s.server

/-- Only what a command itself finds matters to it. -/
theorem handleMessage_congr {server : OneofServer Sysadminctl.Response}
    {surroundings surroundings' : ℕ → Surroundings}
    (h : surroundings server.commands.length = surroundings' server.commands.length) :
    server.handleMessage write surroundings conn m =
      server.handleMessage write surroundings' conn m := by
  rw [OneofServer.handleMessage, OneofServer.handleMessage]
  dsimp only
  rw [h]

variable (setup) in
/-- What an event is for the server without processes. That a process ends is seen only if the hooks
    of its command are done with it. -/
def oneofEvents (s : HookedServer) : HookedEvent → List OneofEvent
  | .connect id => [.connect id]
  | .disconnect serial => [.disconnect serial]
  | .message serial m _ => [.message serial m]
  | .ends number hook how =>
    match s.runs[number]? with
    | some (some r) =>
      let r' := { r with chain := setup.ends r.chain ⟨s.server.daemon.conf, hook, how⟩ }
      match r.result, r'.result with
      | none, some result => [.complete r.awaited result]
      | none, none | some _, _ => []
    | some none | none => []

variable (setup) in
/-- What a command finds that comes with an event. -/
def surroundingsOf (s : HookedServer) : HookedEvent → List Surroundings
  | .message serial m env =>
    match s.server.connections.find? fun conn => conn.serial = serial with
    | none => []
    | some conn =>
      [around setup m env (setup.startRun s.server.daemon env conn.id m s.server.commands.length)]
  | .connect _ | .disconnect _ | .ends .. => []

/-- An event does what it is for the server without processes. -/
theorem SimulatedBy.step {d : Daemon} {es : List OneofEvent} {found : List Surroundings}
    (h : SimulatedBy write d es found s) (setup : HookSetup) (e : HookedEvent) :
    SimulatedBy write d (es ++ s.oneofEvents setup e) (found ++ s.surroundingsOf setup e)
      (s.step setup write e) := by
  obtain ⟨hlen, hrun⟩ := h
  -- An event with which no command comes leaves what has been found as it is.
  have hnone : ∀ {es' : List OneofEvent} {s' : HookedServer},
      s'.server.commands.length = s.server.commands.length →
      (∀ surroundings, Machine.run (OneofServer.step write surroundings) s.server es' = s'.server) →
      SimulatedBy write d (es ++ es') (found ++ []) s' := by
    intro es' s' hcommands hserver
    refine ⟨by rw [List.append_nil, hcommands, hlen], fun surroundings hext => ?_⟩
    rw [List.append_nil] at hext
    rw [run_append, hrun surroundings hext, hserver]
  cases e with
  | connect id =>
    refine hnone ?_ fun _ => rfl
    rw [HookedServer.step, OneofServer.step]
    split <;> rfl
  | disconnect serial => exact hnone rfl fun _ => rfl
  | message serial m env =>
    rw [HookedServer.step, surroundingsOf, oneofEvents]
    split
    · next hconn =>
      refine hnone rfl fun _ => ?_
      rw [run_cons, run_nil, OneofServer.step, hconn]
    · next conn hconn =>
      rw [HookedServer.handleMessage]
      generalize setup.startRun s.server.daemon env conn.id m s.server.commands.length = new
      refine ⟨?_, fun surroundings hext => ?_⟩
      · rw [OneofServer.handleMessage_frame.2.2, List.length_append, List.length_append, hlen]
        rfl
      · obtain ⟨hfound, haround⟩ := extends_concat.1 hext
        rw [hlen] at haround
        have hcongr : s.server.handleMessage write surroundings conn m =
            s.server.handleMessage write (fun _ => around setup m env new) conn m :=
          handleMessage_congr haround
        rw [run_append, hrun surroundings hfound, run_cons, run_nil, OneofServer.step, hconn]
        exact hcongr
  | ends n hook how =>
    rw [HookedServer.step, HookedServer.ends, surroundingsOf, oneofEvents]
    split
    · dsimp only
      split <;> exact hnone rfl fun _ => rfl
    all_goals exact hnone rfl fun _ => rfl

/-- A run does what its events are for the server without processes. -/
theorem SimulatedBy.run {d : Daemon} {es : List OneofEvent} {found : List Surroundings}
    (h : SimulatedBy write d es found s) (setup : HookSetup) (es' : List HookedEvent) :
    SimulatedBy write d (es ++ history (HookedServer.step setup write) (oneofEvents setup) s es')
      (found ++ history (HookedServer.step setup write) (surroundingsOf setup) s es')
      (Machine.run (HookedServer.step setup write) s es') := by
  induction es' generalizing s es found with
  | nil => simpa [history] using h
  | cons e es' ih =>
    rw [history, history, ← List.append_assoc, ← List.append_assoc]
    exact ih (h.step setup e)

/-- What is done without processes by clients is what they do with them. -/
theorem filter_oneofEvents (setup : HookSetup) (s : HookedServer) (e : HookedEvent) :
    (s.oneofEvents setup e).filter OneofEvent.isOfClient = e.ofClient.toList := by
  cases e with
  | connect | disconnect | message => rfl
  | ends n hook how =>
    rw [oneofEvents]
    split
    · dsimp only
      split <;> rfl
    all_goals rfl

theorem filter_history (setup : HookSetup)
    (write : Sysadminctl.Response → List Sysadminctl.Response) (s : HookedServer)
    (es : List HookedEvent) :
    (history (step setup write) (oneofEvents setup) s es).filter OneofEvent.isOfClient =
      es.filterMap HookedEvent.ofClient := by
  induction es generalizing s with
  | nil => rfl
  | cons e es ih =>
    rw [history, List.filter_append, filter_oneofEvents, ih, List.filterMap_cons]
    cases e.ofClient <;> rfl

/-- The server with its processes does at all times what the server without them does, for the same
    clients, with some results of hooks at some times. -/
theorem exists_oneof_run (setup : HookSetup)
    (write : Sysadminctl.Response → List Sysadminctl.Response) (d : Daemon)
    (es : List HookedEvent) :
    ∃ surroundings, ∀ es₁, es₁ <+: es →
      (history (step setup write) (oneofEvents setup) (start d) es₁).filter OneofEvent.isOfClient =
        es₁.filterMap HookedEvent.ofClient ∧
      (run (step setup write) (start d) es₁).server =
        run (OneofServer.step write surroundings) (.start d)
          (history (step setup write) (oneofEvents setup) (start d) es₁) := by
  have hstart : SimulatedBy write d [] [] (start d) := ⟨rfl, fun _ _ => rfl⟩
  -- What commands find is taken from the whole run, and a part of it finds the same.
  refine ⟨fun n => ((history (step setup write) (surroundingsOf setup) (start d) es)[n]?).getD
    .quiet, ?_⟩
  rintro es₁ ⟨es₂, rfl⟩
  refine ⟨filter_history setup write _ es₁, ((hstart.run setup es₁).2 _ fun n around hn => ?_).symm⟩
  rw [List.nil_append] at hn
  rw [history_append, List.getElem?_append_left (List.getElem?_eq_some_iff.1 hn).1, hn]
  rfl

end HookedServer

end SysAdmin
