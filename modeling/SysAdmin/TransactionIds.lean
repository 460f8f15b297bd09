import SysAdmin.Replies

/-!
# Transaction ids

A command may carry a transaction id, which stands for the client in the place of the
connection. Each handler looks at it by itself: setting, committing, dropping, erasing and
asking for what is staged do, and a reset does not.

The controller handles commands over any connections, and the completions of hooks; what it has
answered is kept with the number of each command. Handlers that wait for the hooks of a commit
answer when these complete (`Awaited`).

Commands with the same transaction id do what they do without it over one connection of this id,
if the resets among them come over such a connection (`run_withoutXid`).
-/

namespace SysAdmin

open Machine Futures SysAdminController Configurator

/-- What the calls of the hook manager come to for a command. -/
structure HookAnswers where
  runHooks : Call Exception Unit
  triggerHook : Call Exception Bool
  dumpHooks : Except Exception (List String × List String)

/-- What a commit comes to, when its hooks complete, if it runs any. -/
def CommitOutcome.future (c : Configurator) (clientId : ClientId) (result : HookResult) :
    CommitOutcome → Call Exception CommitId
  | .threw => .threw .other
  | .ready commitId => .future (.value commitId)
  | .hooks _ _ commitId => .future (c.completeHooks clientId commitId result).2.completion

/-- What a rollback comes to. One that does not end is not answered. -/
def Configurator.rollbackFuture (c : Configurator) (env : Environment) (commitId : CommitId)
    (result : HookResult) : Call Exception Unit :=
  match c.rollback env commitId with
  | (_, .rollbackError what) => .future (.exception (.rollbackError what))
  | (_, .diverges) => .threw .other
  | (c, .commit outcome) =>
    (outcome.future c TransactionManager.TRANSACTION_HISTORY_ID result).thenValue fun _ => ()

namespace Daemon

/-- What the calls of the handlers come to in a state of the daemon, if hooks that they start
    complete with a result. -/
def callees (s : Daemon) (env : Environment) (hooks : HookAnswers) (result : HookResult) :
    Callees where
  set item clientId := .ok (s.conf.set item clientId).2
  get key := .ok (s.conf.get key)
  getAllKeys ns := .ok (s.conf.getAllKeys ns)
  erase _ _ := .ok ()
  drop _ := .ok ()
  inFlightItems clientId := .ok (s.conf.inFlightItems.staged clientId)
  commit clientId configOpt := s.conf.commitFuture env clientId configOpt result
  rollback commitId := s.conf.rollbackFuture env commitId result
  blame key := .ok (s.conf.commitHistory.commitHistory.blame key)
  hookManager := some ⟨hooks.runHooks, fun _ => hooks.triggerHook, hooks.dumpHooks⟩

/-- The future of a reset, whose calls depend on what it has staged before. -/
def resetFuture (s : Daemon) (env : Environment) (clientId : ClientId) (id : UInt32)
    (result : HookResult) : Call Exception ResponseType :=
  match resetHandler s.conf env clientId with
  | (_, .typeMismatch) => makeFuture (statusResponse id .typeMismatch)
  | (c, .commit outcome) =>
    ((outcome.future c clientId result).thenValue fun commitId =>
      some (resetCommitResponse id .success commitId)).thenError
        (onCommitError (resetCommitResponse id .externalProcessError))

/-- What the future of the handler of a command completes with. -/
def response (s : Daemon) (env : Environment) (hooks : HookAnswers) (clientId : ClientId)
    (m : Sysadminctl.Command) (result : HookResult) : Completion Exception ResponseType :=
  match m.payload with
  | some .reset => (s.resetFuture env clientId m.id result).makeFutureWith
  | _ => (s.callees env hooks result).dispatch clientId m

end Daemon

/-- A command whose handler waits for hooks, and what it answers when they complete. -/
structure Awaited where
  ticket : ℕ
  number : ℕ
  response : HookResult → Completion Exception ResponseType

/-- The daemon, the commands that are not answered yet, the number of commands so far and the
    responses to them. -/
structure Controller where
  daemon : Daemon
  awaiting : List Awaited
  received : ℕ
  responses : List (ℕ × Sysadminctl.Response)

/-- A command over a connection, or the completion of hooks. -/
inductive ControllerEvent
  | command (env : Environment) (hooks : HookAnswers) (clientId : ClientId)
      (m : Sysadminctl.Command)
  | complete (ticket : ℕ) (result : HookResult)

namespace Controller

/-- The response of a future, if it completes with one. -/
def answer (number : ℕ) : Completion Exception ResponseType → List (ℕ × Sysadminctl.Response)
  | .value (some response) => [(number, response)]
  | .value none | .exception _ => []

/-- Handles a command. Where it does not wait for hooks, these do not matter to its response. -/
def command (c : Controller) (env : Environment) (hooks : HookAnswers) (clientId : ClientId)
    (m : Sysadminctl.Command) : Controller :=
  let daemon := c.daemon.request env clientId m
  let response := c.daemon.response env hooks clientId m
  if daemon.nextTicket = c.daemon.nextTicket then
    { c with
      daemon
      received := c.received + 1
      responses := c.responses ++ answer c.received (response .otherException) }
  else
    { c with
      daemon
      awaiting := c.awaiting ++ [⟨c.daemon.nextTicket, c.received, response⟩]
      received := c.received + 1 }

/-- Hooks complete. -/
def complete (c : Controller) (ticket : ℕ) (result : HookResult) : Controller :=
  let waiting := c.awaiting.filter fun a => a.ticket = ticket
  { c with
    daemon := c.daemon.step (.complete ticket result)
    awaiting := c.awaiting.filter fun a => a.ticket ≠ ticket
    responses := c.responses ++ waiting.flatMap fun a => answer a.number (a.response result) }

/-- Handles one event. -/
def step (c : Controller) : ControllerEvent → Controller
  | .command env hooks clientId m => c.command env hooks clientId m
  | .complete ticket result => c.complete ticket result

/-- A controller that has not handled anything. -/
def start (daemon : Daemon) : Controller := ⟨daemon, [], 0, []⟩

end Controller

namespace ControllerEvent

/-- Commands carry the transaction id. -/
def Carries (x : UInt32) : ControllerEvent → Prop
  | command _ _ _ m => m.xid = some x
  | complete .. => True

/-- Resets come over the connection of the transaction id. -/
def ResetsOver (x : UInt32) : ControllerEvent → Prop
  | command _ _ clientId m => m.payload = some .reset → clientId = x.toNat
  | complete .. => True

/-- The same without the transaction id, over the connection of this id. -/
def withoutXid (x : UInt32) : ControllerEvent → ControllerEvent
  | command env hooks _ m => command env hooks x.toNat { m with xid := none }
  | complete ticket result => complete ticket result

end ControllerEvent

open ControllerEvent

variable {x : UInt32} {m : Sysadminctl.Command} {clientId : ClientId} {env : Environment}
  {hooks : HookAnswers} {result : HookResult} {s : Daemon} {c : Controller}

theorem clientOf_of_carries (h : m.xid = some x) : clientOf m clientId = x.toNat := by
  rw [clientOf, h]
  rfl

/-- The handlers of the daemon do the same. -/
theorem Daemon.request_withoutXid (h : m.xid = some x)
    (hreset : m.payload = some .reset → clientId = x.toNat) :
    s.request env clientId m = s.request env x.toNat { m with xid := none } := by
  rw [request, request, clientOf_of_carries h]
  rcases hm : m.payload with _ | payload
  · rfl
  · cases payload with
    | reset => rw [hreset hm]
    | set | commit | drop | erase | rollback | get | firehooks | dump | trigger | blame
    | inflight => rfl

/-- And they answer the same. -/
theorem Daemon.response_withoutXid (h : m.xid = some x)
    (hreset : m.payload = some .reset → clientId = x.toNat) :
    s.response env hooks clientId m = s.response env hooks x.toNat { m with xid := none } := by
  funext result
  rw [response, response, Callees.dispatch, Callees.dispatch]
  rcases hm : m.payload with _ | payload
  · rfl
  · cases payload with
    | reset => rw [hreset hm]
    | set | commit | drop | erase | inflight =>
      simp only [Callees.handler, clientOf_of_carries h]
      rfl
    | rollback | get | firehooks | dump | trigger | blame => rfl

namespace Controller

theorem step_withoutXid {e : ControllerEvent} (h : e.Carries x) (hreset : e.ResetsOver x) :
    c.step e = c.step (e.withoutXid x) := by
  cases e with
  | command env hooks clientId m =>
    rw [withoutXid, step, step, command, command, Daemon.request_withoutXid h hreset,
      Daemon.response_withoutXid h hreset]
  | complete ticket result => rfl

/-- Commands that all carry one transaction id have the same responses, and leave the same
    store, history and buckets, as without it over one connection of this id, if those of them
    that reset come over such a connection anyway. -/
theorem run_withoutXid {es : List ControllerEvent} (h : ∀ e ∈ es, e.Carries x)
    (hreset : ∀ e ∈ es, e.ResetsOver x) :
    run step c es = run step c (es.map (withoutXid x)) := by
  induction es generalizing c with
  | nil => rfl
  | cons e es ih =>
    rw [List.forall_mem_cons] at h hreset
    rw [run_cons, List.map_cons, run_cons, ih h.2 hreset.2, step_withoutXid h.1 hreset.1]

/-- No hooks. -/
def noHooks : HookAnswers := ⟨.future (.value ()), .future (.value false), .ok ([], [])⟩

/-- A command with the transaction id 1. -/
def withXid (clientId : ClientId) (id : UInt32) (payload : Sysadminctl.Payload) :
    ControllerEvent := .command ⟨0, true⟩ noHooks clientId ⟨some payload, id, some 1⟩

/-- Sets the key a, with the transaction id 1. -/
def setA (clientId : ClientId) (id : UInt32) : ControllerEvent :=
  withXid clientId id (.set "a" (some ⟨some (.int32val 1)⟩))

/-- The reset comes over the connection 1, and the others do not. -/
theorem run_withoutXid_reset :
    run step (start (.onEmpty 3)) [setA 5 1, withXid 7 2 .inflight, withXid 1 3 .reset] =
      run step (start (.onEmpty 3))
        ([setA 5 1, withXid 7 2 .inflight, withXid 1 3 .reset].map (withoutXid 1)) :=
  run_withoutXid (by simp [setA, withXid, Carries]) (by simp [setA, withXid, ResetsOver])

/-- Where the reset comes over the connection 5, what has been staged is not committed. -/
theorem not_run_withoutXid_reset :
    run step (start (.onEmpty 3)) [setA 5 1, withXid 5 2 .reset] ≠
      run step (start (.onEmpty 3)) ([setA 5 1, withXid 5 2 .reset].map (withoutXid 1)) := by
  intro h
  have hstore := congrArg (fun c => c.daemon.conf.store (.ofString "a")) h
  revert hstore
  decide

end Controller

end SysAdmin
