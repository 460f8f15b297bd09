import Mathlib.Data.List.Flatten
import Mathlib.Data.List.Perm.Subperm
import SysAdmin.Connections
import SysAdmin.TransactionIds

/-!
# Replies over connections

The server has a protocol object for each connection, and hands each command that it reads to the
dispatcher (`OneofServer.handleMessage`). The future of the handler is ready at once, or when
hooks have completed. Then its response is written to the connection, if that is still there.

The server keeps all commands (`ServedCommand`) with the serial numbers of their connections, with
which result of the hooks the futures of their handlers have completed, and what has been written
for which of them (`Written`). What is written for a response is a parameter, `write`: here it is
the response, or an error in its place (`sendReply`).

* `Orderly`: each command that has come over a connection which is still there waits for its
  hooks, or its future has completed once, and then it has been answered once, with its id and with
  what its handler makes of the result that has come, or this is an exception;
* `orderly_run`: this holds in all states;
* `writtenOn_of_gone`: nothing is written to a connection that is gone.
-/

namespace SysAdmin

open Machine Futures SysAdminController

/-- What a command finds around the daemon: the environment of a commit, what the calls of the
    hook manager come to with a result of the hooks, and this result, if it is there when the
    handler returns. -/
structure Surroundings where
  env : Environment
  hooks : HookResult → HookAnswers
  done : Option HookResult

/-- No hooks. -/
def Surroundings.quiet : Surroundings := ⟨⟨0, true⟩, fun _ => Controller.noHooks, none⟩

/-- What a reply waits for: the hooks of a commit, or those that the command itself runs. -/
inductive AwaitedHooks
  | commit (ticket : ℕ)
  | command (number : ℕ)
  deriving DecidableEq

/-- A command, the serial number of its connection, and what the future of its handler completes
    with when the hooks do. -/
structure ServedCommand where
  serial : ℕ
  message : Sysadminctl.Command
  response : HookResult → Completion Exception ResponseType

/-- A command that is not answered yet, as it waits for hooks. -/
structure AwaitedReply where
  hooks : AwaitedHooks
  number : ℕ
  command : ServedCommand

/-- What has been written for a command. -/
structure Written (ω : Type) where
  serial : ℕ
  number : ℕ
  item : ω

/-- The daemon behind its connections. Of each command whose future has completed, the number is
    kept with the result of the hooks that has come. -/
structure OneofServer (ω : Type) where
  daemon : Daemon
  connections : List Connection
  nextSerial : ℕ
  commands : List ServedCommand
  awaiting : List AwaitedReply
  written : List (Written ω)
  completed : List (ℕ × HookResult)

/-- What happens to the server. -/
inductive OneofEvent
  | connect (id : ClientId)
  | disconnect (serial : ℕ)
  | message (serial : ℕ) (m : Sysadminctl.Command)
  | complete (hooks : AwaitedHooks) (result : HookResult)

/-- Sends a response, and an error in its place where it cannot be sent. -/
def sendReply {ε ω : Type} (send : Sysadminctl.Response → Except ε (List ω))
    (message : Sysadminctl.Response) : List ω :=
  match send message with
  | .ok items => items
  | .error _ =>
    match send (statusResponse (message.id.getD 0) .messageSizeError) with
    | .ok items => items
    | .error _ => []

/-- What the future of the handler of a command waits for, if it is not ready. -/
def Daemon.awaited (s : Daemon) (surroundings : Surroundings) (clientId : ClientId)
    (m : Sysadminctl.Command) (number : ℕ) : Option AwaitedHooks :=
  if (s.request surroundings.env clientId m).nextTicket ≠ s.nextTicket then
    some (.commit s.nextTicket)
  else
    match m.payload with
    | some .firehooks | some (.trigger _) => some (.command number)
    | some (.set ..) | some (.get _) | some (.commit _) | some .drop | some (.erase _)
    | some (.rollback _) | some .reset | some .dump | some (.blame _) | some .inflight | none =>
      none

/-- A command, and what its handler answers. -/
def Daemon.served (s : Daemon) (around : Surroundings) (conn : Connection)
    (m : Sysadminctl.Command) : ServedCommand :=
  ⟨conn.serial, m, fun result => s.response around.env (around.hooks result) conn.id m result⟩

/-- All responses have the id of the command. -/
theorem Daemon.hasId_response {s : Daemon} {env : Environment} {hooks : HookAnswers}
    {clientId : ClientId} {m : Sysadminctl.Command} {result : HookResult} {o : ResponseType}
    (h : s.response env hooks clientId m result = .value o) : HasId m.id o := by
  have hyields : ∀ payload, m.payload = some payload →
      (s.callees env hooks result).dispatch clientId m = .value o → HasId m.id o := by
    intro payload hm h
    rw [Callees.dispatch, hm] at h
    exact (Callees.yields_handler _ _ _ _).of_value h
  rw [response] at h
  rcases hm : m.payload with _ | payload
  · rw [hm, Callees.dispatch, hm] at h
    cases h
  · cases payload with
    | reset =>
      rw [hm] at h
      refine Call.Yields.of_value ?_ h
      rw [resetFuture]
      split
      · exact hasId_statusResponse
      · exact (Call.yields_thenValue fun _ => ⟨_, rfl, rfl⟩).thenError
          (hasId_of_onCommitError fun _ => rfl)
    | set | get | commit | drop | firehooks | erase | rollback | dump | trigger | blame
    | inflight =>
      rw [hm] at h
      exact hyields _ hm h

theorem Daemon.hasId_served {s : Daemon} {around : Surroundings} {conn : Connection}
    {m : Sysadminctl.Command} (result : HookResult) (o : ResponseType)
    (h : (s.served around conn m).response result = .value o) :
    HasId (s.served around conn m).message.id o := hasId_response h

namespace OneofServer

section

variable {ω : Type} (write : Sysadminctl.Response → List ω) (surroundings : ℕ → Surroundings)

/-- A server without connections. -/
def start (daemon : Daemon) : OneofServer ω := ⟨daemon, [], 0, [], [], [], []⟩

/-- The connection is there. -/
def Open (s : OneofServer ω) (serial : ℕ) : Prop := serial ∈ s.connections.map Connection.serial

instance (s : OneofServer ω) (serial : ℕ) : Decidable (s.Open serial) :=
  inferInstanceAs (Decidable (_ ∈ _))

/-- What is written for a command when the future of its handler completes: nothing, if that is
    with an exception. -/
def reply (connections : List Connection) (number : ℕ) (c : ServedCommand) (result : HookResult) :
    List (Written ω) :=
  match c.response result with
  | .value (some message) =>
    if c.serial ∈ connections.map Connection.serial then
      (write message).map (⟨c.serial, number, ·⟩)
    else []
  | .value none | .exception _ => []

/-- Hooks complete. -/
def complete (s : OneofServer ω) (hooks : AwaitedHooks) (result : HookResult) : OneofServer ω :=
  { s with
    daemon := match hooks with
      | .commit ticket => s.daemon.step (.complete ticket result)
      | .command _ => s.daemon
    awaiting := s.awaiting.filter fun a => a.hooks ≠ hooks
    written := s.written ++ (s.awaiting.filter fun a => a.hooks = hooks).flatMap fun a =>
      reply write s.connections a.number a.command result
    completed := s.completed ++ (s.awaiting.filter fun a => a.hooks = hooks).map fun a =>
      (a.number, result) }

/-- A command comes over a connection. The response of a handler that does not wait for hooks
    does not depend on them. -/
def handleMessage (s : OneofServer ω) (conn : Connection) (m : Sysadminctl.Command) :
    OneofServer ω :=
  let number := s.commands.length
  let around := surroundings number
  let c := s.daemon.served around conn m
  let daemon := s.daemon.request around.env conn.id m
  match s.daemon.awaited around conn.id m number with
  | none =>
    { s with
      daemon
      commands := s.commands ++ [c]
      written := s.written ++ reply write s.connections number c .otherException
      completed := s.completed ++ [(number, .otherException)] }
  | some hooks =>
    let s' : OneofServer ω :=
      { s with
        daemon
        commands := s.commands ++ [c]
        awaiting := s.awaiting ++ [⟨hooks, number, c⟩] }
    match around.done with
    | none => s'
    | some result => s'.complete write hooks result

/-- Handles one event. An object that is alive has its address for itself, and commands come
    over connections that are there. -/
def step (s : OneofServer ω) : OneofEvent → OneofServer ω
  | .connect id =>
    if id ∈ s.connections.map Connection.id then s
    else { s with
      connections := s.connections ++ [⟨s.nextSerial, id⟩]
      nextSerial := s.nextSerial + 1 }
  | .disconnect serial =>
    { s with connections := s.connections.filter fun conn => conn.serial ≠ serial }
  | .message serial m =>
    match s.connections.find? fun conn => conn.serial = serial with
    | none => s
    | some conn => s.handleMessage write surroundings conn m
  | .complete hooks result => s.complete write hooks result

end

/-! ## Each command is answered once -/

/-- What is written for a response with an id is one response, with this id. -/
def WritesOne (write : Sysadminctl.Response → List Sysadminctl.Response) : Prop :=
  ∀ r id, r.id = some id → ∃ r', write r = [r'] ∧ r'.id = some id

/-- What is written has been made of the response of the handler of its command for the result with
    which the future has completed, and has the id of the command. -/
def Answers (write : Sysadminctl.Response → List Sysadminctl.Response)
    (completed : List (ℕ × HookResult)) (w : Written Sysadminctl.Response) (c : ServedCommand) :
    Prop :=
  w.serial = c.serial ∧ w.item.id = some c.message.id ∧
    ∃ result r, (w.number, result) ∈ completed ∧ c.response result = .value (some r) ∧
      write r = [w.item]

/-- Each command waits for its hooks, or its future has completed once. If its connection is still
    there, it has been answered once then, with its response for the result that has come, or the
    future has completed with an exception for this result. -/
structure Orderly (write : Sysadminctl.Response → List Sysadminctl.Response)
    (s : OneofServer Sysadminctl.Response) : Prop where
  nodup_serials : (s.connections.map Connection.serial).Nodup
  serial_lt : ∀ conn ∈ s.connections, conn.serial < s.nextSerial
  command_lt : ∀ c ∈ s.commands, c.serial < s.nextSerial
  hasId : ∀ c ∈ s.commands, ∀ result o, c.response result = .value o → HasId c.message.id o
  awaiting_get : ∀ a ∈ s.awaiting, s.commands[a.number]? = some a.command
  nodup_awaiting : (s.awaiting.map AwaitedReply.number).Nodup
  completed_lt : ∀ r ∈ s.completed, r.1 < s.commands.length
  nodup_completed : (s.completed.map Prod.fst).Nodup
  awaiting_ne : ∀ a ∈ s.awaiting, ∀ r ∈ s.completed, a.number ≠ r.1
  written_get : ∀ w ∈ s.written, ∃ c, s.commands[w.number]? = some c ∧
    Answers write s.completed w c
  nodup_written : (s.written.map Written.number).Nodup
  served : ∀ n c, s.commands[n]? = some c → (∃ a ∈ s.awaiting, a.number = n) ∨
    ∃ result, (n, result) ∈ s.completed ∧ (s.Open c.serial →
      (∃ w ∈ s.written, w.number = n) ∨ ∃ e, c.response result = .exception e)

section orderly

variable {write : Sysadminctl.Response → List Sysadminctl.Response}
  {surroundings : ℕ → Surroundings} {s : OneofServer Sysadminctl.Response} {d : Daemon}
  {c : ServedCommand} {e : OneofEvent}

theorem orderly_start : (start d).Orderly write where
  nodup_serials := List.nodup_nil
  serial_lt _ h := absurd h List.not_mem_nil
  command_lt _ h := absurd h List.not_mem_nil
  hasId _ h := absurd h List.not_mem_nil
  awaiting_get _ h := absurd h List.not_mem_nil
  nodup_awaiting := List.nodup_nil
  completed_lt _ h := absurd h List.not_mem_nil
  nodup_completed := List.nodup_nil
  awaiting_ne _ h := absurd h List.not_mem_nil
  written_get _ h := absurd h List.not_mem_nil
  nodup_written := List.nodup_nil
  served _ _ h := by cases h

/-- A command that comes is added to those that wait. -/
theorem Orderly.await (h : s.Orderly write) (hooks : AwaitedHooks) (hlt : c.serial < s.nextSerial)
    (hid : ∀ result o, c.response result = .value o → HasId c.message.id o) :
    ({ s with
      daemon := d
      commands := s.commands ++ [c]
      awaiting := s.awaiting ++ [⟨hooks, s.commands.length, c⟩] } :
      OneofServer Sysadminctl.Response).Orderly write := by
  have hget : ∀ (n : ℕ) c', s.commands[n]? = some c' → (s.commands ++ [c])[n]? = some c' := by
    intro n c' hn
    rw [List.getElem?_append_left (List.getElem?_eq_some_iff.1 hn).1, hn]
  have hnum : ∀ a ∈ s.awaiting, a.number < s.commands.length := fun a ha =>
    (List.getElem?_eq_some_iff.1 (h.awaiting_get a ha)).1
  refine ⟨h.nodup_serials, h.serial_lt, ?_, ?_, ?_, ?_, ?_, h.nodup_completed, ?_, ?_,
    h.nodup_written, ?_⟩
  · exact List.forall_mem_append.2 ⟨h.command_lt, by simpa using hlt⟩
  · exact List.forall_mem_append.2 ⟨h.hasId, by simpa using hid⟩
  · refine List.forall_mem_append.2 ⟨fun a ha => hget _ _ (h.awaiting_get a ha), ?_⟩
    simp
  · rw [List.map_append, List.nodup_append]
    refine ⟨h.nodup_awaiting, List.nodup_singleton _, fun n hn m hm hnm => ?_⟩
    obtain ⟨a, ha, rfl⟩ := List.mem_map.1 hn
    exact (hnum a ha).ne (hnm.trans (List.mem_singleton.1 hm))
  · intro r hr
    rw [List.length_append, List.length_singleton]
    exact (h.completed_lt r hr).trans (Nat.lt_succ_self _)
  · exact List.forall_mem_append.2 ⟨h.awaiting_ne, List.forall_mem_singleton.2 fun r hr =>
      (h.completed_lt r hr).ne'⟩
  · exact fun w hw => (h.written_get w hw).imp fun c' hc' => hc'.imp_left (hget _ _)
  · intro n c' hc'
    rw [List.getElem?_append] at hc'
    split at hc'
    · exact (h.served n c' hc').imp_left fun ⟨a, ha, hn⟩ => ⟨a, List.mem_append_left _ ha, hn⟩
    · refine .inl ⟨_, List.mem_append_right _ (List.mem_singleton_self _), ?_⟩
      have := (List.getElem?_eq_some_iff.1 hc').1
      rw [List.length_singleton] at this
      dsimp only
      omega

/-- What is written for a command is one response, if its connection is there, and its handler
    has not failed. -/
theorem reply_eq (hwrite : WritesOne write)
    (hid : ∀ result o, c.response result = .value o → HasId c.message.id o)
    (connections : List Connection) (n : ℕ) (result : HookResult) :
    reply write connections n c result = [] ∧
        (c.serial ∈ connections.map Connection.serial →
          ∃ e, c.response result = .exception e) ∨
      ∃ w, reply write connections n c result = [w] ∧ w.number = n ∧
        Answers write [(n, result)] w c := by
  rcases hc : c.response result with o | e
  · obtain ⟨r, rfl, hr⟩ := hid result o hc
    obtain ⟨r', hr', hid'⟩ := hwrite r _ hr
    by_cases hopen : c.serial ∈ connections.map Connection.serial
    · refine .inr ⟨⟨c.serial, n, r'⟩, ?_, rfl, rfl, hid', result, r, List.mem_singleton_self _, hc,
        hr'⟩
      rw [reply, hc]
      dsimp only
      rw [if_pos hopen, hr']
      rfl
    · refine .inl ⟨?_, fun h => absurd h hopen⟩
      rw [reply, hc]
      exact if_neg hopen
  · exact .inl ⟨by rw [reply, hc], fun _ => ⟨e, rfl⟩⟩

theorem Answers.mono {completed completed' : List (ℕ × HookResult)}
    {w : Written Sysadminctl.Response} (h : Answers write completed w c)
    (hsub : completed ⊆ completed') : Answers write completed' w c := by
  obtain ⟨hserial, hid, result, r, hcompleted, hr⟩ := h
  exact ⟨hserial, hid, result, r, hsub hcompleted, hr⟩

/-- Some of the commands that wait are answered. -/
theorem Orderly.answer (h : s.Orderly write) (hwrite : WritesOne write)
    (p : AwaitedReply → Bool) (result : HookResult) :
    ({ s with
      daemon := d
      awaiting := s.awaiting.filter fun a => !p a
      written := s.written ++ (s.awaiting.filter p).flatMap fun a =>
        reply write s.connections a.number a.command result
      completed := s.completed ++ (s.awaiting.filter p).map fun a => (a.number, result) } :
      OneofServer Sysadminctl.Response).Orderly write := by
  have hcases := fun a (ha : a ∈ s.awaiting) => reply_eq hwrite
    (h.hasId a.command (List.mem_of_getElem? (h.awaiting_get a ha))) s.connections a.number result
  have hnew : ∀ w ∈ (s.awaiting.filter p).flatMap (fun a =>
      reply write s.connections a.number a.command result),
      ∃ a ∈ s.awaiting, p a = true ∧ w.number = a.number ∧
        Answers write [(a.number, result)] w a.command := by
    intro w hw
    obtain ⟨a, ha, hw⟩ := List.mem_flatMap.1 hw
    obtain ⟨ha, hp⟩ := List.mem_filter.1 ha
    obtain ⟨hnil, _⟩ | ⟨w', hw', hn, hans⟩ := hcases a ha
    · rw [hnil] at hw
      cases hw
    · rw [hw', List.mem_singleton] at hw
      exact ⟨a, ha, hp, hw ▸ hn, hw ▸ hans⟩
  have hnodup : (((s.awaiting.filter p).flatMap fun a =>
      reply write s.connections a.number a.command result).map Written.number).Sublist
        ((s.awaiting.filter p).map AwaitedReply.number) := by
    rw [List.map_flatMap, List.map_eq_flatMap]
    refine List.Sublist.flatMap_right _ fun a ha => ?_
    obtain ⟨hnil, _⟩ | ⟨w, hw, hn, _⟩ := hcases a (List.mem_of_mem_filter ha)
    · rw [hnil]
      exact List.nil_sublist _
    · rw [hw, List.map_singleton, hn]
  have hnodupAnswered := h.nodup_awaiting.sublist
    ((List.filter_sublist (p := p) (l := s.awaiting)).map AwaitedReply.number)
  have hcompleted : ∀ a ∈ s.awaiting, p a = true → (a.number, result) ∈
      s.completed ++ (s.awaiting.filter p).map fun a => (a.number, result) := fun a ha hp =>
    List.mem_append_right _ (List.mem_map_of_mem (List.mem_filter.2 ⟨ha, hp⟩))
  refine ⟨h.nodup_serials, h.serial_lt, h.command_lt, h.hasId, ?_, ?_, ?_, ?_, ?_, ?_, ?_, ?_⟩
  · exact fun a ha => h.awaiting_get a (List.mem_of_mem_filter ha)
  · exact h.nodup_awaiting.sublist (List.filter_sublist.map _)
  · refine List.forall_mem_append.2 ⟨h.completed_lt, List.forall_mem_map.2 fun a ha => ?_⟩
    exact (List.getElem?_eq_some_iff.1 (h.awaiting_get a (List.mem_of_mem_filter ha))).1
  · rw [List.map_append, List.map_map, List.nodup_append]
    refine ⟨h.nodup_completed, hnodupAnswered, fun n hn m hm hnm => ?_⟩
    obtain ⟨r, hr, rfl⟩ := List.mem_map.1 hn
    obtain ⟨a, ha, rfl⟩ := List.mem_map.1 hm
    exact h.awaiting_ne a (List.mem_of_mem_filter ha) r hr hnm.symm
  · intro a ha
    obtain ⟨ha, hpa⟩ := List.mem_filter.1 ha
    refine List.forall_mem_append.2 ⟨h.awaiting_ne a ha, List.forall_mem_map.2 fun b hb hn => ?_⟩
    obtain ⟨hb, hpb⟩ := List.mem_filter.1 hb
    -- the number tells which of the replies has been awaited
    obtain rfl := List.inj_on_of_nodup_map h.nodup_awaiting ha hb hn
    simp [hpb] at hpa
  · refine List.forall_mem_append.2 ⟨fun w hw => ?_, fun w hw => ?_⟩
    · obtain ⟨c, hc, hans⟩ := h.written_get w hw
      exact ⟨c, hc, hans.mono (List.subset_append_left _ _)⟩
    · obtain ⟨a, ha, hpa, hn, hans⟩ := hnew w hw
      exact ⟨a.command, hn ▸ h.awaiting_get a ha,
        hans.mono (List.cons_subset.2 ⟨hcompleted a ha hpa, List.nil_subset _⟩)⟩
  · rw [List.map_append, List.nodup_append]
    refine ⟨h.nodup_written, hnodupAnswered.sublist hnodup, ?_⟩
    intro n hn m hm hnm
    obtain ⟨w, hw, rfl⟩ := List.mem_map.1 hn
    obtain ⟨w', hw', rfl⟩ := List.mem_map.1 hm
    obtain ⟨a, ha, _, hn', _⟩ := hnew w' hw'
    obtain ⟨_, _, _, _, _, _, hmem, _⟩ := h.written_get w hw
    exact h.awaiting_ne a ha _ hmem (hn'.symm.trans hnm.symm)
  · intro n c hc
    obtain ⟨a, ha, rfl⟩ | ⟨result', hmem, hserved⟩ := h.served n c hc
    · rcases hpa : p a with _ | _
      · exact .inl ⟨a, List.mem_filter.2 ⟨ha, by rw [hpa]; rfl⟩, rfl⟩
      · obtain rfl : a.command = c := Option.some.inj ((h.awaiting_get a ha).symm.trans hc)
        refine .inr ⟨result, hcompleted a ha hpa, fun hopen => ?_⟩
        obtain ⟨_, hfail⟩ | ⟨w, hw, hn, _⟩ := hcases a ha
        · exact .inr (hfail hopen)
        · refine .inl ⟨w, List.mem_append_right _ (List.mem_flatMap.2 ⟨a, ?_, ?_⟩), hn⟩
          · exact List.mem_filter.2 ⟨ha, hpa⟩
          · rw [hw]
            exact List.mem_singleton_self _
    · refine .inr ⟨result', List.mem_append_left _ hmem, fun hopen => ?_⟩
      exact (hserved hopen).imp_left fun ⟨w, hw, hn⟩ => ⟨w, List.mem_append_left _ hw, hn⟩

theorem Orderly.complete (h : s.Orderly write) (hwrite : WritesOne write) (hooks : AwaitedHooks)
    (result : HookResult) : (s.complete write hooks result).Orderly write := by
  have hp := h.answer hwrite (fun a => a.hooks = hooks) result
    (d := match hooks with
      | .commit ticket => s.daemon.step (.complete ticket result)
      | .command _ => s.daemon)
  simp only [← decide_not] at hp
  exact hp

/-- A command that is answered at once is the last of those that wait. -/
theorem Orderly.handleMessage (h : s.Orderly write) (hwrite : WritesOne write)
    {conn : Connection} (hconn : conn ∈ s.connections) (m : Sysadminctl.Command) :
    (s.handleMessage write surroundings conn m).Orderly write := by
  have hawait := fun d hooks => h.await (d := d) (c := s.daemon.served
    (surroundings s.commands.length) conn m) hooks (h.serial_lt conn hconn) Daemon.hasId_served
  rw [OneofServer.handleMessage]
  dsimp only
  split
  · -- Its number is new, so that none of those that wait is answered with it.
    have hlast : (s.awaiting.filter fun a => !decide (a.number = s.commands.length)) =
        s.awaiting ∧ (s.awaiting.filter fun a => decide (a.number = s.commands.length)) = [] := by
      have hne : ∀ a ∈ s.awaiting, a.number ≠ s.commands.length := fun a ha =>
        (List.getElem?_eq_some_iff.1 (h.awaiting_get a ha)).1.ne
      exact ⟨List.filter_eq_self.2 fun a ha => by simp [hne a ha],
        List.filter_eq_nil_iff.2 fun a ha => by simp [hne a ha]⟩
    have hp := (hawait (s.daemon.request (surroundings s.commands.length).env conn.id m)
      (.command s.commands.length)).answer hwrite (fun a => a.number = s.commands.length)
        .otherException (d := s.daemon.request (surroundings s.commands.length).env conn.id m)
    simp only [List.filter_append, List.filter_singleton, hlast, decide_true, Bool.not_true,
      List.nil_append, cond_true, cond_false, List.append_nil, List.flatMap_singleton,
      List.map_singleton] at hp
    exact hp
  · split
    · exact hawait _ _
    · exact (hawait _ _).complete hwrite _ _

theorem Orderly.step (h : s.Orderly write) (hwrite : WritesOne write) :
    (s.step write surroundings e).Orderly write := by
  cases e with
  | connect id =>
    rw [OneofServer.step]
    split
    · exact h
    · have hlt : ∀ conn ∈ s.connections ++ [⟨s.nextSerial, id⟩],
          conn.serial < s.nextSerial + 1 := by
        refine List.forall_mem_append.2 ⟨fun conn hconn => ?_, by simp⟩
        exact (h.serial_lt conn hconn).trans (Nat.lt_succ_self _)
      refine { h with
        nodup_serials := ?_
        serial_lt := hlt
        command_lt := fun c hc => (h.command_lt c hc).trans (Nat.lt_succ_self _)
        served := fun n c hc => (h.served n c hc).imp_right fun ⟨result, hmem, hserved⟩ =>
          ⟨result, hmem, fun hopen => hserved ?_⟩ }
      · rw [List.map_append, List.nodup_append]
        refine ⟨h.nodup_serials, List.nodup_singleton _, fun n hn m hm hnm => ?_⟩
        obtain ⟨conn, hconn, rfl⟩ := List.mem_map.1 hn
        exact (h.serial_lt conn hconn).ne (hnm.trans (List.mem_singleton.1 hm))
      · -- no command has come over the new connection
        rw [Open, List.map_append, List.mem_append] at hopen
        refine hopen.resolve_right fun hn => ?_
        exact (h.command_lt c (List.mem_of_getElem? hc)).ne (List.mem_singleton.1 hn)
  | disconnect serial =>
    have hsub : (s.connections.filter fun conn => conn.serial ≠ serial).Sublist s.connections :=
      List.filter_sublist
    exact { h with
      nodup_serials := h.nodup_serials.sublist (hsub.map _)
      serial_lt := fun conn hconn => h.serial_lt conn (hsub.subset hconn)
      served := fun n c hc => (h.served n c hc).imp_right fun ⟨result, hmem, hserved⟩ =>
        ⟨result, hmem, fun hopen => hserved ((hsub.map _).subset hopen)⟩ }
  | message serial m =>
    rw [OneofServer.step]
    split
    · exact h
    · next conn hconn => exact h.handleMessage hwrite (List.mem_of_find?_eq_some hconn) m
  | complete hooks result => exact h.complete hwrite hooks result

theorem Orderly.run (h : s.Orderly write) (hwrite : WritesOne write) (es : List OneofEvent) :
    (run (OneofServer.step write surroundings) s es).Orderly write := by
  have hrun : Always (OneofServer.step write surroundings) (Orderly write) s es :=
    Always.of_step _ (G := fun _ _ => True) h (fun _ _ h _ => h.step hwrite)
      (guarded_of_forall fun _ _ => trivial)
  exact hrun.last

end orderly

/-! ## Replies that are too large -/

/-- What is sent of a response has been found small enough. -/
theorem send_of_mem {size : Sysadminctl.Response → ℕ} {r r' : Sysadminctl.Response}
    (h : r' ∈ sendReply (send size) r) : send size r' = .ok [r'] := by
  have hsend : ∀ r₀ items, send size r₀ = .ok items → r' ∈ items → send size r' = .ok [r'] := by
    intro r₀ items hr₀ hmem
    have hr := hr₀
    rw [send] at hr
    split at hr
    · cases hr
    · rw [← Except.ok.inj hr, List.mem_singleton] at hmem
      rw [hmem, hr₀, ← Except.ok.inj hr]
  rw [sendReply] at h
  split at h
  · next items hitems => exact hsend r items hitems h
  · split at h
    · next items hitems => exact hsend _ items hitems h
    · cases h

/-- A response that is sent is the one of the handler, or an error in its place. -/
theorem eq_of_sendReply {size : Sysadminctl.Response → ℕ} {r r' : Sysadminctl.Response}
    (h : sendReply (send size) r = [r']) :
    r' = r ∨ r' = statusResponse (r.id.getD 0) .messageSizeError := by
  rw [sendReply] at h
  by_cases hlarge : size r > UInt32.size - 1
  · rw [send, if_pos hlarge] at h
    dsimp only at h
    rw [send] at h
    by_cases herror : size (statusResponse (r.id.getD 0) .messageSizeError) > UInt32.size - 1
    · rw [if_pos herror] at h
      cases h
    · rw [if_neg herror] at h
      exact .inr (List.singleton_inj.1 h).symm
  · rw [send, if_neg hlarge] at h
    exact .inl (List.singleton_inj.1 h).symm

/-- The error in the place of a response is small enough for one of the two to be sent. -/
theorem writesOne_sendReply {size : Sysadminctl.Response → ℕ}
    (hsize : ∀ id, size (statusResponse id .messageSizeError) ≤ UInt32.size - 1) :
    WritesOne (sendReply (send size)) := by
  intro r id hr
  by_cases hlarge : size r > UInt32.size - 1
  · have herror : send size (statusResponse id .messageSizeError) =
        .ok [statusResponse id .messageSizeError] := by
      rw [send, if_neg (Nat.not_lt.2 (hsize id))]
    have hsend : send size r = .error "Message too large to transfer" := by
      rw [send, if_pos hlarge]
    exact ⟨statusResponse id .messageSizeError,
      by simp only [sendReply, hsend, hr, Option.getD_some, herror], rfl⟩
  · have hsend : send size r = .ok [r] := by rw [send, if_neg hlarge]
    exact ⟨r, by rw [sendReply, hsend], hr⟩

/-- In all states, each command that has come over a connection which is still there waits for
    its hooks, or its future has completed once, and it has been answered once, with its id and for
    the result that has come, or its handler has failed for this result. -/
theorem orderly_run {size : Sysadminctl.Response → ℕ} {surroundings : ℕ → Surroundings}
    (hsize : ∀ id, size (statusResponse id .messageSizeError) ≤ UInt32.size - 1) (d : Daemon)
    (es : List OneofEvent) :
    Always (step (sendReply (send size)) surroundings) (Orderly (sendReply (send size)))
      (start d) es :=
  Always.of_step _ (G := fun _ _ => True) orderly_start
    (fun _ _ h _ => h.step (writesOne_sendReply hsize)) (guarded_of_forall fun _ _ => trivial)

/-- A client sets a key and commits it with hooks, and another one asks for what is staged before
    they complete. -/
def committing : List OneofEvent :=
  [.connect 5, .connect 6, .message 0 ⟨some (.set "a" (some ⟨some (.int32val 1)⟩)), 1, none⟩,
    .message 0 ⟨some (.commit none), 2, none⟩, .message 1 ⟨some .inflight, 7, none⟩]

theorem orderly_run_committing :
    Always (step (sendReply (send Callees.headerSize)) fun _ => .quiet)
      (Orderly (sendReply (send Callees.headerSize))) (start (.onEmpty 3))
      (committing ++ [.complete (.commit 0) (.externalRunnerError "hook"), .disconnect 0]) :=
  orderly_run (fun id => Callees.headerSize_le id .messageSizeError) _ _

/-! ## What is written, in pieces -/

section pieces

variable {ω ω' : Type} {f : ω → List ω'} {write : Sysadminctl.Response → List ω}
  {write' : Sysadminctl.Response → List ω'} {surroundings : ℕ → Surroundings} {s : OneofServer ω}

/-- The pieces of what has been written. -/
def pieces (f : ω → List ω') (written : List (Written ω)) : List (Written ω') :=
  written.flatMap fun w => (f w.item).map (⟨w.serial, w.number, ·⟩)

/-- The server that has written in pieces what the other one has written. -/
def mapWritten (f : ω → List ω') (s : OneofServer ω) : OneofServer ω' :=
  ⟨s.daemon, s.connections, s.nextSerial, s.commands, s.awaiting, pieces f s.written, s.completed⟩

theorem pieces_append (ws ws' : List (Written ω)) :
    pieces f (ws ++ ws') = pieces f ws ++ pieces f ws' := List.flatMap_append

theorem filter_pieces {k : ℕ} {ws : List (Written ω)} :
    (pieces f ws).filter (fun w => w.serial = k) = pieces f (ws.filter fun w => w.serial = k) := by
  induction ws with
  | nil => rfl
  | cons w ws ih =>
    rw [pieces, List.flatMap_cons, List.filter_append, List.filter_cons]
    by_cases hk : w.serial = k
    · rw [if_pos (by simpa using hk), pieces, List.flatMap_cons]
      refine congrArg₂ _ (List.filter_eq_self.2 ?_) ih
      simp [hk]
    · rw [if_neg (by simpa using hk), ← ih, List.filter_eq_nil_iff.2, List.nil_append]
      · rfl
      · simp [hk]

theorem reply_pieces (hf : ∀ r, write' r = (write r).flatMap f) (connections : List Connection)
    (n : ℕ) (c : ServedCommand) (result : HookResult) :
    reply write' connections n c result = pieces f (reply write connections n c result) := by
  rw [reply, reply]
  split
  · split
    · rw [hf, List.map_flatMap, pieces, List.flatMap_map]
    · rfl
  · rfl
  · rfl

theorem complete_mapWritten (hf : ∀ r, write' r = (write r).flatMap f) (hooks : AwaitedHooks)
    (result : HookResult) :
    (s.mapWritten f).complete write' hooks result =
      (s.complete write hooks result).mapWritten f := by
  have hwritten : ((s.mapWritten f).complete write' hooks result).written =
      ((s.complete write hooks result).mapWritten f).written := by
    change pieces f s.written ++ _ = pieces f (s.written ++ _)
    rw [pieces_append]
    simp only [reply_pieces hf, pieces, List.flatMap_assoc]
    rfl
  cases hooks <;> exact congrArg (OneofServer.mk _ _ _ _ _ · _) hwritten

theorem handleMessage_mapWritten (hf : ∀ r, write' r = (write r).flatMap f) (conn : Connection)
    (m : Sysadminctl.Command) :
    (s.mapWritten f).handleMessage write' surroundings conn m =
      (s.handleMessage write surroundings conn m).mapWritten f := by
  rw [handleMessage, handleMessage]
  dsimp only [mapWritten]
  split
  · dsimp only
    rw [reply_pieces hf, pieces_append]
  · split
    · rfl
    · exact complete_mapWritten (s := { s with daemon := _, commands := _, awaiting := _ }) hf _ _

/-- The server that writes in pieces does the same. -/
theorem step_mapWritten (hf : ∀ r, write' r = (write r).flatMap f) (e : OneofEvent) :
    (s.mapWritten f).step write' surroundings e =
      (s.step write surroundings e).mapWritten f := by
  cases e with
  | connect id =>
    rw [step, step]
    by_cases hid : id ∈ s.connections.map Connection.id
    · rw [if_pos hid]
      exact if_pos hid
    · rw [if_neg hid]
      exact if_neg hid
  | disconnect serial => rfl
  | message serial m =>
    rw [step, step]
    dsimp only [mapWritten]
    split
    · rfl
    · exact handleMessage_mapWritten hf _ m
  | complete hooks result => exact complete_mapWritten hf hooks result

end pieces

/-! ## Connections that are gone -/

section closed

variable {ω : Type} {write : Sysadminctl.Response → List ω} {surroundings : ℕ → Surroundings}
  {s : OneofServer ω} {k : ℕ} {e : OneofEvent}

/-- What has been written to a connection. -/
def writtenOn (s : OneofServer ω) (serial : ℕ) : List (Written ω) :=
  s.written.filter fun w => w.serial = serial

/-- The connection with the serial number is gone. -/
def Gone (s : OneofServer ω) (serial : ℕ) : Prop := ¬ s.Open serial ∧ serial < s.nextSerial

theorem serial_of_mem_reply {connections : List Connection} {n : ℕ} {c : ServedCommand}
    {result : HookResult} {w : Written ω} (h : w ∈ reply write connections n c result) :
    w.serial ∈ connections.map Connection.serial ∧ w.serial = c.serial ∧ w.number = n := by
  rw [reply] at h
  split at h
  · split at h
    · next hopen =>
      obtain ⟨item, _, rfl⟩ := List.mem_map.1 h
      exact ⟨hopen, rfl, rfl⟩
    · cases h
  · cases h
  · cases h

theorem filter_reply {connections : List Connection} {n : ℕ} {c : ServedCommand}
    {result : HookResult} (hk : k ∉ connections.map Connection.serial) :
    (reply write connections n c result).filter (fun w => w.serial = k) = [] := by
  refine List.filter_eq_nil_iff.2 fun w hw hwk => hk ?_
  rw [← of_decide_eq_true hwk]
  exact (serial_of_mem_reply hw).1

theorem written_complete (hooks : AwaitedHooks) (result : HookResult) :
    (s.complete write hooks result).written =
      s.written ++ (s.awaiting.filter fun a => a.hooks = hooks).flatMap fun a =>
        reply write s.connections a.number a.command result := rfl

theorem writtenOn_complete (hk : ¬ s.Open k) (hooks : AwaitedHooks) (result : HookResult) :
    (s.complete write hooks result).writtenOn k = s.writtenOn k := by
  rw [writtenOn, written_complete, List.filter_append, List.filter_flatMap]
  simp only [filter_reply hk]
  simp [writtenOn]

/-- An event does not write to a connection that is gone, and does not bring it back. -/
theorem Gone.step (h : s.Gone k) :
    (s.step write surroundings e).Gone k ∧
      (s.step write surroundings e).writtenOn k = s.writtenOn k := by
  cases e with
  | connect id =>
    rw [OneofServer.step]
    split
    · exact ⟨h, rfl⟩
    · refine ⟨⟨fun hopen => h.1 ?_, h.2.trans (Nat.lt_succ_self _)⟩, rfl⟩
      rw [Open, List.map_append, List.mem_append] at hopen
      -- The number of the new connection is not that of an earlier one.
      exact hopen.resolve_right fun hk => h.2.ne (List.mem_singleton.1 hk)
  | disconnect serial =>
    have hsub : (s.connections.filter fun conn => conn.serial ≠ serial).Sublist s.connections :=
      List.filter_sublist
    exact ⟨⟨fun hopen => h.1 ((hsub.map _).subset hopen), h.2⟩, rfl⟩
  | message serial m =>
    rw [OneofServer.step]
    split
    · exact ⟨h, rfl⟩
    · next conn hconn =>
      rw [handleMessage]
      dsimp only
      split
      · refine ⟨h, ?_⟩
        rw [writtenOn, List.filter_append, filter_reply h.1, List.append_nil, writtenOn]
      · split
        · exact ⟨h, rfl⟩
        · refine ⟨h, (writtenOn_complete ?_ _ _).trans rfl⟩
          exact h.1
  | complete hooks result => exact ⟨h, writtenOn_complete h.1 hooks result⟩

/-- Nothing is written to a connection that is gone, whatever happens. -/
theorem writtenOn_of_gone (h : s.Gone k) (es : List OneofEvent) :
    (run (step write surroundings) s es).writtenOn k = s.writtenOn k := by
  have hrun : Always (OneofServer.step write surroundings)
      (fun t => t.Gone k ∧ t.writtenOn k = s.writtenOn k) s es :=
    Always.of_step _ (G := fun _ _ => True) ⟨h, rfl⟩
      (fun t _ ht _ => ⟨ht.1.step.1, ht.1.step.2.trans ht.2⟩)
      (guarded_of_forall fun _ _ => trivial)
  exact hrun.last.2

/-- The hooks of a commit complete when its client has gone, and its id has been taken again. -/
theorem writtenOn_of_gone_committing :
    let s := run (step (sendReply (send Callees.headerSize)) fun _ => .quiet) (start (.onEmpty 3))
      (committing ++ [.disconnect 0])
    (run (step (sendReply (send Callees.headerSize)) fun _ => .quiet) s
      [.connect 5, .complete (.commit 0) .value,
        .message 2 ⟨some .inflight, 7, none⟩]).writtenOn 0 = s.writtenOn 0 :=
  writtenOn_of_gone ⟨by decide +kernel, by decide +kernel⟩ _

end closed

/-! ## What comes over a connection -/

section messages

variable {ω : Type} {write : Sysadminctl.Response → List ω} {surroundings : ℕ → Surroundings}
  {s : OneofServer ω} {conn : Connection} {m : Sysadminctl.Command} {k : ℕ}

/-- The commands that have come over a connection. -/
def messagesOn (s : OneofServer ω) (serial : ℕ) : List Sysadminctl.Command :=
  (s.commands.filter fun c => c.serial = serial).map ServedCommand.message

/-- A command changes neither the connections nor the commands before it. -/
theorem handleMessage_frame :
    (s.handleMessage write surroundings conn m).connections = s.connections ∧
      (s.handleMessage write surroundings conn m).nextSerial = s.nextSerial ∧
      (s.handleMessage write surroundings conn m).commands =
        s.commands ++ [s.daemon.served (surroundings s.commands.length) conn m] := by
  rw [handleMessage]
  dsimp only
  split
  · exact ⟨rfl, rfl, rfl⟩
  · split <;> exact ⟨rfl, rfl, rfl⟩

/-- A property of the daemon that requests keep, and what it means for the commands that are handled
    then, hold along a run. -/
theorem daemon_and_commands_step {P : Daemon → Prop} {Q : ServedCommand → Prop}
    (hserve : ∀ d e, P d → P (d.serve e))
    (hserved : ∀ d around conn m, P d → Q (d.served around conn m))
    (h : P s.daemon ∧ ∀ c ∈ s.commands, Q c) (e : OneofEvent) :
    P (s.step write surroundings e).daemon ∧ ∀ c ∈ (s.step write surroundings e).commands, Q c := by
  have hcomplete : ∀ (t : OneofServer ω) hooks result, P t.daemon →
      P (t.complete write hooks result).daemon := by
    intro t hooks result ht
    cases hooks with
    | commit ticket => exact hserve _ (.complete ticket result) ht
    | command number => exact ht
  cases e with
  | connect id =>
    rw [step]
    split <;> exact h
  | disconnect serial => exact h
  | complete hooks result => exact ⟨hcomplete s hooks result h.1, h.2⟩
  | message serial m =>
    rw [step]
    split
    · exact h
    · next conn hconn =>
      have hd := hserve _ (.request (surroundings s.commands.length).env conn.id m) h.1
      refine ⟨?_, ?_⟩
      · rw [handleMessage]
        dsimp only
        split
        · exact hd
        · split
          · exact hd
          · exact hcomplete _ _ _ hd
      · rw [handleMessage_frame.2.2]
        exact List.forall_mem_append.2
          ⟨h.2, List.forall_mem_singleton.2 (hserved _ _ conn m h.1)⟩

theorem forall_commands_run {P : Daemon → Prop} {Q : ServedCommand → Prop}
    (hserve : ∀ d e, P d → P (d.serve e))
    (hserved : ∀ d around conn m, P d → Q (d.served around conn m)) {d : Daemon} (hd : P d)
    (es : List OneofEvent) :
    ∀ c ∈ (run (step write surroundings) (start d) es).commands, Q c :=
  (Always.of_step (step write surroundings)
    (I := fun s => P s.daemon ∧ ∀ c ∈ s.commands, Q c) (G := fun _ _ => True)
    ⟨hd, fun _ hc => absurd hc List.not_mem_nil⟩
    (fun _ e h _ => daemon_and_commands_step hserve hserved h e)
    (guarded_of_forall fun _ _ => trivial)).last.2

theorem messagesOn_handleMessage : (s.handleMessage write surroundings conn m).messagesOn k =
    s.messagesOn k ++ if conn.serial = k then [m] else [] := by
  rw [messagesOn, handleMessage_frame.2.2, List.filter_append, List.map_append, messagesOn]
  by_cases hk : conn.serial = k
  · simp [hk, Daemon.served]
  · simp [hk, Daemon.served]

/-- Some commands over a connection that is not there. -/
theorem run_messages_of_none
    (hconn : s.connections.find? (fun conn => conn.serial = k) = none)
    (ms : List Sysadminctl.Command) :
    run (step write surroundings) s (ms.map (.message k)) = s := by
  induction ms with
  | nil => rfl
  | cons m ms ih => rwa [List.map_cons, run_cons, step, hconn]

/-- Some commands over a connection that is there. -/
theorem run_messages (hconn : s.connections.find? (fun conn => conn.serial = k) = some conn)
    (ms : List Sysadminctl.Command) :
    run (step write surroundings) s (ms.map (.message k)) =
      ms.foldl (fun s m => s.handleMessage write surroundings conn m) s := by
  induction ms generalizing s with
  | nil => rfl
  | cons m ms ih =>
    rw [List.map_cons, run_cons, List.foldl_cons, step, hconn]
    exact ih (by rw [handleMessage_frame.1, hconn])

variable (write surroundings s conn) in
theorem foldl_handleMessage_frame (ms : List Sysadminctl.Command) :
    (ms.foldl (fun s m => s.handleMessage write surroundings conn m) s).connections =
        s.connections ∧
      (ms.foldl (fun s m => s.handleMessage write surroundings conn m) s).nextSerial =
        s.nextSerial ∧
      (ms.foldl (fun s m => s.handleMessage write surroundings conn m) s).messagesOn k =
        s.messagesOn k ++ if conn.serial = k then ms else [] := by
  induction ms generalizing s with
  | nil =>
    rw [ite_self, List.append_nil]
    exact ⟨rfl, rfl, rfl⟩
  | cons m ms ih =>
    obtain ⟨hc, hn, hm⟩ := ih (s.handleMessage write surroundings conn m)
    rw [List.foldl_cons, hc, hn, hm, messagesOn_handleMessage, handleMessage_frame.1,
      handleMessage_frame.2.1]
    refine ⟨rfl, rfl, ?_⟩
    split <;> simp

theorem foldl_handleMessage_mapWritten {ω' : Type} {f : ω → List ω'}
    {write' : Sysadminctl.Response → List ω'} (hf : ∀ r, write' r = (write r).flatMap f)
    (ms : List Sysadminctl.Command) :
    ms.foldl (fun s m => s.handleMessage write' surroundings conn m) (s.mapWritten f) =
      (ms.foldl (fun s m => s.handleMessage write surroundings conn m) s).mapWritten f := by
  induction ms generalizing s with
  | nil => rfl
  | cons m ms ih => rw [List.foldl_cons, handleMessage_mapWritten hf, ih, List.foldl_cons]

/-- Only commands over the connection add to what has come over it. -/
theorem messagesOn_step (e : OneofEvent) (he : ∀ k m, e ≠ .message k m) :
    (s.step write surroundings e).messagesOn k = s.messagesOn k := by
  cases e with
  | connect id =>
    rw [step]
    split <;> rfl
  | disconnect serial => rfl
  | message serial m => exact absurd rfl (he serial m)
  | complete hooks result => rfl

end messages

/-! ## Clients that wait for each response -/

section sequential

variable {write : Sysadminctl.Response → List Sysadminctl.Response}
  {surroundings : ℕ → Surroundings} {s : OneofServer Sysadminctl.Response} {k n : ℕ}
  {e : OneofEvent}

/-- The numbers of the commands that have come over a connection. -/
def numbersOn {ω : Type} (s : OneofServer ω) (serial : ℕ) : List ℕ :=
  (s.commands.zipIdx.filter fun c => c.1.serial = serial).map Prod.snd

/-- Over the connection, a command comes only when all before it have been answered. -/
def Sequential (k : ℕ) (s : OneofServer Sysadminctl.Response) : OneofEvent → Prop
  | .message serial _ => serial = k → s.Open k → (s.writtenOn k).length = (s.numbersOn k).length
  | .connect _ | .disconnect _ | .complete .. => True

instance (k : ℕ) (s : OneofServer Sysadminctl.Response) : ∀ e, Decidable (Sequential k s e)
  | .message serial _ => inferInstanceAs (Decidable (serial = k → s.Open k → _ = _))
  | .connect _ | .disconnect _ | .complete .. => .isTrue trivial

/-- What has been written to the connection is for its commands, one after the other, and at most
    the last one is not answered. -/
structure InOrder (k : ℕ) (s : OneofServer Sysadminctl.Response) : Prop where
  isPrefix : (s.writtenOn k).map Written.number <+: s.numbersOn k
  length_le : (s.numbersOn k).length ≤ (s.writtenOn k).length + 1

theorem mem_numbersOn :
    n ∈ s.numbersOn k ↔ ∃ c, s.commands[n]? = some c ∧ c.serial = k := by
  simp [numbersOn, List.mem_zipIdx_iff_getElem?]

/-- The commands that have come over a connection, by their numbers. -/
theorem messagesOn_eq_map {ω : Type} (s : OneofServer ω) (k : ℕ) :
    s.messagesOn k =
      (s.commands.zipIdx.filter fun c => c.1.serial = k).map fun c => c.1.message := by
  have hfst : s.commands.filter (fun c => c.serial = k) =
      (s.commands.zipIdx.filter fun c => c.1.serial = k).map Prod.fst := by
    conv_lhs => rw [← List.zipIdx_map_fst 0 s.commands, List.filter_map]
    rfl
  rw [messagesOn, hfst, List.map_map]
  rfl

theorem length_messagesOn {ω : Type} (s : OneofServer ω) (k : ℕ) :
    (s.messagesOn k).length = (s.numbersOn k).length := by
  rw [messagesOn_eq_map, numbersOn, List.length_map, List.length_map]

theorem getElem?_numbersOn {ω : Type} {s : OneofServer ω} {i : ℕ}
    (h : (s.numbersOn k)[i]? = some n) :
    ∃ c, s.commands[n]? = some c ∧ c.serial = k ∧ (s.messagesOn k)[i]? = some c.message := by
  rw [numbersOn, List.getElem?_map] at h
  obtain ⟨⟨c, n'⟩, hc, rfl⟩ := Option.map_eq_some_iff.1 h
  obtain ⟨hmem, hk⟩ := List.mem_filter.1 (List.mem_of_getElem? hc)
  refine ⟨c, List.mem_zipIdx_iff_getElem?.1 hmem, of_decide_eq_true hk, ?_⟩
  rw [messagesOn_eq_map, List.getElem?_map, hc]
  rfl

/-- Letters of a list that lack at most one to be all of it, and go on to be some of it. -/
theorem prefix_append_of_subset {α : Type*} {l l' t : List α} (h : l <+: t)
    (hlen : t.length ≤ l.length + 1) (hnodup : (l ++ l').Nodup) (hsub : l' ⊆ t) :
    l ++ l' <+: t := by
  obtain ⟨r, rfl⟩ := h
  have hnew : ∀ a ∈ l', a ∈ r := fun a ha =>
    (List.mem_append.1 (hsub ha)).resolve_left fun hal =>
      (List.nodup_append.1 hnodup).2.2 a hal a ha rfl
  have hr : l'.length ≤ r.length :=
    (List.subperm_of_subset (List.nodup_append.1 hnodup).2.1 hnew).length_le
  rw [List.prefix_append_right_inj]
  rw [List.length_append] at hlen
  -- One letter is missing at most, so one has come at most.
  rcases l' with _ | ⟨a, _ | ⟨b, l'⟩⟩
  · exact List.nil_prefix
  · rcases r with _ | ⟨x, _ | ⟨y, r⟩⟩
    · cases hnew a List.mem_cons_self
    · rw [List.mem_singleton.1 (hnew a List.mem_cons_self)]
    · simp only [List.length_cons] at hlen
      omega
  · simp only [List.length_cons] at hr
    omega

/-- What an event adds to the commands. -/
def newCommands (s : OneofServer Sysadminctl.Response) (k : ℕ) : OneofEvent → List ℕ
  | .message serial _ => if serial = k ∧ s.Open k then [s.commands.length] else []
  | .connect _ | .disconnect _ | .complete .. => []

theorem numbersOn_handleMessage {conn : Connection} {m : Sysadminctl.Command} :
    (s.handleMessage write surroundings conn m).numbersOn k =
      s.numbersOn k ++ if conn.serial = k then [s.commands.length] else [] := by
  rw [numbersOn, handleMessage_frame.2.2, List.zipIdx_append, List.filter_append, List.map_append,
    numbersOn]
  congr 1
  simp only [List.zipIdx_singleton, List.filter_singleton, Daemon.served, Nat.zero_add]
  by_cases hk : conn.serial = k
  · simp [hk]
  · simp [hk]

variable (write surroundings) in
theorem numbersOn_step : (s.step write surroundings e).numbersOn k =
    s.numbersOn k ++ s.newCommands k e := by
  cases e with
  | connect id =>
    rw [step, newCommands, List.append_nil]
    split <;> rfl
  | disconnect serial => exact (List.append_nil _).symm
  | complete hooks result => exact (List.append_nil _).symm
  | message serial m =>
    rw [step, newCommands]
    split
    · next hnone =>
      have hclosed : ¬ (serial = k ∧ s.Open k) := by
        rintro ⟨rfl, hopen⟩
        obtain ⟨conn, hconn, hserial⟩ := List.mem_map.1 hopen
        exact absurd (List.find?_eq_none.1 hnone conn hconn) (by simp [hserial])
      rw [if_neg hclosed, List.append_nil]
    · next conn hconn =>
      have hserial : conn.serial = serial := by simpa using List.find?_some hconn
      rw [numbersOn_handleMessage, hserial]
      congr 1
      refine if_congr ⟨?_, And.left⟩ rfl rfl
      rintro rfl
      exact ⟨rfl, List.mem_map.2 ⟨conn, List.mem_of_find?_eq_some hconn, hserial⟩⟩

/-- What has been written stays. -/
theorem exists_written_step : ∃ new, (s.step write surroundings e).written = s.written ++ new := by
  cases e with
  | connect id =>
    rw [step]
    split <;> exact ⟨[], (List.append_nil _).symm⟩
  | disconnect serial => exact ⟨[], (List.append_nil _).symm⟩
  | complete hooks result => exact ⟨_, rfl⟩
  | message serial m =>
    rw [step]
    split
    · exact ⟨[], (List.append_nil _).symm⟩
    · rw [handleMessage]
      dsimp only
      split
      · exact ⟨_, rfl⟩
      · split
        · exact ⟨[], (List.append_nil _).symm⟩
        · exact ⟨_, rfl⟩

/-- With each command behind the responses to all before it, what is written stays in order. -/
theorem InOrder.step (h : s.InOrder k) (ho : s.Orderly write) (hwrite : WritesOne write)
    (hg : s.Sequential k e) : (s.step write surroundings e).InOrder k := by
  obtain ⟨new, hnew⟩ := @exists_written_step write surroundings s e
  have ho' : (s.step write surroundings e).Orderly write := ho.step hwrite
  have hwritten : (s.step write surroundings e).writtenOn k =
      s.writtenOn k ++ new.filter fun w => w.serial = k := by
    rw [writtenOn, hnew, List.filter_append, writtenOn]
  have hnodup := ho'.nodup_written.sublist
    ((List.filter_sublist (p := fun w => w.serial = k)).map _)
  have hsub : (new.filter fun w => w.serial = k).map Written.number ⊆
      (s.step write surroundings e).numbersOn k := by
    intro n hn
    obtain ⟨w, hw, rfl⟩ := List.mem_map.1 hn
    obtain ⟨hw, hk⟩ := List.mem_filter.1 hw
    obtain ⟨c, hc, hserial, _⟩ := ho'.written_get w (hnew ▸ List.mem_append_right _ hw)
    exact mem_numbersOn.2 ⟨c, hc, hserial ▸ of_decide_eq_true hk⟩
  -- with the new command, at most one is not answered
  have hlen : (s.numbersOn k ++ s.newCommands k e).length ≤ (s.writtenOn k).length + 1 := by
    rw [List.length_append]
    have := h.length_le
    cases e with
    | message serial m =>
      rw [newCommands]
      split
      · next hk =>
        rw [List.length_singleton, hg hk.1 hk.2]
      · exact this
    | connect | disconnect | complete => exact this
  have hpre : (s.writtenOn k).map Written.number <+: s.numbersOn k ++ s.newCommands k e :=
    h.isPrefix.trans (List.prefix_append _ _)
  have hall : ((s.step write surroundings e).writtenOn k).map Written.number =
      (s.writtenOn k).map Written.number ++
        (new.filter fun w => w.serial = k).map Written.number := by
    rw [hwritten, List.map_append]
  refine ⟨?_, ?_⟩
  · rw [hall, numbersOn_step]
    refine prefix_append_of_subset hpre (by rwa [List.length_map]) ?_ ?_
    · rw [← hall]
      exact hnodup
    · rw [← numbersOn_step write surroundings]
      exact hsub
  · rw [numbersOn_step, hwritten]
    exact hlen.trans (Nat.succ_le_succ (List.sublist_append_left _ _).length_le)

variable (write surroundings s k) in
theorem exists_written_run (es : List OneofEvent) :
    ∃ new, (run (OneofServer.step write surroundings) s es).writtenOn k = s.writtenOn k ++ new := by
  induction es generalizing s with
  | nil => exact ⟨[], (List.append_nil _).symm⟩
  | cons e es ih =>
    obtain ⟨new, hnew⟩ := @exists_written_step write surroundings s e
    obtain ⟨new', hnew'⟩ := ih (s.step write surroundings e)
    refine ⟨(new.filter fun w => w.serial = k) ++ new', ?_⟩
    rw [run_cons, hnew', writtenOn, hnew, List.filter_append, List.append_assoc]
    rfl

theorem InOrder.run {es : List OneofEvent} (h : s.InOrder k) (ho : s.Orderly write)
    (hwrite : WritesOne write)
    (hg : Guarded (OneofServer.step write surroundings) (Sequential k) s es) :
    (Machine.run (OneofServer.step write surroundings) s es).InOrder k := by
  have hrun : Always (OneofServer.step write surroundings)
      (fun t => t.Orderly write ∧ t.InOrder k) s es :=
    Always.of_step _ (G := Sequential k) ⟨ho, h⟩
      (fun t e ht hg => ⟨ht.1.step hwrite, ht.2.step ht.1 hwrite hg⟩) hg
  exact hrun.last.2

/-- What has been written to the connection answers its commands, one after the other. -/
theorem InOrder.answers {i : ℕ} {w : Written Sysadminctl.Response} (h : s.InOrder k)
    (ho : s.Orderly write) (hw : (s.writtenOn k)[i]? = some w) :
    (s.numbersOn k)[i]? = some w.number ∧ ∃ c, s.commands[w.number]? = some c ∧ c.serial = k ∧
      (s.messagesOn k)[i]? = some c.message ∧ Answers write s.completed w c := by
  have hnumber : (s.numbersOn k)[i]? = some w.number := by
    have hi : ((s.writtenOn k).map Written.number)[i]? = some w.number := by
      rw [List.getElem?_map, hw]
      rfl
    obtain ⟨t, ht⟩ := h.isPrefix
    rw [← ht, List.getElem?_append_left (List.getElem?_eq_some_iff.1 hi).1, hi]
  obtain ⟨c, hc, hk, hm⟩ := getElem?_numbersOn hnumber
  obtain ⟨c', hc', hans⟩ := ho.written_get w (List.mem_of_mem_filter (List.mem_of_getElem? hw))
  obtain rfl : c = c' := Option.some.inj (hc.symm.trans hc')
  exact ⟨hnumber, c, hc, hk, hm, hans⟩

theorem guarded_messages_of_ne {serial : ℕ} (h : serial ≠ k) (ms : List Sysadminctl.Command) :
    Guarded (OneofServer.step write surroundings) (Sequential k) s (ms.map (.message serial)) := by
  induction ms generalizing s with
  | nil => trivial
  | cons m ms ih => exact ⟨fun hk => absurd hk h, ih⟩

/-- A client that sends a command only when all before it have been answered gets the responses
    in the order of the commands, each with the id of its command. -/
theorem inOrder_run {size : Sysadminctl.Response → ℕ} {d : Daemon} {es : List OneofEvent}
    (hsize : ∀ id, size (statusResponse id .messageSizeError) ≤ UInt32.size - 1)
    (h : Guarded (OneofServer.step (sendReply (send size)) surroundings) (Sequential k)
      (start d) es) :
    let s := run (OneofServer.step (sendReply (send size)) surroundings) (start d) es
    (s.numbersOn k).length ≤ (s.writtenOn k).length + 1 ∧
      ∀ (i : ℕ) w, (s.writtenOn k)[i]? = some w → (s.numbersOn k)[i]? = some w.number ∧
        ∃ c, s.commands[w.number]? = some c ∧ c.serial = k ∧
          (s.messagesOn k)[i]? = some c.message ∧
            Answers (sendReply (send size)) s.completed w c := by
  intro s
  have hwrite := writesOne_sendReply hsize
  have ho : s.Orderly (sendReply (send size)) := orderly_start.run hwrite es
  have hin : s.InOrder k :=
    InOrder.run ⟨List.nil_prefix, Nat.zero_le _⟩ orderly_start hwrite h
  exact ⟨hin.length_le, fun i w hw => hin.answers ho hw⟩

/-- Two commands, with another client in between. -/
def inflightTwice : List OneofEvent :=
  [.connect 5, .message 0 ⟨some .inflight, 7, none⟩, .connect 6,
    .message 1 ⟨some .drop, 1, none⟩, .message 0 ⟨some .inflight, 8, none⟩]

theorem inOrder_run_inflightTwice :
    let s := run (OneofServer.step (sendReply (send Callees.headerSize)) fun _ => .quiet)
      (start (.onEmpty 3)) inflightTwice
    (s.numbersOn 0).length ≤ (s.writtenOn 0).length + 1 ∧
      ∀ (i : ℕ) w, (s.writtenOn 0)[i]? = some w → (s.numbersOn 0)[i]? = some w.number ∧
        ∃ c, s.commands[w.number]? = some c ∧ c.serial = 0 ∧
          (s.messagesOn 0)[i]? = some c.message ∧
            Answers (sendReply (send Callees.headerSize)) s.completed w c :=
  inOrder_run (fun id => Callees.headerSize_le id .messageSizeError) (by decide +kernel)

end sequential

end OneofServer

end SysAdmin
