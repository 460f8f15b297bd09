import SysAdmin.Foundation.Futures
import SysAdmin.GetRequests

/-!
# Replies

What is written to the connection on which a command arrives. The handlers call the
configurator, the history and the hook manager (`Callees`), which may answer, throw, or
return a future that completes with an exception; each handler makes responses of some
exceptions. A reply is written for a future with a value, and for no other.

* `Callees.handleMessage`: the responses written, one for each frame;
* `Callees.Answers`: the command has a payload, nothing that its handler calls throws or fails an
  assertion, and the exception of a future, if there is one, is one of those that the handler takes;
* `Callees.replied_iff`: this is what it takes to get one reply with the id of the command,
  and else there is none.
* `Daemon.replied_commit_iff`: what this says of the commits of the daemon.
-/

namespace SysAdmin

open Futures ProtobufTranslator SysAdminController
open Sysadminctl (Payload)

/-- The exceptions that handlers tell apart, and all others. -/
inductive Exception
  | commitError (what : String) (commitId : CommitId)
  | externalRunnerError (what : String)
  | rollbackError (what : String)
  | protobufError (what : String)
  | other
  deriving DecidableEq

/-- What a failed assertion, or a call through a null pointer, comes to. It ends the daemon, and so
    nobody takes it, either. -/
def Exception.crash : Exception := .other

/-- The exception is a `CommitError`. -/
def Exception.isCommitError : Exception → Bool
  | commitError .. => true
  | externalRunnerError _ | rollbackError _ | protobufError _ | other => false

/-- The exception is an `ExternalRunnerError`. -/
def Exception.isExternalRunnerError : Exception → Bool
  | externalRunnerError _ => true
  | commitError .. | rollbackError _ | protobufError _ | other => false

/-- The exception is a `RollbackError`. -/
def Exception.isRollbackError : Exception → Bool
  | rollbackError _ => true
  | commitError .. | externalRunnerError _ | protobufError _ | other => false

/-- What a handler returns: a response, which is optional for the protocol. -/
abbrev ResponseType := Option Sysadminctl.Response

/-- What the calls of the hook manager come to. -/
structure HookCalls where
  runHooks : Call Exception Unit
  triggerHook : String → Call Exception Bool
  dumpHooks : Except Exception (List String × List String)

/-- What the calls of the handlers come to. There is a hook manager if the daemon is given a
    configuration of hooks. -/
structure Callees where
  set : ConfigPair → ClientId → Except Exception SetStatus
  get : ConfigKey → Except Exception ConfigPairMap
  getAllKeys : ConfigKey → Except Exception (List ConfigKey)
  erase : ConfigKey → ClientId → Except Exception Unit
  drop : ClientId → Except Exception Unit
  inFlightItems : ClientId → Except Exception ConfigPairList
  commit : ClientId → CommitConfig → Call Exception CommitId
  rollback : CommitId → Call Exception Unit
  blame : ConfigKey → Except Exception (List BlameDelta)
  hookManager : Option HookCalls

namespace SysAdminController

/-- The response with a status and nothing else. -/
def statusResponse (id : UInt32) (status : StatusCode) : Sysadminctl.Response :=
  ⟨none, some id, some status⟩

/-- A future that is ready with a response. -/
def makeFuture (output : Sysadminctl.Response) : Call Exception ResponseType :=
  .future (.value (some output))

/-- Whether a key is one of `last.*`. A key without subkeys fails the assertion. -/
def matchesLast (key : ConfigKey) : Except Exception Bool :=
  if key.subKeys = [] then .error .crash else .ok key.inLast

/-- The response to setting a pair. -/
def setResponse (id : UInt32) (conf : ConfigPair) : SetStatus → Sysadminctl.Response
  | .success => { translateFromGet [conf] with id := some id, status := some .success }
  | .successNewKey =>
    { translateFromGet [conf] with id := some id, status := some .successKeyCreated }
  | .typeMismatch => statusResponse id .typeMismatch
  | .lockedQueue => statusResponse id .lockedQueue

/-- The response to a commit. -/
def commitResponse (id : UInt32) (status : StatusCode) (commitId : CommitId) :
    Sysadminctl.Response := ⟨some (.commit (.ofNat commitId)), some id, some status⟩

/-- The response to a reset that commits. -/
def resetCommitResponse (id : UInt32) (status : StatusCode) (commitId : CommitId) :
    Sysadminctl.Response := ⟨some (.reset (some (.ofNat commitId))), some id, some status⟩

/-- Takes a `CommitError`, with the id of the commit. -/
def onCommitError (response : CommitId → Sysadminctl.Response) :
    Exception → Option ResponseType
  | .commitError _ commitId => some (some (response commitId))
  | .externalRunnerError _ | .rollbackError _ | .protobufError _ | .other => none

/-- Takes the exceptions of a type. -/
def onError (type : Exception → Bool) (output : Sysadminctl.Response) (e : Exception) :
    Option ResponseType := if type e then some (some output) else none

end SysAdminController

namespace Callees

/-! ## Handlers -/

/-- The hook manager. Without one, the pointer to it is null. -/
def hooks (c : Callees) : Except Exception HookCalls :=
  match c.hookManager with
  | some hooks => .ok hooks
  | none => .error .crash

/-- Handles a request to set a key. -/
def setHandler (c : Callees) (clientId : ClientId) (id : UInt32) (key : String)
    (value : Option Sysadminctl.ConfigValue) : Call Exception ResponseType :=
  match translateToSet key value with
  | none => makeFuture (statusResponse id .commandTranslationError)
  | some conf =>
    if conf.key.toString.toList.contains '*' then makeFuture (statusResponse id .invalidKey)
    else .after (matchesLast conf.key) fun last =>
      if last then makeFuture (statusResponse id .invalidKey)
      else .after (c.set conf clientId) fun status => makeFuture (setResponse id conf status)

/-- Handles a request to get a key. -/
def getHandler (c : Callees) (id : UInt32) (key : String) : Call Exception ResponseType :=
  .after (c.get (.ofString key)) fun valueMap => makeFuture (getResponse valueMap id)

/-- Handles a request to commit. -/
def commitHandler (c : Callees) (clientId : ClientId) (id : UInt32)
    (config : Option CommitConfig) : Call Exception ResponseType :=
  ((c.commit clientId (config.getD .default)).thenValue fun commitId =>
    some (commitResponse id .success commitId)).thenError
      (onCommitError (commitResponse id .externalProcessError))

/-- Handles a request to drop what is staged. -/
def dropHandler (c : Callees) (clientId : ClientId) (id : UInt32) :
    Call Exception ResponseType :=
  .after (c.drop clientId) fun _ => makeFuture (statusResponse id .success)

/-- Handles a request to run all hooks. -/
def fireHooksHandler (c : Callees) (id : UInt32) : Call Exception ResponseType :=
  .after c.hooks fun hooks =>
    (hooks.runHooks.thenValue fun _ => some (statusResponse id .success)).thenError
      (onError Exception.isExternalRunnerError (statusResponse id .externalProcessError))

/-- Handles a request to erase a key. -/
def eraseHandler (c : Callees) (clientId : ClientId) (id : UInt32) (key : String) :
    Call Exception ResponseType :=
  .after (c.erase (.ofString key) clientId) fun _ => makeFuture (statusResponse id .success)

/-- Handles a request to roll a commit back. -/
def rollbackHandler (c : Callees) (id : UInt32) (commitId : UInt32) :
    Call Exception ResponseType :=
  ((((c.rollback commitId.toNat).thenValue fun _ => some (statusResponse id .success)).thenError
    (onError Exception.isRollbackError (statusResponse id .failedRollback))).thenError
    (onError Exception.isExternalRunnerError (statusResponse id .externalProcessError))).thenError
    (onError Exception.isCommitError (statusResponse id .externalProcessError))

/-- The loop of a reset, and the commit behind it. -/
def resetDefaults (c : Callees) (clientId : ClientId) (id : UInt32) :
    ConfigPairList → Call Exception ResponseType
  | [] =>
    ((c.commit clientId .default).thenValue fun commitId =>
      some (resetCommitResponse id .success commitId)).thenError
        (onCommitError (resetCommitResponse id .externalProcessError))
  | kv :: kvs =>
    .after (c.set (resetItem kv) clientId) fun status =>
      if status = .success then resetDefaults c clientId id kvs
      else .after (c.drop clientId) fun _ => makeFuture (statusResponse id .typeMismatch)

/-- Handles a request to reset. -/
def resetHandler (c : Callees) (clientId : ClientId) (id : UInt32) :
    Call Exception ResponseType :=
  .after (c.erase (.ofString "*") clientId) fun _ =>
  .after (c.getAllKeys (.ofString "default.*")) fun _ =>
  .after (c.get (.ofString "default.*")) fun defaultValues =>
    c.resetDefaults clientId id defaultValues.pairs

/-- Handles a request for the names of the hooks. -/
def dumpHooksHandler (c : Callees) (id : UInt32) : Call Exception ResponseType :=
  .after c.hooks fun hooks =>
  .after hooks.dumpHooks fun hookDump => makeFuture
    ⟨some (.dump hookDump.1 hookDump.2), some id, some .success⟩

/-- Handles a request to run a hook. -/
def triggerHookHandler (c : Callees) (id : UInt32) (hook : String) :
    Call Exception ResponseType :=
  .after c.hooks fun hooks =>
    ((hooks.triggerHook hook).thenValue fun found =>
      some (statusResponse id (if found then .success else .hookNotFound))).thenError
        (onError Exception.isExternalRunnerError (statusResponse id .externalProcessError))

/-- Handles a request for the commits to a key. -/
def blameHandler (c : Callees) (id : UInt32) (key : String) : Call Exception ResponseType :=
  .after (c.blame (.ofString key)) fun deltas =>
  .after (c.get (.ofString key)) fun values =>
    let notFound := values.pairs.length = 0 ∧ deltas.length = 0
    makeFuture { translateFromBlame (.ofString key) deltas with
      status := some (if notFound then .keyNotFound else .success)
      id := some id }

/-- Handles a request for what is staged. -/
def inFlightHandler (c : Callees) (clientId : ClientId) (id : UInt32) :
    Call Exception ResponseType :=
  .after (c.inFlightItems clientId) fun inflight =>
    makeFuture { translateFromInFlight inflight with id := some id, status := some .success }

/-- The handler of a payload. A reset does not look at the transaction id. -/
def handler (c : Callees) (clientId : ClientId) (m : Sysadminctl.Command) :
    Payload → Call Exception ResponseType
  | .set key value => c.setHandler (clientOf m clientId) m.id key value
  | .get key => c.getHandler m.id key
  | .commit config => c.commitHandler (clientOf m clientId) m.id config
  | .drop => c.dropHandler (clientOf m clientId) m.id
  | .firehooks => c.fireHooksHandler m.id
  | .erase key => c.eraseHandler (clientOf m clientId) m.id key
  | .rollback commitId => c.rollbackHandler m.id commitId
  | .reset => c.resetHandler clientId m.id
  | .dump => c.dumpHooksHandler m.id
  | .trigger hook => c.triggerHookHandler m.id hook
  | .blame key => c.blameHandler m.id key
  | .inflight => c.inFlightHandler (clientOf m clientId) m.id

/-! ## The protocol -/

/-- Hands a command to the handler of its payload. -/
def dispatch (c : Callees) (clientId : ClientId) (m : Sysadminctl.Command) :
    Completion Exception ResponseType :=
  match m.payload with
  | none => .exception (.protobufError "Could not find set oneof field")
  | some payload => (c.handler clientId m payload).makeFutureWith

end Callees

/-- Writes a frame with a message, if its length fits in front of it, and else throws. -/
def send (size : Sysadminctl.Response → Nat) (message : Sysadminctl.Response) :
    Except String (List Sysadminctl.Response) :=
  if size message > UInt32.size - 1 then .error "Message too large to transfer"
  else .ok [message]

/-- Writes a frame with an error in the place of a response. -/
def sendErrorCallback (size : Sysadminctl.Response → Nat) (resp : Sysadminctl.Response) :
    Except String (List Sysadminctl.Response) :=
  send size (statusResponse (resp.id.getD 0) .messageSizeError)

/-- The responses that are written once the future of the handler has completed, if the
    connection is still there. What the callback throws goes nowhere. -/
def Callees.handleMessage (size : Sysadminctl.Response → Nat) (valid : Bool) (c : Callees)
    (clientId : ClientId) (m : Sysadminctl.Command) : List Sysadminctl.Response :=
  match c.dispatch clientId m with
  | .exception _ | .value none => []
  | .value (some message) =>
    if valid then
      match send size message with
      | .ok frames => frames
      | .error _ =>
        match sendErrorCallback size message with
        | .ok frames => frames
        | .error _ => []
    else []

/-! ## Ids -/

/-- The response is there, with the id. -/
def HasId (id : UInt32) (o : ResponseType) : Prop := ∃ r, o = some r ∧ r.id = some id

section ids

variable {id : UInt32} {status : StatusCode} {c : Callees} {clientId : ClientId}

theorem hasId_statusResponse : HasId id (some (statusResponse id status)) := ⟨_, rfl, rfl⟩

theorem hasId_setResponse {conf : ConfigPair} {setStatus : SetStatus} :
    HasId id (some (setResponse id conf setStatus)) := by
  cases setStatus with
  | success | typeMismatch | lockedQueue | successNewKey => exact ⟨_, rfl, rfl⟩

theorem hasId_of_onError {type : Exception → Bool} (e : Exception) (o : ResponseType)
    (h : onError type (statusResponse id status) e = some o) : HasId id o := by
  rw [onError] at h
  split at h
  · rw [← Option.some.inj h]
    exact hasId_statusResponse
  · cases h

theorem hasId_of_onCommitError {response : CommitId → Sysadminctl.Response}
    (hr : ∀ commitId, (response commitId).id = some id) (e : Exception) (o : ResponseType)
    (h : onCommitError response e = some o) : HasId id o := by
  cases e with
  | commitError what commitId =>
    rw [← Option.some.inj h]
    exact ⟨_, rfl, hr commitId⟩
  | externalRunnerError | rollbackError | protobufError | other => cases h

theorem Callees.yields_resetDefaults {kvs : ConfigPairList} :
    (c.resetDefaults clientId id kvs).Yields (HasId id) := by
  induction kvs with
  | nil =>
    refine (Call.yields_thenValue fun _ => ⟨_, rfl, rfl⟩).thenError ?_
    exact hasId_of_onCommitError fun _ => rfl
  | cons kv kvs ih =>
    refine Call.yields_after fun status => ?_
    split
    · exact ih
    · exact Call.yields_after fun _ => hasId_statusResponse

/-- All responses have the id of the command. -/
theorem Callees.yields_handler (c : Callees) (clientId : ClientId) (m : Sysadminctl.Command)
    (payload : Payload) : (c.handler clientId m payload).Yields (HasId m.id) := by
  cases payload with
  | set key value =>
    rw [handler, setHandler]
    split
    · exact hasId_statusResponse
    · split
      · exact hasId_statusResponse
      · refine Call.yields_after fun last => ?_
        split
        · exact hasId_statusResponse
        · exact Call.yields_after fun _ => hasId_setResponse
  | get key => exact Call.yields_after fun _ => ⟨_, rfl, rfl⟩
  | commit config =>
    exact (Call.yields_thenValue fun _ => ⟨_, rfl, rfl⟩).thenError
      (hasId_of_onCommitError fun _ => rfl)
  | drop => exact Call.yields_after fun _ => hasId_statusResponse
  | firehooks =>
    exact Call.yields_after fun _ =>
      (Call.yields_thenValue fun _ => hasId_statusResponse).thenError hasId_of_onError
  | erase key => exact Call.yields_after fun _ => hasId_statusResponse
  | rollback commitId =>
    exact (((Call.yields_thenValue fun _ => hasId_statusResponse).thenError
      hasId_of_onError).thenError hasId_of_onError).thenError hasId_of_onError
  | reset =>
    exact Call.yields_after fun _ => Call.yields_after fun _ => Call.yields_after fun _ =>
      yields_resetDefaults
  | dump => exact Call.yields_after fun _ => Call.yields_after fun _ => ⟨_, rfl, rfl⟩
  | trigger hook =>
    exact Call.yields_after fun _ =>
      (Call.yields_thenValue fun _ => hasId_statusResponse).thenError hasId_of_onError
  | blame key => exact Call.yields_after fun _ => Call.yields_after fun _ => ⟨_, rfl, rfl⟩
  | inflight => exact Call.yields_after fun _ => ⟨_, rfl, rfl⟩

end ids

/-! ## Which commands are answered -/

namespace Callees

/-- What a handler calls before its response does not throw. -/
def Returns {α : Type} (y : Except Exception α) : Prop := ∃ a, y = .ok a

/-- The defaults are set up to the first one that is not, and then all is committed or
    dropped. -/
def DefaultsAnswered (c : Callees) (clientId : ClientId) : ConfigPairList → Prop
  | [] => (c.commit clientId .default).Handled fun e => e.isCommitError = true
  | kv :: kvs => ∃ status, c.set (resetItem kv) clientId = .ok status ∧
    if status = .success then DefaultsAnswered c clientId kvs else Returns (c.drop clientId)

/-- There is a hook manager, and what is called of it satisfies `P`. -/
def WithHooks (c : Callees) (P : HookCalls → Prop) : Prop :=
  ∃ hooks, c.hookManager = some hooks ∧ P hooks

/-- The command has a payload, nothing that is called for it throws or fails an assertion, and the
    exception of the future that is returned, if there is one, is one that the handler takes. Of a
    command to set a key, the key must not be empty, and a command to the hook manager needs
    one. -/
def Answers (c : Callees) (clientId : ClientId) (m : Sysadminctl.Command) : Prop :=
  match m.payload with
  | none => False
  | some (.set key value) => ∀ conf, translateToSet key value = some conf →
    conf.key.toString.toList.contains '*' = false → conf.key.subKeys ≠ [] ∧
      (conf.key.inLast = false → Returns (c.set conf (clientOf m clientId)))
  | some (.get key) => Returns (c.get (.ofString key))
  | some (.commit config) => (c.commit (clientOf m clientId) (config.getD .default)).Handled
    fun e => e.isCommitError = true
  | some .drop => Returns (c.drop (clientOf m clientId))
  | some .firehooks => c.WithHooks fun hooks =>
    hooks.runHooks.Handled fun e => e.isExternalRunnerError = true
  | some (.erase key) => Returns (c.erase (.ofString key) (clientOf m clientId))
  | some (.rollback commitId) => (c.rollback commitId.toNat).Handled fun e =>
    e.isRollbackError = true ∨ e.isExternalRunnerError = true ∨ e.isCommitError = true
  | some .reset => Returns (c.erase (.ofString "*") clientId) ∧
    Returns (c.getAllKeys (.ofString "default.*")) ∧
      ∃ defaultValues, c.get (.ofString "default.*") = .ok defaultValues ∧
        c.DefaultsAnswered clientId defaultValues.pairs
  | some .dump => c.WithHooks fun hooks => Returns hooks.dumpHooks
  | some (.trigger hook) => c.WithHooks fun hooks =>
    (hooks.triggerHook hook).Handled fun e => e.isExternalRunnerError = true
  | some (.blame key) => Returns (c.blame (.ofString key)) ∧ Returns (c.get (.ofString key))
  | some .inflight => Returns (c.inFlightItems (clientOf m clientId))

variable {c : Callees} {clientId : ClientId} {m : Sysadminctl.Command} {id : UInt32}

theorem handled_makeFuture {P : Exception → Prop} {output : Sysadminctl.Response} :
    (makeFuture output).Handled P := trivial

theorem isSome_onError {type : Exception → Bool} {output : Sysadminctl.Response}
    {e : Exception} : (onError type output e).isSome = type e := by
  rw [onError]
  split
  · next h => rw [h]; rfl
  · next h => simp [h]

theorem isSome_onCommitError {response : CommitId → Sysadminctl.Response} {e : Exception} :
    (onCommitError response e).isSome = e.isCommitError := by
  cases e with
  | commitError | externalRunnerError | rollbackError | protobufError | other => rfl

theorem handled_resetDefaults {kvs : ConfigPairList} :
    (c.resetDefaults clientId id kvs).Handled (fun _ => False) ↔
      c.DefaultsAnswered clientId kvs := by
  induction kvs with
  | nil =>
    simp only [resetDefaults, DefaultsAnswered, Call.handled_thenError, Call.handled_thenValue,
      isSome_onCommitError, or_false]
  | cons kv kvs ih =>
    rw [resetDefaults, DefaultsAnswered, Call.handled_after]
    refine exists_congr fun status => and_congr_right fun _ => ?_
    split
    · exact ih
    · simp [Call.handled_after, handled_makeFuture, Returns]

/-- What comes behind `matchesLast` needs a key with subkeys. -/
theorem handled_after_matchesLast {k : ConfigKey} {P : Exception → Prop}
    {g : Bool → Call Exception ResponseType} : (Call.after (matchesLast k) g).Handled P ↔
      k.subKeys ≠ [] ∧ (g k.inLast).Handled P := by
  rw [Call.handled_after, matchesLast]
  split
  · next h => simp [h]
  · next h => simp [h]

/-- What comes behind the hook manager needs one. -/
theorem handled_after_hooks {P : Exception → Prop} {g : HookCalls → Call Exception ResponseType} :
    (Call.after c.hooks g).Handled P ↔ c.WithHooks fun hooks => (g hooks).Handled P := by
  rw [Call.handled_after, hooks, WithHooks]
  cases c.hookManager with
  | none => simp
  | some hooks => simp

theorem handled_setHandler {key : String} {value : Option Sysadminctl.ConfigValue} :
    (c.setHandler clientId id key value).Handled (fun _ => False) ↔
      ∀ conf, translateToSet key value = some conf →
        conf.key.toString.toList.contains '*' = false → conf.key.subKeys ≠ [] ∧
          (conf.key.inLast = false → Returns (c.set conf clientId)) := by
  rw [setHandler]
  rcases translateToSet key value with _ | conf
  · simp [handled_makeFuture]
  · simp only [Option.some.injEq, forall_eq']
    rcases conf.key.toString.toList.contains '*' with _ | _
    · rw [if_neg Bool.false_ne_true, handled_after_matchesLast, forall_prop_of_true rfl]
      refine and_congr_right fun _ => ?_
      rcases conf.key.inLast with _ | _
      · simp [Call.handled_after, handled_makeFuture, Returns]
      · simp [handled_makeFuture]
    · simp [handled_makeFuture]

/-- The handler of a payload comes to a response exactly if the command is answered. -/
theorem exists_dispatch_iff :
    (∃ o, c.dispatch clientId m = .value o) ↔ c.Answers clientId m := by
  rw [dispatch, Answers]
  rcases m.payload with _ | payload
  · simp
  · -- What a handler does not catch is dropped by `HandleMessage`.
    rw [← Call.handled_false_iff]
    cases payload with
    | set key value => exact handled_setHandler
    | get | drop | erase | inflight =>
      simp [handler, getHandler, dropHandler, eraseHandler, inFlightHandler, Call.handled_after,
        handled_makeFuture, Returns]
    | dump =>
      rw [handler, dumpHooksHandler, handled_after_hooks]
      simp [Call.handled_after, handled_makeFuture, Returns]
    | blame key =>
      simp [handler, blameHandler, Call.handled_after, handled_makeFuture, Returns]
    | commit config =>
      simp [handler, commitHandler, Call.handled_thenError, Call.handled_thenValue,
        isSome_onCommitError]
    | firehooks | trigger =>
      simp [handler, fireHooksHandler, triggerHookHandler, handled_after_hooks,
        Call.handled_thenError, Call.handled_thenValue, isSome_onError]
    | rollback commitId =>
      simp [handler, rollbackHandler, Call.handled_thenError, Call.handled_thenValue,
        isSome_onError]
    | reset =>
      simp [handler, resetHandler, Call.handled_after, handled_resetDefaults, Returns]

/-- What is written for a response is the response, or an error with its id. -/
theorem exists_frame {size : Sysadminctl.Response → Nat}
    (hsize : ∀ id, size (statusResponse id .messageSizeError) ≤ UInt32.size - 1)
    {o : ResponseType} (h : c.dispatch clientId m = .value o) (ho : HasId m.id o) :
    ∃ r, c.handleMessage size true clientId m = [r] ∧ r.id = some m.id := by
  obtain ⟨message, rfl, hid⟩ := ho
  rw [handleMessage, h]
  by_cases hlarge : size message > UInt32.size - 1
  · -- The error is small enough.
    refine ⟨statusResponse m.id .messageSizeError, ?_, rfl⟩
    have herror : sendErrorCallback size message =
        .ok [statusResponse m.id .messageSizeError] := by
      rw [sendErrorCallback, send, hid, Option.getD_some, if_neg (Nat.not_lt.2 (hsize m.id))]
    simp only [if_true, send, if_pos hlarge, herror]
  · exact ⟨message, by simp only [if_true, send, if_neg hlarge], hid⟩

/-- There is one reply exactly if the handler comes to a response. -/
theorem exists_reply_iff_exists_dispatch {size : Sysadminctl.Response → Nat}
    (hsize : ∀ id, size (statusResponse id .messageSizeError) ≤ UInt32.size - 1) :
    (∃ r, c.handleMessage size true clientId m = [r] ∧ r.id = some m.id) ↔
      ∃ o, c.dispatch clientId m = .value o := by
  constructor
  · rintro ⟨r, hr, _⟩
    rw [handleMessage] at hr
    split at hr
    · cases hr
    · cases hr
    · next message hmessage => exact ⟨_, hmessage⟩
  · rintro ⟨o, ho⟩
    refine exists_frame hsize ho ?_
    rw [dispatch] at ho
    rcases hm : m.payload with _ | payload
    · rw [hm] at ho
      cases ho
    · rw [hm] at ho
      exact (c.yields_handler clientId m payload).of_value ho

/-- Once the future of the handler has completed, there is one reply with the id
    of the command, exactly if the command has a payload, nothing that is called for it
    throws, and the handler takes the exception of the future, if there is one. -/
theorem replied_iff {size : Sysadminctl.Response → Nat}
    (hsize : ∀ id, size (statusResponse id .messageSizeError) ≤ UInt32.size - 1) :
    (∃ r, c.handleMessage size true clientId m = [r] ∧ r.id = some m.id) ↔
      c.Answers clientId m :=
  (exists_reply_iff_exists_dispatch hsize).trans exists_dispatch_iff

/-- What the calls come to in a daemon without data and hooks. -/
def onEmpty : Callees where
  set _ _ := .ok .successNewKey
  get _ := .ok .empty
  getAllKeys _ := .ok []
  erase _ _ := .ok ()
  drop _ := .ok ()
  inFlightItems _ := .ok []
  commit _ _ := .future (.value 0)
  rollback _ := .future (.exception (.rollbackError "Commit id doesn't exist, can't rollback"))
  blame _ := .ok []
  hookManager := none

/-- The length of a response with an id and a status: each has a byte in front, the status
    takes another one, and the id one for every seven bits. -/
def headerSize (r : Sysadminctl.Response) : Nat := 3 + ((r.id.getD 0).toNat.log2 / 7 + 1)

theorem headerSize_le (id : UInt32) (status : StatusCode) :
    headerSize (statusResponse id status) ≤ UInt32.size - 1 := by
  have hlog := Nat.log2_le_self id.toNat
  have hid := id.toNat_lt_size
  have hsize : UInt32.size = 4294967296 := rfl
  simp only [headerSize, statusResponse, Option.getD_some]
  omega

/-- A rollback that is refused is answered. -/
theorem replied_iff_rollback :
    (∃ r, onEmpty.handleMessage headerSize true 1 ⟨some (.rollback 5), 7, none⟩ = [r] ∧
      r.id = some 7) ↔ onEmpty.Answers 1 ⟨some (.rollback 5), 7, none⟩ :=
  replied_iff fun id => headerSize_le id .messageSizeError

/-- A command without a payload is not answered, and neither is a commit that throws. The daemon
    does not live on to answer a command to set a key without subkeys, or one for the names of the
    hooks where there is no hook manager. -/
theorem not_replied_noPayload :
    (¬∃ r, onEmpty.handleMessage headerSize true 1 ⟨none, 7, none⟩ = [r] ∧ r.id = some 7) ∧
    (¬∃ r, { onEmpty with commit := fun _ _ => .threw .other }.handleMessage headerSize true 1
      ⟨some (.commit none), 7, none⟩ = [r] ∧ r.id = some 7) ∧
    (¬∃ r, onEmpty.handleMessage headerSize true 1
      ⟨some (.set "" (some ⟨some (.int32val 1)⟩)), 7, none⟩ = [r] ∧ r.id = some 7) ∧
    ¬∃ r, onEmpty.handleMessage headerSize true 1 ⟨some .dump, 7, none⟩ = [r] ∧ r.id = some 7 := by
  refine ⟨?_, ?_, ?_, ?_⟩
  · rintro ⟨r, hr, _⟩
    cases hr
  · rintro ⟨r, hr, _⟩
    cases hr
  · rintro ⟨r, hr, _⟩
    cases hr
  · rintro ⟨r, hr, _⟩
    cases hr

end Callees

/-! ## Commits of the daemon -/

/-- How the future of a commit completes. -/
def CommitResult.completion : CommitResult → Completion Exception CommitId
  | .value commitId => .value commitId
  | .commitError what commitId => .exception (.commitError what commitId)
  | .otherException => .exception .other

namespace Configurator

variable {c : Configurator} {env : Environment} {id : ClientId} {configOpt : CommitConfig}
  {result : HookResult}

/-- What a call of `commit` comes to, once the hooks have completed. -/
def commitFuture (c : Configurator) (env : Environment) (clientId : ClientId)
    (configOpt : CommitConfig) (result : HookResult) : Call Exception CommitId :=
  match c.commit env clientId configOpt with
  | (_, .threw) => .threw .other
  | (_, .ready commitId) => .future (.value commitId)
  | (c, .hooks _ _ commitId) => .future (c.completeHooks clientId commitId result).2.completion

/-- A commit that takes place is handled if its changes can be logged, and its hooks, if it
    runs any, succeed or complete with an `ExternalRunnerError`. -/
theorem handled_commitFuture :
    (c.commitFuture env id configOpt result).Handled (fun e => e.isCommitError = true) ↔
      (c.Committable id →
        c.CanLog env id ∧ (configOpt ≠ .noHooks → result ≠ .otherException)) := by
  rw [commitFuture, ← logged_ne_none_iff]
  obtain ⟨hc, h⟩ | ⟨hc, hl, h⟩ | ⟨hc, commitId, hl, h⟩ := commit_cases c env id configOpt
  · rw [h]
    exact iff_of_true trivial fun hc' => absurd hc' hc
  · rw [h]
    exact iff_of_false not_false fun hcan => (hcan hc).1 hl
  · rw [h]
    by_cases ho : configOpt = .noHooks
    · rw [if_pos ho]
      exact iff_of_true trivial fun _ => ⟨by simp [hl], fun hn => absurd ho hn⟩
    · rw [if_neg ho]
      cases result with
      | value | externalRunnerError | otherException =>
        simp [Call.Handled, completeHooks, CommitResult.completion, Exception.isCommitError, hc,
          hl, ho]

end Configurator

/-- A commit of the daemon is answered if it does not take place, or if its changes can be
    logged and its hooks do not complete with an exception of another type. -/
theorem Daemon.replied_commit_iff {s : Daemon} {c : Callees} {env : Environment}
    {clientId : ClientId} {m : Sysadminctl.Command} {config : Option CommitConfig}
    {result : HookResult} {size : Sysadminctl.Response → Nat}
    (hsize : ∀ id, size (statusResponse id .messageSizeError) ≤ UInt32.size - 1)
    (hm : m.payload = some (.commit config))
    (hc : ∀ id configOpt, c.commit id configOpt = s.conf.commitFuture env id configOpt result) :
    (∃ r, c.handleMessage size true clientId m = [r] ∧ r.id = some m.id) ↔
      (s.conf.Committable (clientOf m clientId) → s.conf.CanLog env (clientOf m clientId) ∧
        (config.getD .default ≠ .noHooks → result ≠ .otherException)) := by
  rw [Callees.exists_reply_iff_exists_dispatch hsize, Callees.exists_dispatch_iff,
    Callees.Answers, hm]
  dsimp only
  rw [hc, Configurator.handled_commitFuture]

end SysAdmin
