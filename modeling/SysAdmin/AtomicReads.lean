import SysAdmin.Foundation.AtomicStores
import SysAdmin.Foundation.Simulations
import SysAdmin.GetRequests
import SysAdmin.OneofProtocols

/-!
# Reads of what has been committed

With all its clients, its buckets and the hooks that its commits wait for, the server is a store
that is written and read in one piece: a commit, a rollback or a reset writes all its items in the
moment in which it is handled, and a request to get keys reads in the moment in which it is handled,
however long the responses take to come. What is staged is never read.

* `OneofServer.atomic_run`: the answers to requests to get keys are those of such a store, on which
  the operations of the commands are done one after the other, in the order of the commands;
* `OneofServer.reads_commit`: after a commit to a key, all clients read the value that has been
  committed, until another commit writes to the key.
-/

namespace SysAdmin

open Machine Writes SysAdminController ProtobufTranslator

/-! ## The operations of commands -/

/-- What a call of `commit` writes, if it applies its bucket. -/
def CommitCall.ops (call : CommitCall) : List (StoreOp ConfigKey ConfigValue ℕ) :=
  if call.conf.Committable call.clientId ∧ (call.conf.logged call.env call.clientId).2 ≠ none then
    [.write (call.conf.toApply call.clientId).writes]
  else []

/-- What a command reads. -/
def readOps (m : Sysadminctl.Command) (number : ℕ) : List (StoreOp ConfigKey ConfigValue ℕ) :=
  match m.payload with
  | some (.get key) => [.read number {k | (ConfigKey.ofString key).Selects k}]
  | some (.set ..) | some (.commit _) | some .drop | some .firehooks | some (.erase _)
  | some (.rollback _) | some .reset | some .dump | some (.trigger _) | some (.blame _)
  | some .inflight | none => []

/-- What a command writes. -/
def Daemon.writeOps (s : Daemon) (e : RequestEvent) : List (StoreOp ConfigKey ConfigValue ℕ) :=
  match s.commitCall e with
  | none => []
  | some call => call.ops

/-- What an event does with the store. -/
def OneofServer.storeOps {ω : Type} (surroundings : ℕ → Surroundings) (s : OneofServer ω) :
    OneofEvent → List (StoreOp ConfigKey ConfigValue ℕ)
  | .message serial m =>
    match s.connections.find? fun conn => conn.serial = serial with
    | none => []
    | some conn =>
      readOps m s.commands.length ++
        s.daemon.writeOps (.request (surroundings s.commands.length).env conn.id m)
  | .connect _ | .disconnect _ | .complete .. => []

/-- The fields are those of the pairs that have been read. -/
def ListsAnswer (answer : ConfigKey → Option ConfigValue)
    (kvs : List Sysadminctl.MappedField) : Prop :=
  ∃ pairs : ConfigPairList, (∀ p, p ∈ pairs ↔ answer p.key = some p.value) ∧
    (pairs.map ConfigPair.key).Nodup ∧
      (kvs.map fun field => translateToSet field.key field.value) = pairs.map some

/-- The response to a request to get keys. -/
def kvsResponse (kvs : List Sysadminctl.MappedField) (id : UInt32) : Sysadminctl.Response :=
  ⟨some (.get kvs), some id, some (if kvs = [] then .keyNotFound else .success)⟩

/-! ## What one event does -/

namespace Daemon

variable {s : Daemon} {e : RequestEvent} {number : ℕ}

/-- The store after a request. -/
theorem values_writeOps {a : AtomicStore ConfigKey ConfigValue ℕ} (h : s.conf.store = a.values) :
    (s.serve e).conf.store = (run AtomicStore.step a (s.writeOps e)).values := by
  rw [writeOps]
  rcases hcall : s.commitCall e with _ | call
  · rw [store_serve_of_none hcall, h]
    rfl
  · rw [conf_serve_of_commitCall hcall, CommitCall.after, Configurator.store_commit,
      store_commitCall hcall, h]
    dsimp only
    rw [CommitCall.ops]
    split <;> rfl

theorem answers_writeOps {a : AtomicStore ConfigKey ConfigValue ℕ} :
    (run AtomicStore.step a (s.writeOps e)).answers = a.answers := by
  rw [writeOps]
  split
  · rfl
  · rw [CommitCall.ops]
    split <;> rfl

/-- The response to a request to get keys has what is stored then. -/
theorem exists_response_get (h : s.conf.KeysIn ConfigKey.Named ConfigKey.Named)
    {a : AtomicStore ConfigKey ConfigValue ℕ} (hstore : s.conf.store = a.values)
    (around : Surroundings) (conn : Connection) {m : Sysadminctl.Command} {key : String}
    (hm : m.payload = some (.get key)) :
    ∃ kvs, ListsAnswer (a.snapshot {k | (ConfigKey.ofString key).Selects k}) kvs ∧
      ∀ result,
        (s.served around conn m).response result = .value (some (kvsResponse kvs m.id)) := by
  obtain ⟨kvs, pairs, hlists, hget⟩ := Configurator.getHandler_eq h.stored key m.id
  refine ⟨kvs, ⟨pairs, fun p => ?_, hlists.nodup, hlists.read⟩, fun result => ?_⟩
  · rw [AtomicStore.snapshot_eq_some_iff, ← hstore]
    exact hlists.mem_iff p
  · rw [served]
    dsimp only
    rw [response, hm, Callees.dispatch, hm]
    exact congrArg (fun r => Futures.Completion.value (some r)) hget

theorem keysIn_onEmpty {n : ℕ} : (onEmpty n).conf.KeysIn ConfigKey.Named ConfigKey.Named :=
  @keysIn_named_run [] n

theorem keysIn_request (h : s.conf.KeysIn ConfigKey.Named ConfigKey.Named) (e : RequestEvent) :
    (s.serve e).conf.KeysIn ConfigKey.Named ConfigKey.Named :=
  keysIn_serve keyRule_named h (names_named h e)

end Daemon

namespace OneofServer

variable {ω : Type} {write : Sysadminctl.Response → List ω} {surroundings : ℕ → Surroundings}

/-- What holds of a server and the store that its commands have been operations on. -/
structure Atomic (s : OneofServer ω) (a : AtomicStore ConfigKey ConfigValue ℕ) : Prop where
  keysIn : s.daemon.conf.KeysIn ConfigKey.Named ConfigKey.Named
  store_eq : s.daemon.conf.store = a.values
  nodup : (a.answers.map Prod.fst).Nodup
  lt : ∀ x ∈ a.answers, x.1 < s.commands.length
  answered : ∀ (n : ℕ) c key, s.commands[n]? = some c → c.message.payload = some (.get key) →
    ∃ answer kvs, (n, answer) ∈ a.answers ∧ ListsAnswer answer kvs ∧
      ∀ result, c.response result = .value (some (kvsResponse kvs c.message.id))

variable {s : OneofServer ω} {a : AtomicStore ConfigKey ConfigValue ℕ}

theorem atomic_start {n : ℕ} :
    (start (.onEmpty n) : OneofServer ω).Atomic (.start fun _ => none) where
  keysIn := Daemon.keysIn_onEmpty
  store_eq := by
    funext k
    rfl
  nodup := List.nodup_nil
  lt _ h := absurd h List.not_mem_nil
  answered _ _ _ h := by cases h

/-- The store of the daemon when hooks have completed. -/
theorem Atomic.complete (h : s.Atomic a) (hooks : AwaitedHooks) (result : HookResult) :
    (s.complete write hooks result).Atomic a := by
  cases hooks with
  | command number => exact ⟨h.keysIn, h.store_eq, h.nodup, h.lt, h.answered⟩
  | commit ticket =>
    refine ⟨Daemon.keysIn_request h.keysIn (.complete ticket result), ?_, h.nodup, h.lt, h.answered⟩
    exact (Daemon.store_serve_of_none (e := .complete ticket result) rfl).trans h.store_eq

/-- What a command reads is added to the answers, under its number. -/
theorem answers_readOps (m : Sysadminctl.Command) (number : ℕ) :
    ∃ new, (run AtomicStore.step a (readOps m number)).answers = a.answers ++ new ∧
      (run AtomicStore.step a (readOps m number)).values = a.values ∧
      (new.map Prod.fst).Sublist [number] ∧
      ∀ key, m.payload = some (.get key) →
        new = [(number, a.snapshot {k | (ConfigKey.ofString key).Selects k})] := by
  rw [readOps]
  rcases m.payload with _ | payload
  · exact ⟨[], (List.append_nil _).symm, rfl, List.nil_sublist _, fun key hkey => by cases hkey⟩
  · cases payload with
    | get key =>
      refine ⟨_, rfl, rfl, List.Sublist.refl _, fun key' hkey => ?_⟩
      cases hkey
      rfl
    | set | commit | drop | firehooks | erase | rollback | reset | dump | trigger | blame
    | inflight =>
      exact ⟨[], (List.append_nil _).symm, rfl, List.nil_sublist _, fun key hkey => by cases hkey⟩

/-- A command is handled by the daemon. -/
theorem Atomic.request (h : s.Atomic a) (conn : Connection) (m : Sysadminctl.Command)
    (awaiting : List AwaitedReply) (written : List (Written ω))
    (completed : List (ℕ × HookResult)) :
    ({ s with
      daemon := s.daemon.request (surroundings s.commands.length).env conn.id m
      commands := s.commands ++ [s.daemon.served (surroundings s.commands.length) conn m]
      awaiting
      written
      completed } : OneofServer ω).Atomic
      (run AtomicStore.step a (readOps m s.commands.length ++
        s.daemon.writeOps (.request (surroundings s.commands.length).env conn.id m))) := by
  obtain ⟨new, hnew, hvalues, hsub, hget⟩ := answers_readOps (a := a) m s.commands.length
  -- A command reads at most once, under its own number.
  have hlt : ∀ x ∈ new, x.1 = s.commands.length := fun x hx =>
    List.mem_singleton.1 (hsub.subset (List.mem_map_of_mem hx))
  have hanswers : (run AtomicStore.step a (readOps m s.commands.length ++
      s.daemon.writeOps (.request (surroundings s.commands.length).env conn.id m))).answers =
        a.answers ++ new := by
    rw [run_append, Daemon.answers_writeOps, hnew]
  refine ⟨Daemon.keysIn_request h.keysIn (.request _ _ m), ?_, ?_, ?_, ?_⟩
  · rw [run_append]
    exact Daemon.values_writeOps (e := .request _ _ m) (h.store_eq.trans hvalues.symm)
  · rw [hanswers, List.map_append, List.nodup_append]
    refine ⟨h.nodup, (List.nodup_singleton _).sublist hsub, fun n hn n' hn' hnn => ?_⟩
    obtain ⟨x, hx, rfl⟩ := List.mem_map.1 hn
    obtain ⟨x', hx', rfl⟩ := List.mem_map.1 hn'
    exact (h.lt x hx).ne (hnn.trans (hlt x' hx'))
  · rw [hanswers, List.length_append]
    refine List.forall_mem_append.2 ⟨fun x hx => (h.lt x hx).trans_le (Nat.le_add_right _ _), ?_⟩
    exact fun x hx => (hlt x hx).trans_lt (Nat.lt_succ_self _)
  · intro n c key hc hkey
    rw [hanswers]
    rcases Nat.lt_trichotomy n s.commands.length with hn | rfl | hn
    · -- An earlier command keeps its answer.
      rw [List.getElem?_append_left hn] at hc
      obtain ⟨answer, kvs, hmem, hans⟩ := h.answered n c key hc hkey
      exact ⟨answer, kvs, List.mem_append_left _ hmem, hans⟩
    · -- This command reads the store as it is before what it writes.
      rw [List.getElem?_concat_length] at hc
      obtain rfl := Option.some.inj hc
      obtain ⟨kvs, hkvs, hresponse⟩ := Daemon.exists_response_get h.keysIn h.store_eq
        (surroundings s.commands.length) conn hkey
      refine ⟨_, kvs, List.mem_append_right _ ?_, hkvs, hresponse⟩
      rw [hget key hkey]
      exact List.mem_singleton_self _
    · rw [List.getElem?_eq_none (by rw [List.length_append, List.length_singleton]; omega)] at hc
      cases hc

theorem Atomic.step (h : s.Atomic a) (e : OneofEvent) :
    (s.step write surroundings e).Atomic
      (run AtomicStore.step a (s.storeOps surroundings e)) := by
  cases e with
  | connect id =>
    rw [OneofServer.step]
    split <;> exact ⟨h.keysIn, h.store_eq, h.nodup, h.lt, h.answered⟩
  | disconnect serial => exact ⟨h.keysIn, h.store_eq, h.nodup, h.lt, h.answered⟩
  | complete hooks result => exact h.complete hooks result
  | message serial m =>
    rw [OneofServer.step, storeOps]
    rcases hconn : s.connections.find? (fun conn => conn.serial = serial) with _ | conn
    · rw [hconn]
      exact h
    · rw [hconn]
      dsimp only
      rw [handleMessage]
      dsimp only
      split
      · exact h.request conn m _ _ _
      · split
        · exact h.request conn m _ _ _
        · exact (h.request conn m _ _ _).complete _ _

variable (write surroundings) in
/-- The operations of the commands of a run. -/
abbrev operations (s : OneofServer ω) (es : List OneofEvent) :
    List (StoreOp ConfigKey ConfigValue ℕ) :=
  history (OneofServer.step write surroundings) (storeOps surroundings) s es

theorem Atomic.run (h : s.Atomic a) (es : List OneofEvent) :
    (run (OneofServer.step write surroundings) s es).Atomic
      (run AtomicStore.step a (operations write surroundings s es)) :=
  run_of_simulation (fun _ _ e h => h.step e) h es

/-! ## What is written -/

section written

variable {size : Sysadminctl.Response → ℕ} {n : ℕ} {es : List OneofEvent}

/-- In all runs, the store of the daemon is what the operations of the commands make of an empty
    store, and what is written for a request to get keys has the answer of the store to its read,
    each pair once and readable as what is stored, unless it is too large to be sent. -/
theorem atomic_run (surroundings : ℕ → Surroundings)
    (hsize : ∀ id, size (statusResponse id .messageSizeError) ≤ UInt32.size - 1) (n : ℕ)
    (es : List OneofEvent) :
    let s := Machine.run (step (sendReply (send size)) surroundings) (start (.onEmpty n)) es
    let a := Machine.run AtomicStore.step (.start fun _ => none)
      (operations (sendReply (send size)) surroundings (start (.onEmpty n)) es)
    s.daemon.conf.store = a.values ∧ (a.answers.map Prod.fst).Nodup ∧
      ∀ w ∈ s.written, ∀ c key, s.commands[w.number]? = some c →
        c.message.payload = some (.get key) →
          ∃ answer kvs, (w.number, answer) ∈ a.answers ∧ ListsAnswer answer kvs ∧
            (w.item = kvsResponse kvs c.message.id ∨
              w.item = statusResponse c.message.id .messageSizeError) := by
  intro s a
  have h : s.Atomic a := atomic_start.run es
  have ho : s.Orderly (sendReply (send size)) := (orderly_run hsize (.onEmpty n) es).last
  refine ⟨h.store_eq, h.nodup, fun w hw c key hc hkey => ?_⟩
  obtain ⟨c', hc', -, -, result, r, -, hr, hsend⟩ := ho.written_get w hw
  obtain rfl : c = c' := Option.some.inj (hc.symm.trans hc')
  obtain ⟨answer, kvs, hmem, hkvs, hresponse⟩ := h.answered w.number c key hc hkey
  rw [hresponse result, Futures.Completion.value.injEq, Option.some.injEq] at hr
  rw [← hr] at hsend
  exact ⟨answer, kvs, hmem, hkvs, eq_of_sendReply hsend⟩

/-- A request to get keys is answered at once, with what the store has then. -/
theorem Atomic.exists_written_get {s : OneofServer Sysadminctl.Response}
    {write : Sysadminctl.Response → List Sysadminctl.Response} (h : s.Atomic a)
    (hwrite : WritesOne write) {serial : ℕ} {conn : Connection} {m : Sysadminctl.Command}
    {key : String} (hconn : s.connections.find? (fun conn => conn.serial = serial) = some conn)
    (hm : m.payload = some (.get key)) :
    ∃ kvs, ListsAnswer (a.snapshot {k | (ConfigKey.ofString key).Selects k}) kvs ∧
      ∃ w ∈ (s.step write surroundings (.message serial m)).writtenOn serial,
        w.number = s.commands.length ∧ write (kvsResponse kvs m.id) = [w.item] := by
  obtain ⟨kvs, hkvs, hresponse⟩ := Daemon.exists_response_get h.keysIn h.store_eq
    (surroundings s.commands.length) conn hm
  obtain ⟨r, hr, -⟩ := hwrite (kvsResponse kvs m.id) m.id rfl
  obtain rfl : conn.serial = serial := by simpa using List.find?_some hconn
  have hopen : conn.serial ∈ s.connections.map Connection.serial :=
    List.mem_map_of_mem (List.mem_of_find?_eq_some hconn)
  -- There are no hooks to wait for.
  have hawaited : s.daemon.awaited (surroundings s.commands.length) conn.id m
      s.commands.length = none := by
    rw [Daemon.awaited, Daemon.request, hm]
    exact if_neg fun hne => hne rfl
  refine ⟨kvs, hkvs, ⟨conn.serial, s.commands.length, r⟩, ?_, rfl, hr⟩
  rw [OneofServer.step, hconn]
  dsimp only
  rw [handleMessage, hawaited, writtenOn]
  refine List.mem_filter.2 ⟨List.mem_append_right _ ?_, decide_eq_true rfl⟩
  rw [reply, hresponse]
  dsimp only
  rw [hr]
  change _ ∈ if conn.serial ∈ s.connections.map Connection.serial then _ else _
  rw [if_pos hopen]
  exact List.mem_singleton_self _

/-- What a commit has written to a key, all clients read behind it, until another commit writes to
    the key. -/
theorem reads_commit (surroundings : ℕ → Surroundings)
    (hsize : ∀ id, size (statusResponse id .messageSizeError) ≤ UInt32.size - 1) (n : ℕ)
    {before between : List OneofEvent} (after : List OneofEvent) {committer reader : ℕ}
    {conn conn' : Connection} {m m' : Sysadminctl.Command} {key : String} {k : ConfigKey}
    {v : ConfigValue} {ws : List (ConfigKey × Option ConfigValue)}
    (hconn : (Machine.run (step (sendReply (send size)) surroundings) (start (.onEmpty n))
      before).connections.find? (fun conn => conn.serial = committer) = some conn)
    (hcommit : (Machine.run (step (sendReply (send size)) surroundings) (start (.onEmpty n))
      before).daemon.writeOps (.request (surroundings (Machine.run
        (step (sendReply (send size)) surroundings) (start (.onEmpty n))
          before).commands.length).env conn.id m) = [.write ws])
    (hws : lastWrite k ws = some (some v))
    (hbetween : ∀ op ∈ operations (sendReply (send size)) surroundings
      (Machine.run (step (sendReply (send size)) surroundings) (start (.onEmpty n))
        (before ++ [.message committer m])) between, ∀ w ∈ op.writes, w.1 ≠ k)
    (hconn' : (Machine.run (step (sendReply (send size)) surroundings) (start (.onEmpty n))
      (before ++ .message committer m :: between)).connections.find?
        (fun conn => conn.serial = reader) = some conn')
    (hkey : m'.payload = some (.get key)) (hk : (ConfigKey.ofString key).Selects k) :
    let s := Machine.run (step (sendReply (send size)) surroundings) (start (.onEmpty n))
      (before ++ .message committer m :: between)
    ∃ w ∈ (Machine.run (step (sendReply (send size)) surroundings) s
        (.message reader m' :: after)).writtenOn reader, w.number = s.commands.length ∧
      (w.item = statusResponse m'.id .messageSizeError ∨
        ∃ kvs, w.item = kvsResponse kvs m'.id ∧
          ∃ field ∈ kvs, translateToSet field.key field.value = some ⟨k, v⟩) := by
  intro s
  have hs : s.Atomic _ := atomic_start.run _
  obtain ⟨kvs, ⟨pairs, hpairs, -, hread⟩, w, hw, hnumber, hitem⟩ :=
    hs.exists_written_get (writesOne_sendReply hsize) hconn' hkey
  obtain ⟨new, hnew⟩ := exists_written_run (sendReply (send size)) surroundings
    (step (sendReply (send size)) surroundings s (.message reader m')) reader after
  refine ⟨w, ?_, hnumber, ?_⟩
  · rw [run_cons, hnew]
    exact List.mem_append_left _ hw
  · refine (eq_of_sendReply hitem).symm.imp id fun heq => ⟨kvs, heq, ?_⟩
    -- the commit is the last operation that writes to the key
    have hmem : (⟨k, v⟩ : ConfigPair) ∈ pairs := by
      refine (hpairs ⟨k, v⟩).2 ?_
      rw [operations, history_append, history, storeOps, hconn]
      dsimp only
      rw [hcommit, ← List.append_assoc, ← List.append_assoc, List.append_assoc,
        List.singleton_append]
      refine AtomicStore.snapshot_of_write hws ?_ hk
      rw [run_append] at hbetween
      exact hbetween
    have hfield : some ⟨k, v⟩ ∈ kvs.map fun field => translateToSet field.key field.value := by
      rw [hread]
      exact List.mem_map_of_mem hmem
    obtain ⟨field, hfield, heq⟩ := List.mem_map.1 hfield
    exact ⟨field, hfield, heq⟩

/-- A client sets a key and commits, another one connects and gets the key. -/
def setA : List OneofEvent :=
  [.connect 5, .message 0 ⟨some (.set "a" (some ⟨some (.int32val 1)⟩)), 7, none⟩]

def commitSetA : Sysadminctl.Command := ⟨some (.commit (some .noHooks)), 8, none⟩

def getA : Sysadminctl.Command := ⟨some (.get "a"), 9, none⟩

theorem atomic_run_getA :
    let es := setA ++ [.message 0 commitSetA, .connect 6, .message 1 getA]
    let s := Machine.run (step (sendReply (send Callees.headerSize)) fun _ => .quiet)
      (start (.onEmpty 3)) es
    let a := Machine.run AtomicStore.step (.start fun _ => none)
      (operations (sendReply (send Callees.headerSize)) (fun _ => .quiet) (start (.onEmpty 3)) es)
    s.daemon.conf.store = a.values ∧ (a.answers.map Prod.fst).Nodup ∧
      ∀ w ∈ s.written, ∀ c key, s.commands[w.number]? = some c →
        c.message.payload = some (.get key) →
          ∃ answer kvs, (w.number, answer) ∈ a.answers ∧ ListsAnswer answer kvs ∧
            (w.item = kvsResponse kvs c.message.id ∨
              w.item = statusResponse c.message.id .messageSizeError) :=
  atomic_run _ (fun id => Callees.headerSize_le id .messageSizeError) 3 _

theorem reads_commit_getA :
    let s := Machine.run (step (sendReply (send Callees.headerSize)) fun _ => .quiet)
      (start (.onEmpty 3)) (setA ++ .message 0 commitSetA :: [.connect 6])
    ∃ w ∈ (Machine.run (step (sendReply (send Callees.headerSize)) fun _ => .quiet) s
        [.message 1 getA]).writtenOn 1, w.number = s.commands.length ∧
      (w.item = statusResponse 9 .messageSizeError ∨
        ∃ kvs, w.item = kvsResponse kvs 9 ∧
          ∃ field ∈ kvs, translateToSet field.key field.value =
            some ⟨.ofString "a", .ofType (.int32 1)⟩) := by
  let c := (Machine.run (step (sendReply (send Callees.headerSize)) fun _ => .quiet)
    (start (.onEmpty 3)) setA).daemon.conf
  have hops : CommitCall.ops ⟨c, ⟨0, true⟩, 5, .noHooks⟩ = [.write (c.toApply 5).writes] :=
    if_pos (by decide +kernel)
  exact @reads_commit Callees.headerSize (fun _ => .quiet)
    (fun id => Callees.headerSize_le id .messageSizeError) 3 setA [.connect 6] [] 0 1 ⟨0, 5⟩ ⟨1, 6⟩
    commitSetA getA "a" (.ofString "a") (.ofType (.int32 1)) (c.toApply 5).writes
    (by decide +kernel) hops (by decide +kernel)
    (fun op hop => absurd hop List.not_mem_nil) (by decide +kernel) rfl
    (by rw [ConfigKey.Selects, if_neg (by decide)])

end written

end OneofServer

end SysAdmin
