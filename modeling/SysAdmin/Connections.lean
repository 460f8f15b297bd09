import SysAdmin.Daemon

/-!
# Connections

Clients talk to the daemon over connections. The server makes a `Protocol` object for each,
whose address is the id of the client (`Connection.id`) for all commands without a
transaction id of their own. It deletes the object when the connection closes, so that the
address may be that of a later connection, too. What was staged stays: closing a connection
drops nothing.

`Server.step` handles connections that open and close, their commands, and hooks that
complete. Each connection has a serial number, for us to tell it from the others, and the
server records what has been staged over which connection (`Server.sent`).

* `Separated`: the buckets of the open connections hold what was sent over them, unless
  they are locked. Every event keeps this (`Separated.step`) but for one: a connection that
  opens at an address with an unlocked bucket;
* `isolated_run`: without such openings, a commit applies only what was sent over its
  connection.

The storage keeps what has been committed under an id, and writes it to the files again at
each commit under that id. For the files, a connection must not open at the address of one
that has committed, either (`FilesIsolated`).
-/

namespace SysAdmin

open Machine

/-- A command of a client without a transaction id of its own. -/
inductive Message
  | set (item : ConfigPair)
  | erase (key : ConfigKey)
  | drop
  | commit (env : Environment) (configOpt : CommitConfig)

/-- The call that a command makes in the name of a client. -/
def Message.event (clientId : ClientId) : Message → Event
  | set item => .set item clientId
  | erase key => .erase key clientId
  | drop => .drop clientId
  | commit env configOpt => .commit env clientId configOpt

/-- A connection: its serial number and its id, the address of its `Protocol` object. -/
structure Connection where
  serial : Nat
  id : ClientId
  deriving DecidableEq

/-- The daemon with its open connections, and with what has been staged so far, each item
    with the serial number of its connection. -/
structure Server where
  daemon : Daemon
  connections : List Connection
  nextSerial : Nat
  sent : List (Nat × ConfigPair)

/-- What can happen: connections open and close and send commands, and hooks complete. -/
inductive ServerEvent
  | connect (id : ClientId)
  | disconnect (conn : Connection)
  | message (conn : Connection) (m : Message)
  | complete (ticket : Nat) (result : HookResult)

/-- The items a command stages. -/
def Message.items (c : Configurator) (clientId : ClientId) (m : Message) : ConfigPairList :=
  match (m.event clientId).staging c with
  | some (_, items) => items
  | none => []

namespace Configurator

/-- What the storage keeps under an id from earlier commits. -/
def kept (c : Configurator) (id : ClientId) : ConfigPairList :=
  c.systemStore.backingStore.inFlightItems.staged id

/-- What a commit that applies its bucket has the storage write to the files. -/
def written (c : Configurator) (id : ClientId) : ConfigPairList := c.kept id ++ c.toApply id

variable {c : Configurator} {env : Environment} {id x : ClientId} {configOpt : CommitConfig}

/-- After a commit, the storage keeps what it kept, and what has been applied. -/
theorem mem_kept_commit {p : ConfigPair} (hp : p ∈ (c.commit env id configOpt).1.kept x) :
    p ∈ c.kept x ∨ x = id ∧ c.Committable id ∧ p ∈ c.toApply id := by
  rw [kept, systemStore_commit] at hp
  split at hp
  · next hc =>
    rw [MemoryCache.backingStore_setAndCommit c.quiet] at hp
    exact (LockedConfigPairMap.mem_staged_insertAll hp).imp_right fun ⟨hx, hp⟩ => ⟨hx, hc.1, hp⟩
  · exact .inl hp

end Configurator

namespace Server

/-- A server without connections. -/
def start (d : Daemon) : Server := ⟨d, [], 0, []⟩

/-- Handles an event. An object that is alive has its address for itself, and only open
    connections send commands. -/
def step (s : Server) : ServerEvent → Server
  | .connect id =>
    if id ∈ s.connections.map Connection.id then s
    else { s with
      connections := s.connections ++ [⟨s.nextSerial, id⟩]
      nextSerial := s.nextSerial + 1 }
  | .disconnect conn => { s with connections := s.connections.erase conn }
  | .message conn m =>
    if conn ∈ s.connections then { s with
      daemon := s.daemon.step (m.event conn.id)
      sent := s.sent ++ (m.items s.daemon.conf conn.id).map fun item => (conn.serial, item) }
    else s
  | .complete ticket result => { s with daemon := s.daemon.step (.complete ticket result) }

/-- What has been staged over a connection. -/
def sentOn (s : Server) (conn : Connection) : ConfigPairList :=
  (s.sent.filter fun x => x.1 = conn.serial).map Prod.snd

/-- The bucket under an id. -/
def bucket? (s : Server) (id : ClientId) : Option LockedConfigPairList :=
  s.daemon.conf.inFlightItems.bucket? id

/-- A commit that applies its bucket finds there the last items sent over its connection,
    and nothing else. -/
def Isolated (s : Server) : ServerEvent → Prop
  | .message conn (.commit _ _) => conn ∈ s.connections → s.daemon.conf.Committable conn.id →
      s.daemon.conf.inFlightItems.staged conn.id <:+ s.sentOn conn
  | .message _ (.set _) | .message _ (.erase _) | .message _ .drop | .connect _
  | .disconnect _ | .complete .. => True

/-- The item was sent over the connection, or is the pair of `last.*` for one that was. -/
def SentOrLast (s : Server) (conn : Connection) (p : ConfigPair) : Prop :=
  p ∈ s.sentOn conn ∨ ∃ q ∈ s.sentOn conn, p.key = q.key.lastKey

/-- A commit that applies its bucket writes to the files what was sent over its connection
    and the pairs of `last.*` for it, and nothing else. -/
def FilesIsolated (s : Server) : ServerEvent → Prop
  | .message conn (.commit _ _) => conn ∈ s.connections → s.daemon.conf.Committable conn.id →
      ∀ p ∈ s.daemon.conf.written conn.id, s.SentOrLast conn p
  | .message _ (.set _) | .message _ (.erase _) | .message _ .drop | .connect _
  | .disconnect _ | .complete .. => True

/-- A connection that opens finds no bucket under its id, or a locked one. -/
def OpensClean (s : Server) : ServerEvent → Prop
  | .connect id => id ∉ s.connections.map Connection.id →
      ∀ b ∈ s.bucket? id, b.locked = true
  | .disconnect _ | .message .. | .complete .. => True

instance (s : Server) : ∀ e, Decidable (s.OpensClean e)
  | .connect id => inferInstanceAs (Decidable (id ∉ _ → ∀ b ∈ s.bucket? id, b.locked = true))
  | .disconnect _ | .message .. | .complete .. => .isTrue trivial

/-- The storage keeps nothing under the id of a connection that opens. -/
def OpensFresh (s : Server) : ServerEvent → Prop
  | .connect id => id ∉ s.connections.map Connection.id → s.daemon.conf.kept id = []
  | .disconnect _ | .message .. | .complete .. => True

instance (s : Server) : ∀ e, Decidable (s.OpensFresh e)
  | .connect id => inferInstanceAs (Decidable (id ∉ _ → s.daemon.conf.kept id = []))
  | .disconnect _ | .message .. | .complete .. => .isTrue trivial

/-- What the items of an open connection's bucket are, unless it is locked. -/
def Owned (s : Server) (conn : Connection) : Prop :=
  ∀ b, s.bucket? conn.id = some b → b.locked = true ∨ b.list <:+ s.sentOn conn

/-- The open connections are told apart by their ids and by their serial numbers, and their
    buckets are their own. -/
structure Separated (s : Server) : Prop where
  nodup_ids : (s.connections.map Connection.id).Nodup
  nodup_serials : (s.connections.map Connection.serial).Nodup
  serial_lt : ∀ conn ∈ s.connections, conn.serial < s.nextSerial
  sent_lt : ∀ x ∈ s.sent, x.1 < s.nextSerial
  owned : ∀ conn ∈ s.connections, s.Owned conn

/-- What the storage keeps for the open connections is their own, too. -/
def KeptApart (s : Server) : Prop :=
  ∀ conn ∈ s.connections, ∀ p ∈ s.daemon.conf.kept conn.id, s.SentOrLast conn p

variable {s : Server} {e : ServerEvent} {conn conn' : Connection} {m : Message} {d : Daemon}
  {x id : ClientId} {p : ConfigPair}

theorem separated_start : (start d).Separated where
  nodup_ids := List.nodup_nil
  nodup_serials := List.nodup_nil
  serial_lt _ h := absurd h List.not_mem_nil
  sent_lt _ h := absurd h List.not_mem_nil
  owned _ h := absurd h List.not_mem_nil

/-! ## Buckets -/

/-- The bucket of another client stays as it is, or goes. -/
theorem bucket?_event_of_ne (hx : x ≠ id) :
    (d.step (m.event id)).conf.inFlightItems.bucket? x = d.conf.inFlightItems.bucket? x ∨
      (d.step (m.event id)).conf.inFlightItems.bucket? x = none := by
  -- Staging may age the bucket of another client out.
  have hstage : ∀ items, (d.conf.stage id items).inFlightItems.bucket? x =
      d.conf.inFlightItems.bucket? x ∨ (d.conf.stage id items).inFlightItems.bucket? x = none := by
    intro items
    rw [Configurator.bucket?_stage_of_ne hx]
    split
    · exact .inr rfl
    · exact .inl rfl
  cases m with
  | set item =>
    rw [Message.event, Daemon.step, Configurator.set_fst]
    exact hstage _
  | erase key => exact hstage _
  | drop =>
    rw [Message.event, Daemon.step, Configurator.bucket?_drop, if_neg hx]
    exact .inl rfl
  | commit env configOpt =>
    rw [Message.event, Daemon.conf_commit, Configurator.bucket?_commit_of_ne hx]
    exact .inl rfl

/-- The bucket of the client itself: after a command, it is locked or gone, or has got what
    the command stages. -/
theorem bucket?_event_self {b : LockedConfigPairList}
    (hb : (d.step (m.event id)).conf.inFlightItems.bucket? id = some b) :
    b.locked = true ∨ d.conf.inFlightItems.isBucketLocked id = false ∧
      b.list = d.conf.inFlightItems.staged id ++ m.items d.conf id := by
  have hstage : ∀ items, (d.conf.stage id items).inFlightItems.bucket? id = some b →
      b.locked = true ∨ d.conf.inFlightItems.isBucketLocked id = false ∧
        b.list = d.conf.inFlightItems.staged id ++ items := by
    intro items hb
    rw [Configurator.bucket?_stage_self] at hb
    cases hl : d.conf.inFlightItems.isBucketLocked id with
    | true =>
      split at hb
      · exact .inl (by rw [← LockedConfigPairMap.isBucketLocked_of_some hb, hl])
      · rw [← Option.some.inj hb]
        exact .inl hl
    | false =>
      refine .inr ⟨rfl, ?_⟩
      split at hb
      · next hnil => rw [hnil, LockedConfigPairMap.staged_of_some hb, List.append_nil]
      · rw [← Option.some.inj hb]
  cases m with
  | set item =>
    rw [Message.event, Daemon.step, Configurator.set_fst] at hb
    exact hstage _ hb
  | erase key => exact hstage _ hb
  | drop =>
    rw [Message.event, Daemon.step, Configurator.bucket?_drop, if_pos rfl] at hb
    cases hb
  | commit env configOpt =>
    rw [Message.event, Daemon.conf_commit, Configurator.bucket?_commit_self] at hb
    by_cases hc : d.conf.Committable id
    · simp only [hc, not_true_eq_false, if_false] at hb
      -- What is left of a commit waits for its hooks, locked.
      split_ifs at hb
      · exact .inl (by rw [← Option.some.inj hb])
      · exact .inl (by rw [← Option.some.inj hb])
    · rw [if_pos hc] at hb
      -- A refused commit leaves the bucket as it is.
      cases hl : b.locked with
      | true => exact .inl rfl
      | false =>
        refine .inr ⟨by rw [LockedConfigPairMap.isBucketLocked_of_some hb, hl], ?_⟩
        rw [LockedConfigPairMap.staged_of_some hb]
        exact (List.append_nil _).symm

theorem bucket?_complete {t : Nat} {result : HookResult} :
    (d.step (.complete t result)).conf.inFlightItems.bucket? x = d.conf.inFlightItems.bucket? x ∨
      (d.step (.complete t result)).conf.inFlightItems.bucket? x = none := by
  obtain hconf | ⟨clientId, hconf⟩ := d.conf_complete_cases t result
  · rw [hconf]
    exact .inl rfl
  · rw [hconf, Configurator.bucket?_drop]
    split
    · exact .inr rfl
    · exact .inl rfl

/-! ## What is sent -/

/-- A command adds what it stages to what its connection has sent. -/
theorem sentOn_message (hconn : conn ∈ s.connections) :
    (s.step (.message conn m)).sentOn conn' =
      s.sentOn conn' ++
        if conn.serial = conn'.serial then m.items s.daemon.conf conn.id else [] := by
  rw [step, if_pos hconn, sentOn, sentOn, List.filter_append, List.map_append, List.filter_map]
  split
  · next h => simp [h, Function.comp_def]
  · next h => simp [h, Function.comp_def]

/-- A bucket that stays, or goes, stays its owner's. -/
theorem Owned.of_bucket? {s' : Server} (h : s.Owned conn)
    (hb : s'.bucket? conn.id = s.bucket? conn.id ∨ s'.bucket? conn.id = none)
    (hsent : s'.sentOn conn = s.sentOn conn) : s'.Owned conn := by
  intro b hb'
  rcases hb with hb | hb
  · rw [hsent]
    exact h b (hb ▸ hb')
  · rw [hb] at hb'
    cases hb'

theorem Owned.staged_suffix (h : s.Owned conn)
    (hl : s.daemon.conf.inFlightItems.isBucketLocked conn.id = false) :
    s.daemon.conf.inFlightItems.staged conn.id <:+ s.sentOn conn := by
  rcases hb : s.bucket? conn.id with _ | b
  · rw [LockedConfigPairMap.staged_of_none hb]
    exact List.nil_suffix
  · rw [LockedConfigPairMap.isBucketLocked_of_some hb] at hl
    rw [LockedConfigPairMap.staged_of_some hb]
    exact (h b hb).resolve_left (by simp [hl])

/-! ## Events -/

theorem Separated.connect (h : s.Separated) (hg : s.OpensClean (.connect id)) :
    (s.step (.connect id)).Separated := by
  rw [step]
  split
  · exact h
  · next hid =>
    -- The number is new, and the id is free.
    have hnew : ∀ conn ∈ s.connections, conn.serial ≠ s.nextSerial := fun conn hconn =>
      (h.serial_lt conn hconn).ne
    refine ⟨?_, ?_, ?_, fun x hx => (h.sent_lt x hx).trans (Nat.lt_succ_self _), ?_⟩
    · rw [List.map_append, List.nodup_append]
      refine ⟨h.nodup_ids, List.nodup_singleton _, fun a ha b hb hab => hid ?_⟩
      obtain rfl : b = id := List.mem_singleton.1 hb
      exact hab ▸ ha
    · rw [List.map_append, List.nodup_append]
      refine ⟨h.nodup_serials, List.nodup_singleton _, fun a ha b hb hab => ?_⟩
      obtain ⟨conn, hconn, rfl⟩ := List.mem_map.1 ha
      exact hnew conn hconn (hab.trans (List.mem_singleton.1 hb))
    · intro conn hconn
      rcases List.mem_append.1 hconn with hconn | hconn
      · exact (h.serial_lt conn hconn).trans (Nat.lt_succ_self _)
      · rw [List.mem_singleton.1 hconn]
        exact Nat.lt_succ_self _
    · intro conn hconn
      rcases List.mem_append.1 hconn with hconn | hconn
      · exact h.owned conn hconn
      · rw [List.mem_singleton.1 hconn]
        exact fun b hb => .inl (hg hid b hb)

theorem Separated.disconnect (h : s.Separated) : (s.step (.disconnect conn)).Separated := by
  have hsub : (s.connections.erase conn).Sublist s.connections := List.erase_sublist
  exact ⟨h.nodup_ids.sublist (hsub.map _), h.nodup_serials.sublist (hsub.map _),
    fun conn hconn => h.serial_lt conn (hsub.subset hconn), h.sent_lt,
    fun conn hconn => h.owned conn (hsub.subset hconn)⟩

theorem Separated.complete (h : s.Separated) {t : Nat} {result : HookResult} :
    (s.step (.complete t result)).Separated :=
  ⟨h.nodup_ids, h.nodup_serials, h.serial_lt, h.sent_lt,
    fun conn hconn => (h.owned conn hconn).of_bucket? bucket?_complete rfl⟩

/-- A command changes the bucket of its connection, and nobody else's. -/
theorem Separated.owned_message (h : s.Separated) (hconn : conn ∈ s.connections)
    (hconn' : conn' ∈ s.connections) : (s.step (.message conn m)).Owned conn' := by
  have hdaemon : (s.step (.message conn m)).daemon = s.daemon.step (m.event conn.id) := by
    rw [step, if_pos hconn]
  rcases eq_or_ne conn' conn with rfl | hne
  · intro b hb
    rw [bucket?, hdaemon] at hb
    rcases bucket?_event_self hb with hl | ⟨hl, hlist⟩
    · exact .inl hl
    · refine .inr ?_
      rw [sentOn_message hconn, if_pos rfl, hlist]
      obtain ⟨before, hbefore⟩ := (h.owned conn' hconn).staged_suffix hl
      exact ⟨before, by rw [← List.append_assoc, hbefore]⟩
  · -- No two connections share an id or a number.
    have hid : conn'.id ≠ conn.id := fun hid =>
      hne (List.inj_on_of_nodup_map h.nodup_ids hconn' hconn hid)
    have hserial : conn.serial ≠ conn'.serial := fun hserial =>
      hne (List.inj_on_of_nodup_map h.nodup_serials hconn' hconn hserial.symm)
    refine (h.owned conn' hconn').of_bucket? ?_ ?_
    · rw [bucket?, hdaemon]
      exact bucket?_event_of_ne hid
    · rw [sentOn_message hconn, if_neg hserial, List.append_nil]

theorem Separated.message (h : s.Separated) : (s.step (.message conn m)).Separated := by
  by_cases hconn : conn ∈ s.connections
  · have hstep : (s.step (.message conn m)).connections = s.connections ∧
        (s.step (.message conn m)).nextSerial = s.nextSerial ∧
        (s.step (.message conn m)).sent =
          s.sent ++ (m.items s.daemon.conf conn.id).map fun item => (conn.serial, item) := by
      rw [step, if_pos hconn]
      exact ⟨rfl, rfl, rfl⟩
    obtain ⟨hconnections, hserial, hsent⟩ := hstep
    refine ⟨hconnections ▸ h.nodup_ids, hconnections ▸ h.nodup_serials, ?_, ?_, ?_⟩
    · rw [hconnections, hserial]
      exact h.serial_lt
    · rw [hsent, hserial]
      intro x hx
      rcases List.mem_append.1 hx with hx | hx
      · exact h.sent_lt x hx
      · obtain ⟨item, _, rfl⟩ := List.mem_map.1 hx
        exact h.serial_lt conn hconn
    · rw [hconnections]
      exact fun conn' hconn' => h.owned_message hconn hconn'
  · rw [step, if_neg hconn]
    exact h

/-- All events but unclean openings keep the connections apart. -/
theorem Separated.step (h : s.Separated) (hg : s.OpensClean e) : (s.step e).Separated := by
  cases e with
  | connect id => exact h.connect hg
  | disconnect conn => exact h.disconnect
  | message conn m => exact h.message
  | complete t result => exact h.complete

theorem Separated.isolated (h : s.Separated) : s.Isolated e := by
  cases e with
  | message conn m =>
    cases m with
    | commit env configOpt =>
      exact fun hconn hc => (h.owned conn hconn).staged_suffix hc.2
    | set item | erase key | drop => trivial
  | connect id | disconnect conn | complete t result => trivial

/-! ## The files -/

theorem mem_kept_event (hp : p ∈ (d.step (m.event id)).conf.kept x) :
    p ∈ d.conf.kept x ∨ x = id ∧ d.conf.Committable id ∧ p ∈ d.conf.toApply id := by
  cases m with
  | set item =>
    rw [Message.event, Daemon.step, Configurator.set_fst] at hp
    exact .inl hp
  | erase key | drop => exact .inl hp
  | commit env configOpt =>
    rw [Message.event, Daemon.conf_commit] at hp
    exact Configurator.mem_kept_commit hp

theorem kept_complete {t : Nat} {result : HookResult} :
    (d.step (.complete t result)).conf.kept x = d.conf.kept x := by
  obtain hconf | ⟨clientId, hconf⟩ := d.conf_complete_cases t result
  · rw [hconf]
  · rw [hconf]
    rfl

/-- What has been sent over a connection stays so. -/
theorem SentOrLast.message (h : s.SentOrLast conn' p) (hconn : conn ∈ s.connections) :
    (s.step (.message conn m)).SentOrLast conn' p := by
  have hmem : ∀ q ∈ s.sentOn conn', q ∈ (s.step (.message conn m)).sentOn conn' := by
    intro q hq
    rw [sentOn_message hconn]
    exact List.mem_append_left _ hq
  exact h.imp (hmem p) fun ⟨q, hq, hkey⟩ => ⟨q, hmem q hq, hkey⟩

/-- A commit applies what was sent over its connection, and pairs of `last.*` for it. -/
theorem Separated.sentOrLast (h : s.Separated) (hconn : conn ∈ s.connections)
    (hc : s.daemon.conf.Committable conn.id) (hp : p ∈ s.daemon.conf.toApply conn.id) :
    s.SentOrLast conn p := by
  have hsent := ((h.owned conn hconn).staged_suffix hc.2).subset
  exact (Configurator.mem_toApply hp).imp (hsent ·) fun ⟨q, hq, hkey⟩ => ⟨q, hsent hq, hkey⟩

/-- All events but openings under an id that has something kept keep the files apart. -/
theorem KeptApart.step (h : s.KeptApart) (hs : s.Separated) (hg : s.OpensFresh e) :
    (s.step e).KeptApart := by
  cases e with
  | connect id =>
    rw [Server.step]
    split
    · exact h
    · next hid =>
      intro conn hconn
      rcases List.mem_append.1 hconn with hconn | hconn
      · exact h conn hconn
      · rw [List.mem_singleton.1 hconn, hg hid]
        exact fun p hp => absurd hp List.not_mem_nil
  | disconnect conn => exact fun conn' hconn' => h conn' (List.mem_of_mem_erase hconn')
  | message conn m =>
    by_cases hconn : conn ∈ s.connections
    · have hstep : (s.step (.message conn m)).connections = s.connections ∧
          (s.step (.message conn m)).daemon = s.daemon.step (m.event conn.id) := by
        rw [Server.step, if_pos hconn]
        exact ⟨rfl, rfl⟩
      intro conn' hconn' p hp
      rw [hstep.1] at hconn'
      rw [hstep.2] at hp
      rcases mem_kept_event hp with hp | ⟨hid, hc, hp⟩
      · exact (h conn' hconn' p hp).message hconn
      · obtain rfl : conn' = conn := List.inj_on_of_nodup_map hs.nodup_ids hconn' hconn hid
        exact (hs.sentOrLast hconn hc hp).message hconn
    · rw [Server.step, if_neg hconn]
      exact h
  | complete t result =>
    intro conn hconn p hp
    rw [Server.step, kept_complete] at hp
    exact h conn hconn p hp

theorem KeptApart.filesIsolated (h : s.KeptApart) (hs : s.Separated) : s.FilesIsolated e := by
  cases e with
  | message conn m =>
    cases m with
    | commit env configOpt =>
      intro hconn hc p hp
      exact (List.mem_append.1 hp).elim (h conn hconn p) (hs.sentOrLast hconn hc)
    | set item | erase key | drop => trivial
  | connect id | disconnect conn | complete t result => trivial

/-- In a run where every connection opens without an unlocked bucket under its id, all
    commits apply what was sent over their connections only. If the storage keeps nothing
    under the ids of connections that open, this is also all that is written to the
    files. -/
theorem isolated_run (d : Daemon) {es : List ServerEvent}
    (h : Guarded Server.step OpensClean (start d) es) :
    Guarded Server.step Isolated (start d) es ∧
      (Guarded Server.step OpensFresh (start d) es →
        Guarded Server.step FilesIsolated (start d) es) := by
  refine ⟨Guarded.of_invariant (I := Separated) separated_start (fun _ _ hs he => hs.step he)
    (fun _ _ hs _ => hs.isolated) h, fun hfresh => ?_⟩
  refine Guarded.of_invariant (I := fun s => s.Separated ∧ s.KeptApart)
    ⟨separated_start, fun conn hconn => absurd hconn List.not_mem_nil⟩ ?_ ?_ (h.and hfresh)
  · exact fun _ _ hs he => ⟨hs.1.step he.1, hs.2.step hs.1 he.2⟩
  · exact fun _ _ hs _ => hs.2.filesIsolated hs.1

/-- A client goes away, and another one gets its id. -/
def sameId (leaving : List Message) : List ServerEvent :=
  .connect 5 :: leaving.map (.message ⟨0, 5⟩) ++
    [.disconnect ⟨0, 5⟩, .connect 5, .message ⟨1, 5⟩ (.set (.ofInt32 "net.vlan" 7)),
      .message ⟨1, 5⟩ (.commit ⟨0, true⟩ .noHooks)]

/-- The first client drops what it has staged before it goes. -/
theorem isolated_run_dropped :
    Guarded Server.step Isolated (start (.onEmpty 100))
      (sameId [.set (.ofInt32 "net.mtu" 9000), .drop]) ∧
    Guarded Server.step FilesIsolated (start (.onEmpty 100))
      (sameId [.set (.ofInt32 "net.mtu" 9000), .drop]) :=
  ⟨(isolated_run _ (by decide)).1, (isolated_run _ (by decide)).2 (by decide)⟩

/-- The second client commits what the first one has left behind. -/
theorem not_forall_isolated : ¬∀ (d : Daemon) (es : List ServerEvent),
    Guarded Server.step Isolated (start d) es := by
  intro h
  have hrun := guarded_iff_forall_prefixes.1
    (h (.onEmpty 100) (sameId [.set (.ofInt32 "net.mtu" 9000)]))
    [.connect 5, .message ⟨0, 5⟩ (.set (.ofInt32 "net.mtu" 9000)), .disconnect ⟨0, 5⟩, .connect 5,
      .message ⟨1, 5⟩ (.set (.ofInt32 "net.vlan" 7))]
    (.message ⟨1, 5⟩ (.commit ⟨0, true⟩ .noHooks)) List.prefix_rfl
  exact absurd (hrun (by decide) (by decide)) (by decide)

end Server

end SysAdmin
