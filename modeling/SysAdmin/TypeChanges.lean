import SysAdmin.Conversions
import SysAdmin.TransactionIds

/-!
# Changes of types

To give a key another type, a migration has a second client erase it and commit this, and then
sets it to the value, converted to the type. Here the clients of the script are connected to the
daemon (`Link`): what they are answered is what the handlers answer.

* `Link.Keeps`: after the change and the next commit of the client, the key has the value it had,
  or the converted one;
* `Link.keeps_iff`: this is so exactly if the key is not erased, or is set again
  (`Link.Erases`, `Link.Restores`). For what the conversion comes to is not known before the key
  is erased.
-/

namespace SysAdmin

open Writes

/-! ## Erasing a key and setting it again -/

namespace ConfigKey

variable {k : ConfigKey}

theorem lastKey_ne : k.lastKey ≠ k := by
  intro h
  by_cases hk : k.subKeys = []
  · have htext : k.toString = "" := by
      rw [toString, hk]
      rfl
    rw [← h, lastKey, htext] at hk
    revert hk
    decide
  · have hsub := congrArg (fun k => k.subKeys.length) h
    simp [subKeys_lastKey hk] at hsub

end ConfigKey

namespace Configurator

variable {c : Configurator} {env env' : Environment} {a b id : ClientId} {k : ConfigKey}
  {p : ConfigPair} {configOpt : CommitConfig} {old : ConfigValue} {item : Option ConfigPair}

instance : Decidable (c.CanLog env id) := inferInstanceAs (Decidable (_ → _ → _))

/-- No item of a client is for a key, or for one whose value is saved there. -/
def Unstaged (c : Configurator) (id : ClientId) (k : ConfigKey) : Prop :=
  ∀ p ∈ c.inFlightItems.staged id, p.key ≠ k ∧ p.key.lastKey ≠ k

instance : Decidable (c.Unstaged id k) :=
  inferInstanceAs (Decidable (∀ p ∈ c.inFlightItems.staged id, _))

/-- What a commit writes to a key that saves no value of the bucket. -/
theorem store_commit_apply (h : ∀ p ∈ c.inFlightItems.staged id, p.key.lastKey ≠ k) :
    (c.commit env id configOpt).1.store k =
      if c.Committable id ∧ c.CanLog env id then
        ((lastItem k (c.inFlightItems.staged id)).map fun p => p.value.toOption).getD (c.store k)
      else c.store k := by
  have hnone : lastItem k ((c.inFlightItems.staged id).filterMap c.oldItem) = none := by
    refine lastItem_eq_none_iff.2 fun p hp => ?_
    obtain ⟨q, hq, hold⟩ := List.mem_filterMap.1 hp
    rw [key_of_oldItem hold]
    exact h q hq
  simp only [Configurator.store_commit, logged_ne_none_iff]
  split
  · rw [overlay_apply, lastWrite_writes, toApply, lastItem_append, hnone, Option.none_or]
  · rfl

theorem Unstaged.store_commit (h : c.Unstaged id k) :
    (c.commit env id configOpt).1.store k = c.store k := by
  rw [store_commit_apply fun p hp => (h p hp).2,
    lastItem_eq_none_iff.2 fun p hp => (h p hp).1]
  exact ite_self _

theorem committable_stage : (c.stage id [p]).Committable id ↔
    c.inFlightItems.isBucketLocked id = false := by
  rw [Committable, isBucketLocked_stage_self, LockedConfigPairMap.exists, bucket?_stage_self]
  simp

/-- Of the items, one that is staged behind them counts. -/
theorem store_commit_stage (h : ∀ q ∈ c.inFlightItems.staged id, q.key.lastKey ≠ p.key) :
    ((c.stage id [p]).commit env id configOpt).1.store p.key =
      if c.inFlightItems.isBucketLocked id = false ∧ (c.stage id [p]).CanLog env id then
        p.value.toOption
      else c.store p.key := by
  have hstaged : (c.stage id [p]).inFlightItems.staged id =
      c.inFlightItems.staged id ++ [p] := by rw [staged_stage, if_pos rfl]
  have hlast : lastItem p.key (c.inFlightItems.staged id ++ [p]) = some p := by
    rw [lastItem_append]
    simp [lastItem, lastWrite]
  rw [store_commit_apply]
  · simp only [committable_stage, hstaged, hlast]
    rfl
  · rw [hstaged]
    intro q hq
    rcases List.mem_append.1 hq with hq | hq
    · exact h q hq
    · rw [List.mem_singleton.1 hq]
      exact ConfigKey.lastKey_ne

/-- Another client erases a key, and commits this. -/
def commitErase (c : Configurator) (env : Environment) (b : ClientId) (k : ConfigKey) :
    Configurator := ((c.erase k b).commit env b .noHooks).1

/-- The erasing takes place. -/
def Erases (c : Configurator) (env : Environment) (b : ClientId) (k : ConfigKey) : Prop :=
  c.inFlightItems.isBucketLocked b = false ∧ (c.erase k b).CanLog env b

instance : Decidable (c.Erases env b k) := inferInstanceAs (Decidable (_ ∧ _))

/-- Sets a pair, if there is one. -/
def setSome (c : Configurator) (id : ClientId) : Option ConfigPair → Configurator
  | none => c
  | some p => (c.set p id).1

theorem erase_eq_stage (hk : k.isWildcard = false) : c.erase k id = c.stage id [.ofKey k] := by
  rw [erase_eq, eraseItems, LockedConfigPairMap.erasedKeys, hk]
  rfl

theorem setSome_cases (c : Configurator) (id : ClientId) (item : Option ConfigPair) :
    (c.setSome id item = c ∧ ∀ p ∈ item, ¬(c.set p id).2.accepted) ∨
      ∃ p ∈ item, (c.set p id).2.accepted ∧ c.setSome id item = c.stage id [p] := by
  rcases item with _ | p
  · exact .inl ⟨rfl, nofun⟩
  · rw [setSome, set_fst, setItems]
    split
    · next hp => exact .inr ⟨p, rfl, hp, rfl⟩
    · next hp => exact .inl ⟨rfl, fun q hq => by rwa [← Option.some.inj hq]⟩

/-- In a commit behind it, setting a pair has its effect, or none. -/
theorem store_commit_setSome_or (h : c.inFlightItems.isBucketLocked id = true ∨ c.Unstaged id k)
    (hitem : ∀ p ∈ item, p.key = k) :
    ((c.setSome id item).commit env id configOpt).1.store k = c.store k ∨
      ∃ p ∈ item, ((c.setSome id item).commit env id configOpt).1.store k = p.value.toOption := by
  obtain ⟨hsame, _⟩ | ⟨p, hp, hacc, hstage⟩ := setSome_cases c id item
  · rw [hsame]
    rcases h with hl | hu
    · have hn : ¬c.Committable id := fun hc => by simp [hc.2] at hl
      rw [Configurator.store_commit, if_neg fun hc => hn hc.1]
      exact .inl rfl
    · exact .inl hu.store_commit
  · have hl := (accepted_set.1 hacc).2
    have hu := h.resolve_left (by simp [hl])
    rw [hstage, ← hitem p hp, store_commit_stage fun q hq => hitem p hp ▸ (hu q hq).2]
    split
    · exact .inr ⟨p, hp, rfl⟩
    · exact .inl rfl

/-- A key that is not there can be set to a value of any type. -/
theorem accepted_set_of_none (hp : p.key.isWildcard = false) (hnone : c.store p.key = none) :
    (c.set p id).2.accepted = true ↔ c.inFlightItems.isBucketLocked id = false := by
  rw [accepted_set, MemoryCache.typeCheck_iff hp, show c.systemStore.store p.key = none from hnone]
  simp

theorem store_commit_setSome_of_none (hk : k.isWildcard = false) (hu : c.Unstaged id k)
    (hnone : c.store k = none) (hitem : ∀ p ∈ item, p.key = k) :
    ((c.setSome id item).commit env id configOpt).1.store k =
      if c.inFlightItems.isBucketLocked id = false ∧ (c.setSome id item).CanLog env id then
        item.bind fun p => p.value.toOption
      else none := by
  obtain ⟨hsame, hrefused⟩ | ⟨p, hp, hacc, hstage⟩ := setSome_cases c id item
  · rw [hsame, hu.store_commit, hnone]
    rcases item with _ | p
    · exact (ite_self _).symm
    · obtain rfl := hitem p rfl
      rw [if_neg fun h => hrefused p rfl ((accepted_set_of_none hk hnone).2 h.1)]
  · obtain rfl := Option.mem_def.1 hp
    have hkey := hitem p rfl
    subst hkey
    rw [hstage, store_commit_stage fun q hq => (hu q hq).2, hnone]
    rfl

section

variable (hk : k.isWildcard = false)

include hk

theorem erases_iff : c.Erases env b k ↔
    (c.erase k b).Committable b ∧ ((c.erase k b).logged env b).2 ≠ none := by
  rw [Erases, logged_ne_none_iff, erase_eq_stage hk, committable_stage]

theorem store_commitErase (hb : ∀ p ∈ c.inFlightItems.staged b, p.key.lastKey ≠ k) :
    (c.commitErase env b k).store k = if c.Erases env b k then none else c.store k := by
  have hstage := @store_commit_stage c env b (.ofKey k) .noHooks hb
  rw [← erase_eq_stage hk] at hstage
  exact hstage

/-- A client for which nothing is staged for the key still has nothing. -/
theorem Unstaged.commitErase (ha : c.Unstaged a k) (h : a ≠ b ∨ c.Erases env b k) :
    (c.commitErase env b k).Unstaged a k := by
  intro p hp
  by_cases hab : a = b
  · -- The bucket has been committed, and is gone.
    subst hab
    have he := (erases_iff hk).1 (h.resolve_left fun hne => hne rfl)
    have hnone : (c.commitErase env a k).inFlightItems.bucket? a = none := by
      rw [Configurator.commitErase, bucket?_commit_self]
      simp [he]
    rw [LockedConfigPairMap.staged_of_none hnone] at hp
    cases hp
  · rw [Configurator.commitErase, staged_commit_of_ne hab, erase_eq_stage hk, staged_stage,
      if_neg hab] at hp
    split at hp
    · cases hp
    · exact ha p hp

/-- If the erasing does not take place, the bucket is locked. -/
theorem isBucketLocked_commitErase_self (h : ¬c.Erases env b k) :
    (c.commitErase env b k).inFlightItems.isBucketLocked b = true := by
  rw [erases_iff hk, not_and, not_not] at h
  rw [LockedConfigPairMap.isBucketLocked, Configurator.commitErase, bucket?_commit_self]
  by_cases hc : (c.erase k b).Committable b
  · simp [hc, h hc]
  · rw [if_pos hc]
    rw [erase_eq_stage hk, committable_stage, Bool.not_eq_false] at hc
    rw [erase_eq_stage hk]
    exact isBucketLocked_stage_self.trans hc

theorem isBucketLocked_commitErase (h : c.Erases env b k) :
    (c.commitErase env b k).inFlightItems.isBucketLocked a =
      (c.erase k b).inFlightItems.isBucketLocked a := by
  have he := (erases_iff hk).1 h
  rw [LockedConfigPairMap.isBucketLocked, Configurator.commitErase]
  by_cases hab : a = b
  · subst hab
    rw [bucket?_commit_self, he.1.2]
    simp [he]
  · rw [bucket?_commit_of_ne hab]
    rfl

/-- What the next commit of a client leaves, if the client sets the key again, or does not. -/
theorem store_commit_commitErase (hb : ∀ p ∈ c.inFlightItems.staged b, p.key.lastKey ≠ k)
    (ha : c.Unstaged a k) (hitem : ∀ p ∈ item, p.key = k) :
    let c' := (c.commitErase env b k).setSome a item
    let after := (c'.commit env' a configOpt).1.store k
    (¬c.Erases env b k → after = c.store k ∨ ∃ p ∈ item, after = p.value.toOption) ∧
    (c.Erases env b k → after =
      if (c.erase k b).inFlightItems.isBucketLocked a = false ∧ c'.CanLog env' a then
        item.bind fun p => p.value.toOption
      else none) := by
  have hstore : (c.commitErase env b k).store k = if c.Erases env b k then none else c.store k :=
    store_commitErase hk hb
  constructor
  · intro he
    rw [if_neg he] at hstore
    rw [← hstore]
    refine store_commit_setSome_or ?_ hitem
    by_cases hab : a = b
    · subst hab
      exact .inl (isBucketLocked_commitErase_self hk he)
    · exact .inr (ha.commitErase hk (.inl hab))
  · intro he
    rw [if_pos he] at hstore
    rw [← isBucketLocked_commitErase hk he]
    exact store_commit_setSome_of_none hk (ha.commitErase hk (.inr he)) hstore hitem

end

end Configurator

/-! ## Clients and the daemon -/

namespace Migrations

open Scripts Futures ProtobufTranslator SysAdminController
open Sysadminctl (MappedField OneofValue Payload)

/-- How the clients of a script are connected to the daemon, and what the calls of its handlers
    come to. Connections are made and do not break. What `set` sends for values that no message
    has, or without the name of a type, is left open. -/
structure Link where
  connection : Client → ClientId
  messageId : Call → UInt32
  env : Call → Environment
  hooks : HookAnswers
  result : HookResult
  otherField : PyValue → PyValue → Option (Option OneofValue)

/-- The client that makes a call. -/
def Call.client : Call → Client
  | connect client | set client .. | get client _ | erase client _ | commit client _
  | rollback client _ | firehooks client => client
  | sync => none

/-- The transaction id in the message of a call, which `rollback` leaves out. -/
def Call.xid : Call → Option UInt32
  | rollback .. => none
  | call => call.client.map UInt32.ofNat

namespace Link

variable (l : Link)

/-- The field that `set` sends, unless converting the value raises. -/
def setField (value overrideType : PyValue) : Option (Option OneofValue) :=
  match Scalar.ofPy value, Scalar.listOfPy value, overrideType with
  | some v, _, .str valtype => overriddenTypeUnpack v valtype
  | none, some items, .str valtype =>
    if isIn "list" valtype then (unpackList items valtype).map some
    else l.otherField value overrideType
  | _, _, _ => l.otherField value overrideType

/-- The command of a call, if there is one, unless making it raises. -/
def payload : Call → Option Payload
  | .set _ (.str key) value overrideType =>
    (l.setField value overrideType).map fun field => .set key (field.map fun f => ⟨some f⟩)
  | .get _ (.str key) => some (.get key)
  | .erase _ (.str key) => some (.erase key)
  | .commit _ opt => some (.commit (some opt))
  | .rollback _ id => some (.rollback id)
  | .firehooks _ => some .firehooks
  | .connect _ | .sync | .set .. | .get .. | .erase .. => none

/-- The message of a call. -/
def message (call : Call) : Option Sysadminctl.Command :=
  (l.payload call).map fun payload => ⟨some payload, l.messageId call, call.xid⟩

/-- Handles a call. -/
def serve (s : Daemon) (call : Call) : Daemon :=
  match l.message call with
  | some m => s.request (l.env call) (l.connection call.client) m
  | none => s

/-- The response of a future. Without one, the client waits for it in vain. -/
def received : Completion Exception ResponseType → Option Sysadminctl.Response
  | .value response => response
  | .exception _ => none

/-- What is answered to a call. -/
def answer (s : Daemon) (call : Call) : Option Sysadminctl.Response :=
  match call with
  | .connect _ | .sync => some ⟨none, none, none⟩
  | _ => (l.message call).bind fun m =>
    received (s.response (l.env call) l.hooks (l.connection call.client) m l.result)

/-- The daemon after the events of a script, the hooks of which may still be running. -/
def after (s : Daemon) (events : List (Scripts.Event Call Sysadminctl.Response)) : Daemon :=
  events.foldl (fun s e => l.serve s e.call) s

/-- The daemon as the world of a script. -/
def world (s : Daemon) : World Call Sysadminctl.Response := fun events call =>
  l.answer (l.after s events) call

/-- The bucket of a client. -/
def bucket (client : Client) : ClientId :=
  ((client.map UInt32.ofNat).map UInt32.toNat).getD (l.connection client)

/-- The pair that `set` stages, unless it is refused before. -/
def item (key : String) (value overrideType : PyValue) : Option ConfigPair :=
  ((l.setField value overrideType).bind fun field =>
    translateToSet key (field.map fun f => ⟨some f⟩)).filter fun p => !refusesKey p.key

end Link

/-! ## The script -/

section

variable (world : World Call Sysadminctl.Response)

/-- The value that is to be set again, if it comes to that. -/
def passed (field : MappedField) (newtype : PyValue) : Option PyValue := do
  let takesFirst ← leavesList field newtype
  if takesFirst && decide ((listLength field).getD 0 > 1) then none
  else if takesFirst then (elements (unpackFromProto field)).bind List.head?
  else some (unpackFromProto field)

/-- Has the second client erase the key, and sets it. -/
def setAgain (sysadmin : Client) (key : String) (value newtype : PyValue) : ClientScript Unit := do
  let _ ← Script.send world (.connect cloneClient)
  let _ ← Script.send world (.erase cloneClient (.str key))
  let _ ← Script.send world (.commit cloneClient .noHooks)
  let _ ← Script.send world (.set sysadmin (.str key) value newtype)

end

section

open Script

variable {world : World Call Sysadminctl.Response} {client : Client} {key : String}
  {newtype value : PyValue} {r : Sysadminctl.Response} {field : MappedField}
  {events : List (Scripts.Event Call Sysadminctl.Response)}

/-- For a key that exists, the value is set again, if it comes to that. -/
theorem changeType_eq (hget : world events (.get client (.str key)) = some r)
    (hstatus : status r ≠ .keyNotFound) (hfield : (getKvs r).head? = some field) :
    (changeType world client key newtype events).2 =
      match passed field newtype with
      | none => events ++ [⟨.get client (.str key), some r⟩]
      | some value => (setAgain world client key value newtype
          (events ++ [⟨.get client (.str key), some r⟩])).2 := by
  rw [changeType, send_bind_of_some hget, if_neg hstatus, hfield, ofOption_some_bind, passed]
  rcases leavesList field newtype with _ | takesFirst
  · rfl
  · rw [ofOption_some_bind, Option.bind_eq_bind, Option.bind_some]
    by_cases hlong : (takesFirst && decide ((listLength field).getD 0 > 1)) = true
    · rw [if_pos hlong, if_pos hlong]
      rfl
    · rw [if_neg hlong, if_neg hlong]
      rcases hvalue : (if takesFirst then (elements (unpackFromProto field)).bind List.head?
        else some (unpackFromProto field)) with _ | value
      · rfl
      · rfl

end

/-! ## The script with the daemon -/

namespace Link

open Script Configurator

/-- The id of the second client. -/
def cloneId : ClientId := 10

/-- The field of a key that exists. -/
def existingField (key : String) (old : ConfigValue) : MappedField :=
  ⟨(ConfigKey.ofString key).toString, some (copyConfigValue old)⟩

variable {l : Link} {s : Daemon} {client : Client} {key : String} {value newtype : PyValue}
  {old : ConfigValue} {opt : CommitConfig} {call : Call}
  {events : List (Scripts.Event Call Sysadminctl.Response)} {r : Option Sysadminctl.Response}

theorem after_append : l.after s (events ++ [⟨call, r⟩]) = l.serve (l.after s events) call := by
  rw [after, List.foldl_append]
  rfl

theorem conf_serve_erase : (l.serve s (.erase client (.str key))).conf =
    s.conf.erase (.ofString key) (l.bucket client) := rfl

theorem conf_serve_commit : (l.serve s (.commit client opt)).conf =
    (s.conf.commit (l.env (.commit client opt)) (l.bucket client) opt).1 := Daemon.conf_commit

theorem conf_serve_set : (l.serve s (.set client (.str key) value newtype)).conf =
    s.conf.setSome (l.bucket client) (l.item key value newtype) := by
  rw [serve, message, payload, item]
  rcases l.setField value newtype with _ | field
  · rfl
  · simp only [Option.map_some, Option.bind_some, Daemon.request, Daemon.setHandler]
    rcases translateToSet key (field.map fun f => ⟨some f⟩) with _ | pair
    · rfl
    · rcases Bool.eq_false_or_eq_true (refusesKey pair.key) with hkey | hkey
      · simp only [Option.filter, hkey]
        rfl
      · simp only [Option.filter, hkey]
        rfl

/-- A commit that takes place is answered. -/
theorem not_applies_of_answer (h : l.answer s (.commit client .noHooks) = none) :
    ¬(s.conf.Committable (l.bucket client) ∧
      (s.conf.logged (l.env (.commit client .noHooks)) (l.bucket client)).2 ≠ none) := by
  rintro ⟨hc, hl⟩
  change received (((s.conf.commitFuture (l.env (.commit client .noHooks)) (l.bucket client)
    .noHooks l.result).thenValue _).thenError _).makeFutureWith = none at h
  obtain ⟨hn, _⟩ | ⟨_, hn, _⟩ | ⟨_, commitId, _, hcommit⟩ :=
    commit_cases s.conf (l.env (.commit client .noHooks)) (l.bucket client) .noHooks
  · exact hn hc
  · exact hl hn
  · rw [commitFuture, hcommit] at h
    cases h

theorem answer_get (hk : (ConfigKey.ofString key).isWildcard = false)
    (hold : s.conf.store (.ofString key) = some old) :
    ∃ r, l.answer s (.get client (.str key)) = some r ∧ status r ≠ .keyNotFound ∧
      (getKvs r).head? = some (existingField key old) := by
  refine ⟨_, rfl, ?_⟩
  have hpairs : (s.conf.get (.ofString key)).pairs = [⟨.ofString key, old⟩] := by
    rw [Configurator.get, MemoryCache.pairs_get hk, show s.conf.systemStore.store _ = _ from hold]
    rfl
  have hkvs : addKvs [⟨.ofString key, old⟩] = [existingField key old] := by
    simp [addKvs, MemoryCache.not_empty_of_store hold, existingField]
  simp only [getResponse, hpairs, translateFromGet, hkvs]
  refine ⟨?_, rfl⟩
  change StatusCode.success ≠ .keyNotFound
  decide

/-- What the daemon comes to when the value is set again: the key is set if the script has not
    raised before, because the commit could not be logged. -/
theorem conf_after_setAgain (hk : (ConfigKey.ofString key).isWildcard = false) : ∃ item,
    (item = l.item key value newtype ∨
      item = none ∧ ¬(l.after s events).conf.Erases (l.env (.commit cloneClient .noHooks)) cloneId
        (.ofString key)) ∧
    (l.after s (setAgain (l.world s) client key value newtype events).2).conf =
      ((l.after s events).conf.commitErase (l.env (.commit cloneClient .noHooks)) cloneId
        (.ofString key)).setSome (l.bucket client) item := by
  have hconnect : l.world s events (.connect cloneClient) = some ⟨none, none, none⟩ := rfl
  obtain ⟨r, herase⟩ : ∃ r, l.world s (events ++ [⟨.connect cloneClient, some ⟨none, none, none⟩⟩])
    (.erase cloneClient (.str key)) = some r := ⟨_, rfl⟩
  rw [setAgain, send_bind_of_some hconnect, send_bind_of_some herase]
  set erased := events ++ [⟨.connect cloneClient, some ⟨none, none, none⟩⟩] ++
    [⟨.erase cloneClient (.str key), some r⟩]
  have hconf : (l.after s erased).conf =
      (l.after s events).conf.erase (.ofString key) cloneId := by
    rw [after_append, conf_serve_erase, after_append]
    rfl
  rcases hcommit : l.world s erased (.commit cloneClient .noHooks) with _ | r'
  · -- The commit was not answered, so the script raises and does not set the key.
    refine ⟨none, .inr ⟨rfl, fun he => ?_⟩, ?_⟩
    · refine not_applies_of_answer hcommit ?_
      rw [hconf]
      exact (erases_iff hk).1 he
    · rw [send_bind_of_none hcommit, after_append, conf_serve_commit, hconf]
      rfl
  · refine ⟨l.item key value newtype, .inl rfl, ?_⟩
    rw [send_bind_of_some hcommit, snd_send_bind_pure, after_append, conf_serve_set, after_append,
      conf_serve_commit, hconf]
    rfl

/-- What the daemon comes to when the type of a key that exists is changed. -/
theorem conf_after_changeType (hk : (ConfigKey.ofString key).isWildcard = false)
    (hold : s.conf.store (.ofString key) = some old) :
    (passed (existingField key old) newtype = none ∧
      (l.after s (changeType (l.world s) client key newtype []).2).conf = s.conf) ∨
    ∃ value item, passed (existingField key old) newtype = some value ∧
      (item = l.item key value newtype ∨
        item = none ∧ ¬s.conf.Erases (l.env (.commit cloneClient .noHooks)) cloneId
          (.ofString key)) ∧
      (l.after s (changeType (l.world s) client key newtype []).2).conf =
        (s.conf.commitErase (l.env (.commit cloneClient .noHooks)) cloneId
          (.ofString key)).setSome (l.bucket client) item := by
  obtain ⟨r, hget, hstatus, hfield⟩ := @answer_get l s client key old hk hold
  have hworld : l.world s [] (.get client (.str key)) = some r := hget
  rw [changeType_eq hworld hstatus hfield]
  rcases passed (existingField key old) newtype with _ | value
  · exact .inl ⟨rfl, rfl⟩
  · obtain ⟨item, hitem, hconf⟩ := @conf_after_setAgain l s client key value newtype
      ([] ++ [⟨.get client (.str key), some r⟩]) hk
    exact .inr ⟨value, item, rfl, hitem, hconf⟩

/-! ## Keeping the key -/

/-- The field of the value when it has been converted, if that gives one. -/
def converted (l : Link) (key : String) (old : ConfigValue) (newtype : String) :
    Option OneofValue :=
  (passed (existingField key old) (.str newtype)).bind fun value =>
    (l.setField value (.str newtype)).join

/-- The daemon when the type of a key has been changed. -/
def changed (l : Link) (s : Daemon) (client : Client) (key newtype : String) : Daemon :=
  l.after s (changeType (l.world s) client key (.str newtype) []).2

/-- After the change of its type and the next commit of the client, a key has its old value, or
    the converted one, which is of the new type. -/
def Keeps (l : Link) (s : Daemon) (client : Client) (key newtype : String) (old : ConfigValue)
    (env : Environment) (opt : CommitConfig) : Prop :=
  let store := ((l.changed s client key newtype).conf.commit env (l.bucket client) opt).1.store
  store (.ofString key) = some old ∨
    ∃ field, l.converted key old newtype = some field ∧ typeName field = newtype ∧
      store (.ofString key) = valueOf ⟨some field⟩

/-- The second client erases the key: there is a value to convert, its bucket is not locked, and
    its commit can be logged. -/
def Erases (l : Link) (s : Daemon) (key newtype : String) (old : ConfigValue) : Prop :=
  (passed (existingField key old) (.str newtype)).isSome = true ∧
    s.conf.Erases (l.env (.commit cloneClient .noHooks)) cloneId (.ofString key)

/-- The client sets the key again: the value can be converted, the key is not refused, the bucket
    is not locked when the erasing has been staged, and the next commit can be logged. -/
structure Restores (l : Link) (s : Daemon) (client : Client) (key newtype : String)
    (old : ConfigValue) (env : Environment) : Prop where
  converts : (l.converted key old newtype).isSome = true
  takes : refusesKey (.ofString key) = false
  open_bucket : (s.conf.erase (.ofString key) cloneId).inFlightItems.isBucketLocked
    (l.bucket client) = false
  logs : (l.changed s client key newtype).conf.CanLog env (l.bucket client)

variable {env : Environment} {field : OneofValue} {valtype : String} {item : Option ConfigPair}
  {p : ConfigPair}

theorem mem_item_iff (h : passed (existingField key old) (.str valtype) = some value) :
    p ∈ l.item key value (.str valtype) ↔ refusesKey (.ofString key) = false ∧
      p.key = .ofString key ∧ ∃ field, l.converted key old valtype = some field ∧
        valueOf ⟨some field⟩ = some p.value := by
  rw [item, converted, h, Option.bind_some]
  rcases l.setField value (.str valtype) with _ | _ | field
  · simp
  · simp [translateToSet]
  · obtain ⟨v, hv⟩ : ∃ v, valueOf ⟨some field⟩ = some v := ⟨_, rfl⟩
    have hset : translateToSet key (some ⟨some field⟩) = some ⟨.ofString key, v⟩ := by
      rw [translateToSet, Option.bind_some, hv]
      rfl
    simp only [Option.bind_some, Option.map_some, hset, Option.mem_filter_iff, Option.mem_some_iff,
      Option.join_some, Option.some.injEq, exists_eq_left', hv, Bool.not_eq_true']
    constructor
    · rintro ⟨rfl, hp⟩
      exact ⟨hp, rfl, rfl⟩
    · rintro ⟨hp, hkey, rfl⟩
      obtain ⟨k, v⟩ := p
      obtain rfl : k = .ofString key := hkey
      exact ⟨rfl, hp⟩

theorem toOption_of_valueOf {m : Sysadminctl.ConfigValue} {v : ConfigValue}
    (h : valueOf m = some v) : v.toOption = some v := by
  obtain ⟨_, _, rfl⟩ := Option.map_eq_some_iff.1 h
  rfl

/-- What is read from a message is a scalar, or a list of scalars. -/
theorem unpackFromProto_cases (field : MappedField) :
    (∃ v : Scalar, unpackFromProto field = v.toPy ∧ listLength field = none) ∨
      ∃ items : List Scalar, unpackFromProto field = .list (items.map Scalar.toPy) ∧
        listLength field = some items.length := by
  rw [unpackFromProto, listLength]
  rcases oneof field with _ | v | v | v | list | list | list
  · exact .inl ⟨.str "EMPTY_VALUE", rfl, rfl⟩
  · exact .inl ⟨.int v.toInt, rfl, rfl⟩
  · exact .inl ⟨.str v, rfl, rfl⟩
  · exact .inl ⟨.bool v, rfl, rfl⟩
  · exact .inr ⟨list.map fun v => .int v.toInt, by simp [Scalar.toPy], by simp⟩
  · exact .inr ⟨list.map .bool, by simp [Scalar.toPy], by simp⟩
  · exact .inr ⟨list.map .str, by simp [Scalar.toPy], by simp⟩

/-- What is passed to `set` is a scalar, or a list to become a list. -/
theorem passed_cases {f : MappedField} (h : passed f (.str valtype) = some value) :
    (∃ v : Scalar, v.toPy = value) ∨
      isIn "list" valtype = true ∧
        ∃ items : List Scalar, .list (items.map Scalar.toPy) = value := by
  obtain ⟨v, hv, hlen⟩ | ⟨items, hitems, hlen⟩ := unpackFromProto_cases f
  · exact .inl ⟨v, by simpa [passed, leavesList, hlen, hv] using h⟩
  · have hleaves : leavesList f (.str valtype) = some !isIn "list" valtype := by
      rw [leavesList, hlen]
      rfl
    cases hlist : isIn "list" valtype with
    | true => exact .inr ⟨rfl, items, by simpa [passed, hleaves, hlist, hitems] using h⟩
    | false =>
      have hhead : ¬ 1 < items.length ∧ ∃ v, items.head? = some v ∧ v.toPy = value := by
        simpa [passed, hleaves, hlist, hitems, hlen, elements] using h
      obtain ⟨_, v, _, hv⟩ := hhead
      exact .inl ⟨v, hv⟩

theorem setField_toPy (v : Scalar) : l.setField v.toPy (.str valtype) =
    overriddenTypeUnpack v valtype := by
  rcases v with b | i | t <;> rfl

theorem setField_list (items : List Scalar) (h : isIn "list" valtype = true) :
    l.setField (.list (items.map Scalar.toPy)) (.str valtype) =
      (unpackList items valtype).map some := by
  have hitems := Scalar.listOfPy_toPy items
  simp [setField, Scalar.ofPy, hitems, h]

/-- The converted value is of the new type. -/
theorem typeName_converted (h : l.converted key old valtype = some field) :
    typeName field = valtype := by
  obtain ⟨value, hpassed, hset⟩ := Option.bind_eq_some_iff.1 h
  rw [Option.join_eq_some_iff] at hset
  obtain ⟨v, rfl⟩ | ⟨hlist, items, rfl⟩ := passed_cases hpassed
  · rw [setField_toPy] at hset
    exact typeName_overriddenTypeUnpack hset
  · rw [setField_list items hlist] at hset
    obtain ⟨field', hfield, heq⟩ := Option.map_eq_some_iff.1 hset
    rw [← Option.some.inj heq]
    exact typeName_unpackList hfield

/-- A key that is erased is there again exactly if it is set. -/
theorem keeps_iff_restores (hpassed : passed (existingField key old) (.str valtype) = some value)
    (hafter : ((l.changed s client key valtype).conf.commit env (l.bucket client) opt).1.store
      (.ofString key) =
        if (s.conf.erase (.ofString key) cloneId).inFlightItems.isBucketLocked (l.bucket client) =
            false ∧ (l.changed s client key valtype).conf.CanLog env (l.bucket client) then
          (l.item key value (.str valtype)).bind fun p => p.value.toOption
        else none) :
    l.Keeps s client key valtype old env opt ↔ l.Restores s client key valtype old env := by
  constructor
  · intro h
    -- Kept or converted, there is a value at the key.
    have hne : ((l.changed s client key valtype).conf.commit env (l.bucket client) opt).1.store
        (.ofString key) ≠ none := by
      obtain h | ⟨field, _, _, h⟩ := h
      · simp [h]
      · rw [h]
        exact nofun
    rw [hafter] at hne
    split at hne
    · next hopen =>
      rcases hset : l.item key value (.str valtype) with _ | p
      · simp [hset] at hne
      · obtain ⟨hkey, _, field, hconv, _⟩ := (mem_item_iff hpassed).1 hset
        exact ⟨Option.isSome_of_eq_some hconv, hkey, hopen.1, hopen.2⟩
    · exact absurd rfl hne
  · intro h
    obtain ⟨field, hconv⟩ := Option.isSome_iff_exists.1 h.converts
    obtain ⟨v, hv⟩ : ∃ v, valueOf ⟨some field⟩ = some v := ⟨_, rfl⟩
    have hset : l.item key value (.str valtype) = some ⟨.ofString key, v⟩ :=
      (mem_item_iff hpassed).2 ⟨h.takes, rfl, field, hconv, hv⟩
    refine .inr ⟨field, hconv, typeName_converted hconv, ?_⟩
    rw [hafter, if_pos ⟨h.open_bucket, h.logs⟩, hset, Option.bind_some, hv]
    exact toOption_of_valueOf hv

/-- A key keeps its value, old or converted, exactly if it is not erased, or is set again. -/
theorem keeps_iff (hk : (ConfigKey.ofString key).isWildcard = false)
    (hold : s.conf.store (.ofString key) = some old)
    (ha : s.conf.Unstaged (l.bucket client) (.ofString key))
    (hb : ∀ p ∈ s.conf.inFlightItems.staged cloneId, p.key.lastKey ≠ .ofString key) :
    l.Keeps s client key valtype old env opt ↔
      ¬l.Erases s key valtype old ∨ l.Restores s client key valtype old env := by
  obtain ⟨hpassed, hconf⟩ | ⟨value, item, hpassed, hitem, hconf⟩ :=
    @conf_after_changeType l s client key (.str valtype) old hk hold
  · -- The script does not come to the second client.
    refine iff_of_true (.inl ?_) (.inl fun h => ?_)
    · rw [changed, hconf]
      exact ha.store_commit.trans hold
    · have hsome := h.1
      rw [hpassed] at hsome
      cases hsome
  · have hmem : ∀ p ∈ item, p.key = .ofString key ∧ ∃ field,
        l.converted key old valtype = some field ∧ valueOf ⟨some field⟩ = some p.value := by
      intro p hp
      rcases hitem with rfl | ⟨rfl, _⟩
      · exact ((mem_item_iff hpassed).1 hp).2
      · cases hp
    obtain ⟨hnot, herased⟩ := @store_commit_commitErase s.conf
      (l.env (.commit cloneClient .noHooks)) env (l.bucket client) cloneId (.ofString key) opt item
      hk hb ha fun p hp => (hmem p hp).1
    rw [← hconf] at hnot herased
    by_cases he : s.conf.Erases (l.env (.commit cloneClient .noHooks)) cloneId (.ofString key)
    · obtain rfl := hitem.resolve_right fun h => h.2 he
      have hboth : l.Erases s key valtype old := ⟨by rw [hpassed]; rfl, he⟩
      rw [keeps_iff_restores hpassed (herased he), or_iff_right (not_not.2 hboth)]
    · refine iff_of_true ?_ (.inl fun h => he h.2)
      obtain hsame | ⟨p, hp, hval⟩ := hnot he
      · exact .inl (hsame.trans hold)
      · obtain ⟨_, field, hconv, heq⟩ := hmem p hp
        exact .inr ⟨field, hconv, typeName_converted hconv,
          hval.trans ((toOption_of_valueOf heq).trans heq.symm)⟩

/-- All clients share a connection, and everything succeeds. -/
def plain : Link :=
  ⟨fun _ => 1, fun _ => 0, fun _ => ⟨0, true⟩, Controller.noHooks, .value, fun _ _ => none⟩

/-- The key a is stored, with an integer. -/
def integerStored : Daemon :=
  Machine.run Daemon.serve (Daemon.onEmpty 3) [Daemon.setCommand "a" 5, Daemon.commitCommand]

/-- The integer is to be a text. -/
theorem keeps_iff_integerStored :
    plain.Keeps integerStored sysadmin "a" "str" (.ofType (.int32 5)) ⟨0, true⟩ .noHooks ↔
      ¬plain.Erases integerStored "a" "str" (.ofType (.int32 5)) ∨
        plain.Restores integerStored sysadmin "a" "str" (.ofType (.int32 5)) ⟨0, true⟩ :=
  keeps_iff (by decide) (by decide) (by decide) (by decide)

/-- An integer, which has no length, cannot become a list, and is erased. -/
theorem not_forall_keeps : ¬∀ (l : Link) (s : Daemon) (client : Client) (key newtype : String)
    (old : ConfigValue) (env : Environment) (opt : CommitConfig),
    (ConfigKey.ofString key).isWildcard = false → s.conf.store (.ofString key) = some old →
      s.conf.Unstaged (l.bucket client) (.ofString key) →
      (∀ p ∈ s.conf.inFlightItems.staged cloneId, p.key.lastKey ≠ .ofString key) →
        l.Keeps s client key newtype old env opt := by
  intro h
  have hkeeps := h plain integerStored sysadmin "a" "int32list" (.ofType (.int32 5)) ⟨0, true⟩
    .noHooks (by decide) (by decide) (by decide) (by decide)
  have hstore : ((plain.changed integerStored sysadmin "a" "int32list").conf.commit ⟨0, true⟩
      (plain.bucket sysadmin) .noHooks).1.store (.ofString "a") = none := by decide
  obtain hold | ⟨field, _, _, hconv⟩ := hkeeps
  · exact absurd (hstore.symm.trans hold) (by simp)
  · cases hstore.symm.trans hconv

end Link

end Migrations

end SysAdmin
