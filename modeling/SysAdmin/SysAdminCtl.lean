import SysAdmin.KeyRenames

/-!
# The command line tool

`sysadminctl set` asks the daemon for the type of a key, converts the texts of the command line to
it, and sets the key; `sysadminctl modify` does so for keys that are there. What has been set waits
for `sysadminctl commit`, which is another run of the tool with the same transaction id.

Between the calls of the tool, other clients do what they like (`amid`), so that the type of the
key may not be what it was when the tool has asked for it.

* `convertToType`: the value that texts stand for;
* `Setter.typed_run`: what is sent is of the type that the key had, and is refused for its type
  exactly if the key has got another one since. It is staged exactly if the tool says so;
* `Setter.stored_runs`: the next run that commits stores the value.
-/

namespace SysAdmin

namespace SysAdminCtl

open Migrations Scripts Machine Configurator SysAdminController ProtobufTranslator
open Sysadminctl (OneofValue)

/-! ## Values on the command line -/

/-- A boolean, whatever the case of its letters. -/
def toBool (strval : String) : Option Bool :=
  if strval.toList.map Char.toLower = "true".toList then some true
  else if strval.toList.map Char.toLower = "false".toList then some false
  else none

/-- The elements of a list. Texts that are empty are left out. -/
def handleLists {α : Type} (itemtype : String → Option α) (toPy : α → PyValue)
    (stringvalue : List String) : Option PyValue :=
  ((stringvalue.filter fun item => decide (item.length > 0)).mapM itemtype).map fun output =>
    .list (output.map toPy)

/-- The list of a type that texts stand for. -/
def convertToList (stringvalue : List String) (valuetype : String) : Option PyValue :=
  if valuetype = "int32list" then handleLists intOfText .int stringvalue
  else if valuetype = "boollist" then handleLists toBool .bool stringvalue
  else if valuetype = "stringlist" then handleLists some .str stringvalue
  else none

/-- The value of a type that texts stand for, unless converting them raises a `ValueError`. -/
def convertToType (stringvalue : List String) (valuetype : String) : Option PyValue :=
  match stringvalue with
  | [] => none
  | [text] =>
    if valuetype = "str" then some (.str text)
    else if valuetype = "int32" then (intOfText text).map .int
    else if valuetype = "bool" then (toBool text).map .bool
    else convertToList stringvalue valuetype
  | _ :: _ :: _ => convertToList stringvalue valuetype

/-- The type of a key that has been asked for, if it is there. Raises an exception for a response
    without a value. -/
def getExistingType (response : Sysadminctl.Response) : Option (Option String) :=
  if status response ≠ .success then some none
  else ((getKvs response).head?.bind oneof).map fun field => some (typeName field)

/-! ## Commands -/

/-- What the tool prints: an error, or the response to `set`. -/
inductive Output
  | valueError
  | keyNotFound
  | expectedType (existingType : String)
  | set (response : Sysadminctl.Response)

section

variable (world : World Call Sysadminctl.Response) (client : Client) (key : String)
  (values : List String)

/-- Converts the texts to a type, and sets the key. -/
def setConverted (type : String) : ClientScript Output :=
  match convertToType values type with
  | none => pure .valueError
  | some pyvalue => do
    let response ← Script.send world (.set client (.str key) pyvalue .none)
    return .set response

/-- Sets a key, which keeps its type. The type that is given is that of a new key. -/
def SetCommand.run (type : String) : ClientScript Output := do
  let _ ← Script.send world (.connect client)
  let existing ← Script.send world (.get client (.str key))
  let existingType ← Script.ofOption (getExistingType existing)
  setConverted world client key values (existingType.getD type)

/-- Sets a key that is there, and has the type that is given, if there is one. -/
def ModifyCommand.run (type : Option String) : ClientScript Output := do
  let _ ← Script.send world (.connect client)
  let keyResponse ← Script.send world (.get client (.str key))
  let existingType ← Script.ofOption (getExistingType keyResponse)
  match existingType with
  | none => return .keyNotFound
  | some existingType =>
    if type.any (· ≠ existingType) then return .expectedType existingType
    else setConverted world client key values existingType

/-- What hooks a commit runs, by default all of them. -/
def CommitCommand.opt (options : String) : CommitConfig :=
  if options = "templates" then .templateOnly
  else if options = "nohooks" then .noHooks
  else .default

/-- Commits. -/
def CommitCommand.run (options : String) : ClientScript Sysadminctl.Response := do
  let _ ← Script.send world (.connect client)
  Script.send world (.commit client (CommitCommand.opt options))

end

/-- A command that sets a key, with the type that is given. -/
inductive Setter
  | set (type : String)
  | modify (type : Option String)

namespace Setter

/-- Runs the command. -/
def run (world : World Call Sysadminctl.Response) (client : Client) (key : String)
    (values : List String) : Setter → ClientScript Output
  | set type => SetCommand.run world client key values type
  | modify type => ModifyCommand.run world client key values type

/-- The type that texts are converted to, by the type of the key. -/
def valueType : Setter → Option String → Option String
  | set type, existingType => some (existingType.getD type)
  | modify type, existingType => existingType.filter fun t => type.all (· = t)

end Setter

/-! ## Types of values -/

/-- The name of the type of a key of the daemon. -/
def storedType (s : Daemon) (key : String) : Option String :=
  (s.conf.store (.ofString key)).bind fun v => (copyConfigValue v).value.map typeName

section

variable {values : List String} {type : String} {v : PyValue} {sent : Option OneofValue}
  {field : OneofValue} {w : ConfigValue}

theorem exists_of_map_some {α : Type} {f : α → OneofValue} {o : Option α}
    (h : o.map (some ∘ f) = some sent) (hf : ∀ a, typeName (f a) = type) :
    ∃ field, sent = some field ∧ typeName field = type := by
  obtain ⟨a, -, rfl⟩ := Option.map_eq_some_iff.1 h
  exact ⟨f a, rfl, hf a⟩

theorem exists_field_convertToList (hv : convertToList values type = some v)
    (hsent : unpackIntoProto v = some sent) :
    ∃ field, sent = some field ∧ typeName field = type := by
  rw [convertToList] at hv
  split at hv
  · next ht =>
    obtain ⟨items, -, rfl⟩ := Option.map_eq_some_iff.1 hv
    cases items with
    | nil => cases hsent
    | cons i items => exact exists_of_map_some hsent fun _ => ht.symm
  · split at hv
    · next ht =>
      obtain ⟨items, -, rfl⟩ := Option.map_eq_some_iff.1 hv
      cases items with
      | nil => cases hsent
      | cons b items => exact exists_of_map_some hsent fun _ => ht.symm
    · split at hv
      · next ht =>
        obtain ⟨items, -, rfl⟩ := Option.map_eq_some_iff.1 hv
        cases items with
        | nil => cases hsent
        | cons text items => exact exists_of_map_some hsent fun _ => ht.symm
      · cases hv

/-- The client finds out again the type that the texts have been converted to. -/
theorem exists_field_convertToType (hv : convertToType values type = some v)
    (hsent : unpackIntoProto v = some sent) :
    ∃ field, sent = some field ∧ typeName field = type := by
  rcases values with _ | ⟨text, _ | ⟨text', texts⟩⟩
  · cases hv
  · rw [convertToType] at hv
    split at hv
    · next ht =>
      cases hv
      cases hsent
      exact ⟨_, rfl, ht.symm⟩
    · split at hv
      · next ht =>
        obtain ⟨i, -, rfl⟩ := Option.map_eq_some_iff.1 hv
        exact exists_of_map_some hsent fun _ => ht.symm
      · split at hv
        · next ht =>
          obtain ⟨b, -, rfl⟩ := Option.map_eq_some_iff.1 hv
          cases hsent
          exact ⟨_, rfl, ht.symm⟩
        · exact exists_field_convertToList hv hsent
  · exact exists_field_convertToList hv hsent

theorem exists_copyConfigValue (hw : w.empty = false) :
    ∃ field, copyConfigValue w = ⟨some field⟩ ∧ valueOf ⟨some field⟩ = some w := by
  have hread := valueOf_copyConfigValue hw
  rcases hm : copyConfigValue w with ⟨_ | field⟩
  · rw [hm] at hread
    cases hread
  · exact ⟨field, rfl, hm ▸ hread⟩

/-- Values pass the type check if their types have one name. -/
theorem typeCheck_iff_typeName {field' : OneofValue} {w' : ConfigValue}
    (h : valueOf ⟨some field⟩ = some w) (h' : valueOf ⟨some field'⟩ = some w') :
    w.typeCheck w' = true ↔ typeName field = typeName field' := by
  cases h
  cases h'
  cases field <;> cases field' <;>
    simp [ConfigValue.typeCheck, ConfigValue.ofType, ValueType.which, typeName]

end

/-! ## The tool among other clients -/

section

variable (l : Link) (others : ℕ → List RequestEvent) (s : Daemon)

/-- The daemon when it has handled some calls of the tool. Before each of them, others do
    something. -/
def served (calls : List Call) : Daemon :=
  calls.zipIdx.foldl (fun s call => l.serve (Machine.run Daemon.serve s (others call.2)) call.1) s

/-- The daemon as the next call finds it. -/
def amid (calls : List Call) : Daemon :=
  Machine.run Daemon.serve (served l others s calls) (others calls.length)

/-- The calls of some events. -/
def callsOf (events : List (Scripts.Event Call Sysadminctl.Response)) : List Call :=
  events.map (·.call)

/-- The daemon among other clients, as the world of the tool. -/
def world : World Call Sysadminctl.Response := fun events call =>
  l.answer (amid l others s (callsOf events)) call

end

section

variable {l : Link} {others : ℕ → List RequestEvent} {s : Daemon} {client : Client} {key : String}
  {values : List String} {calls : List Call} {call : Call} {v : PyValue} {field : OneofValue}
  {w : ConfigValue} {response r : Sysadminctl.Response}

variable (l others s calls call) in
theorem served_append :
    served l others s (calls ++ [call]) = l.serve (amid l others s calls) call := by
  rw [served, List.zipIdx_append, List.foldl_append]
  simp only [List.zipIdx_cons, List.zipIdx_nil, List.foldl_cons, List.foldl_nil, Nat.zero_add]
  rfl

theorem pairs_get (hk : (ConfigKey.ofString key).isWildcard = false) :
    (s.conf.get (.ofString key)).pairs =
      (s.conf.store (.ofString key)).toList.map fun v => ⟨.ofString key, v⟩ :=
  MemoryCache.pairs_get hk

theorem getExistingType_of_answer (hk : (ConfigKey.ofString key).isWildcard = false)
    (h : l.answer s (.get client (.str key)) = some r) :
    getExistingType r = some (storedType s key) := by
  have hpairs := pairs_get (s := s) hk
  rw [storedType]
  rcases hold : s.conf.store (.ofString key) with _ | old
  · rw [hold] at hpairs
    obtain rfl : getResponse (s.conf.get (.ofString key)) (l.messageId (.get client (.str key))) =
      r := Option.some.inj h
    rw [getResponse, hpairs]
    rfl
  · rw [hold] at hpairs
    have hempty := MemoryCache.not_empty_of_store hold
    obtain ⟨field, hcopy, -⟩ := exists_copyConfigValue hempty
    -- The response has one field, whose value has its type in the oneof.
    have hkvs : addKvs [⟨.ofString key, old⟩] = [Link.existingField key old] := by
      simp [addKvs, hempty, Link.existingField]
    have hr : r = ⟨some (.get [Link.existingField key old]),
        some (l.messageId (.get client (.str key))), some .success⟩ := by
      have hpair : (s.conf.get (.ofString key)).pairs = [⟨.ofString key, old⟩] := hpairs
      rw [← Option.some.inj h]
      simp only [getResponse, hpair, translateFromGet, hkvs]
      rfl
    have hfield : oneof (Link.existingField key old) = some field := by
      rw [oneof, Link.existingField, hcopy, Option.bind_some]
    rw [hr, Option.bind_some, hcopy]
    change (oneof (Link.existingField key old)).map (fun field => some (typeName field)) = _
    rw [hfield]
    rfl

theorem setField_of_unpackIntoProto (hfield : unpackIntoProto v = some (some field)) :
    l.inferring.setField v .none = some (some field) :=
  Link.setField_inferring.trans hfield

theorem translateToSet_of_valueOf (hw : valueOf ⟨some field⟩ = some w) :
    translateToSet key (some ⟨some field⟩) = some ⟨.ofString key, w⟩ := by
  rw [translateToSet, Option.bind_some, hw]
  rfl

/-- The response to a value that is sent. There is none for a key without subkeys. -/
theorem eq_of_answer_set (hfield : unpackIntoProto v = some (some field))
    (hw : valueOf ⟨some field⟩ = some w)
    (h : l.inferring.answer s (.set client (.str key) v .none) = some response) :
    response = if refusesKey (.ofString key) then
        statusResponse (l.messageId (.set client (.str key) v .none)) .invalidKey
      else setResponse (l.messageId (.set client (.str key) v .none)) ⟨.ofString key, w⟩
        (s.conf.set ⟨.ofString key, w⟩ (l.bucket client)).2 := by
  have hmessage : l.inferring.message (.set client (.str key) v .none) =
      some ⟨some (.set key (some ⟨some field⟩)), l.messageId (.set client (.str key) v .none),
        Call.xid (.set client (.str key) v .none)⟩ := by
    rw [Link.message, Link.payload, setField_of_unpackIntoProto hfield]
    rfl
  change (l.inferring.message (.set client (.str key) v .none)).bind _ = _ at h
  rw [hmessage, Option.bind_some] at h
  change Link.received (Callees.setHandler _ _ _ key (some ⟨some field⟩)).makeFutureWith = _ at h
  rw [Callees.setHandler, translateToSet_of_valueOf hw] at h
  dsimp only at h
  rw [refusesKey]
  split at h
  · next hstar =>
    rw [hstar, Bool.true_or, if_pos rfl]
    exact (Option.some.inj h).symm
  · next hstar =>
    -- Without a `*` in it, the key is held against `last.*`.
    rw [Bool.not_eq_true] at hstar
    rw [hstar, Bool.false_or]
    rw [matchesLast] at h
    split at h
    · cases h
    · rw [Futures.Call.after] at h
      split at h
      · next hlast =>
        rw [if_pos hlast]
        exact (Option.some.inj h).symm
      · next hlast =>
        rw [if_neg hlast]
        exact (Option.some.inj h).symm

/-- What the daemon stages when the value is sent. -/
theorem conf_serve_set (hfield : unpackIntoProto v = some (some field))
    (hw : valueOf ⟨some field⟩ = some w) :
    (l.inferring.serve s (.set client (.str key) v .none)).conf =
      if refusesKey (.ofString key) then s.conf
      else (s.conf.set ⟨.ofString key, w⟩ (l.bucket client)).1 := by
  rw [Link.conf_serve_set, Link.item, setField_of_unpackIntoProto hfield, Option.bind_some,
    Option.map_some, translateToSet_of_valueOf hw]
  by_cases hkey : refusesKey (.ofString key) = true
  · simp only [Option.filter, hkey, Bool.not_true, if_true]
    rfl
  · simp only [Option.filter, hkey, Bool.not_false, if_true]
    rfl

/-- The status of a response to a value that has been staged. -/
def Accepted (response : Sysadminctl.Response) : Prop :=
  status response = .success ∨ status response = .successKeyCreated

instance : Decidable (Accepted response) := inferInstanceAs (Decidable (_ ∨ _))

theorem accepted_setResponse {id : UInt32} {p : ConfigPair} {setStatus : SetStatus} :
    Accepted (setResponse id p setStatus) ↔ setStatus.accepted = true := by
  cases setStatus with
  | success => exact iff_of_true (.inl rfl) rfl
  | successNewKey => exact iff_of_true (.inr rfl) rfl
  | typeMismatch | lockedQueue =>
    exact iff_of_false (by simp [Accepted, status, setResponse, statusResponse]) (by decide)

theorem typeMismatch_setResponse {id : UInt32} {p : ConfigPair} {setStatus : SetStatus} :
    status (setResponse id p setStatus) = .typeMismatch ↔ setStatus = .typeMismatch := by
  cases setStatus with
  | typeMismatch => exact iff_of_true rfl rfl
  | success | successNewKey | lockedQueue =>
    exact iff_of_false (by simp [status, setResponse, statusResponse]) (by decide)

/-- A value has the type of the key, or there is no key, or it is refused. -/
theorem typeMismatch_set_iff (hk : (ConfigKey.ofString key).isWildcard = false)
    (hw : valueOf ⟨some field⟩ = some w) {id : ClientId} :
    (s.conf.set ⟨.ofString key, w⟩ id).2 = .typeMismatch ↔
      ∃ t, storedType s key = some t ∧ t ≠ typeName field := by
  have hcheck : (s.conf.set ⟨.ofString key, w⟩ id).2 = .typeMismatch ↔
      s.conf.systemStore.typeCheck ⟨.ofString key, w⟩ = false := by
    rw [set_snd]
    cases s.conf.systemStore.typeCheck ⟨.ofString key, w⟩ with
    | false => simp
    | true =>
      -- Of a fitting type, the answer depends on the bucket and on whether the key is new.
      refine iff_of_false ?_ (by simp)
      split
      · next h => cases h
      · split
        · simp
        · split <;> simp
  rw [hcheck, ← Bool.not_eq_true, MemoryCache.typeCheck_iff hk, storedType]
  rcases hold : s.conf.store (.ofString key) with _ | old
  · have hnone : s.conf.systemStore.store (.ofString key) = none := hold
    simp [hnone]
  · have hsome : s.conf.systemStore.store (.ofString key) = some old := hold
    obtain ⟨field', hcopy, hvalue⟩ := exists_copyConfigValue (MemoryCache.not_empty_of_store hold)
    rw [Option.bind_some, hcopy]
    simp [hsome, ← typeCheck_iff_typeName hvalue hw]

/-! ## Runs that set a key -/

theorem setConverted_eq_some {world : World Call Sysadminctl.Response} {type : String}
    {before events : List (Scripts.Event Call Sysadminctl.Response)}
    (h : setConverted world client key values type before = (some (.set response), events)) :
    ∃ v, convertToType values type = some v ∧
      world before (.set client (.str key) v .none) = some response ∧
      events = before ++ [⟨.set client (.str key) v .none, some response⟩] := by
  rw [setConverted] at h
  rcases hv : convertToType values type with _ | v
  · rw [hv] at h
    cases h
  · rw [hv] at h
    obtain ⟨r, hr, heq⟩ := Script.send_bind_eq_some.1 h
    cases heq
    exact ⟨v, rfl, hr, rfl⟩

/-- Both commands ask for the type of the key first. -/
theorem ask_eq_some {world : World Call Sysadminctl.Response}
    {f : Option String → ClientScript Output} {output : Output}
    {events : List (Scripts.Event Call Sysadminctl.Response)}
    (h : (do
      let _ ← Script.send world (.connect client)
      let existing ← Script.send world (.get client (.str key))
      let existingType ← Script.ofOption (getExistingType existing)
      f existingType : ClientScript Output) [] = (some output, events)) :
    ∃ connected existing existingType,
      world [⟨.connect client, some connected⟩] (.get client (.str key)) = some existing ∧
      getExistingType existing = some existingType ∧
      f existingType [⟨.connect client, some connected⟩, ⟨.get client (.str key), some existing⟩] =
        (some output, events) := by
  obtain ⟨connected, -, h⟩ := Script.send_bind_eq_some.1 h
  obtain ⟨existing, hget, h⟩ := Script.send_bind_eq_some.1 h
  rcases htype : getExistingType existing with _ | existingType
  · rw [htype] at h
    cases h
  · rw [htype, Script.ofOption_some_bind] at h
    exact ⟨connected, existing, existingType, hget, htype, h⟩

/-- A run that sends a value has converted the texts to a type that goes with the key. -/
theorem Setter.run_eq_some {setter : Setter} {world : World Call Sysadminctl.Response}
    {events : List (Scripts.Event Call Sysadminctl.Response)}
    (h : setter.run world client key values [] = (some (.set response), events)) :
    ∃ connected existing existingType type v,
      world [⟨.connect client, some connected⟩] (.get client (.str key)) = some existing ∧
      getExistingType existing = some existingType ∧ setter.valueType existingType = some type ∧
      convertToType values type = some v ∧
      world [⟨.connect client, some connected⟩, ⟨.get client (.str key), some existing⟩]
        (.set client (.str key) v .none) = some response ∧
      events = [⟨.connect client, some connected⟩, ⟨.get client (.str key), some existing⟩,
        ⟨.set client (.str key) v .none, some response⟩] := by
  cases setter with
  | set type =>
    obtain ⟨connected, existing, existingType, hget, htype, h⟩ := ask_eq_some h
    obtain ⟨v, hv, hset, hevents⟩ := setConverted_eq_some h
    exact ⟨connected, existing, existingType, _, v, hget, htype, rfl, hv, hset, hevents⟩
  | modify type =>
    obtain ⟨connected, existing, existingType, hget, htype, h⟩ := ask_eq_some h
    cases existingType with
    | none => cases h
    | some existingType =>
      -- Only for the type that is expected does the run go on.
      dsimp only at h
      split at h
      · cases h
      · next hexpected =>
        obtain ⟨v, hv, hset, hevents⟩ := setConverted_eq_some h
        refine ⟨connected, existing, some existingType, existingType, v, hget, htype, ?_, hv, hset,
          hevents⟩
        cases type with
        | none => rfl
        | some t => simpa [Setter.valueType] using hexpected

variable (l others s client) in
/-- The daemon as the tool finds it when it asks for the type. -/
def atGet : Daemon := amid l.inferring others s [.connect client]

variable (l others s client key) in
/-- The daemon as the tool finds it when it sets the key. -/
def atSet : Daemon := amid l.inferring others s [.connect client, .get client (.str key)]

/-- What a run sends, and what it is answered. -/
structure Sent (setter : Setter) (l : Link) (others : ℕ → List RequestEvent) (s : Daemon)
    (client : Client) (key : String) (values : List String) (response : Sysadminctl.Response)
    (calls : List Call) (field : OneofValue) (w : ConfigValue) : Prop where
  valueOf_eq : valueOf ⟨some field⟩ = some w
  type_eq : setter.valueType (storedType (atGet l others s client) key) = some (typeName field)
  converts : (convertToType values (typeName field)).bind unpackIntoProto = some (some field)
  response_eq : ∃ id, response =
    if refusesKey (.ofString key) then statusResponse id .invalidKey
    else setResponse id ⟨.ofString key, w⟩
      ((atSet l others s client key).conf.set ⟨.ofString key, w⟩ (l.bucket client)).2
  conf_eq : (served l.inferring others s calls).conf =
    if refusesKey (.ofString key) then (atSet l others s client key).conf
    else ((atSet l others s client key).conf.set ⟨.ofString key, w⟩ (l.bucket client)).1

theorem Setter.exists_sent {setter : Setter} (hk : (ConfigKey.ofString key).isWildcard = false)
    {events : List (Scripts.Event Call Sysadminctl.Response)}
    (h : setter.run (world l.inferring others s) client key values [] =
      (some (.set response), events)) :
    ∃ v, callsOf events =
        [.connect client, .get client (.str key), .set client (.str key) v .none] ∧
      ∃ field w, Sent setter l others s client key values response (callsOf events) field w := by
  obtain ⟨connected, existing, existingType, type, v, hget, hexisting, htype, hv, hset, rfl⟩ :=
    Setter.run_eq_some h
  refine ⟨v, rfl, ?_⟩
  -- What is answered tells that the client had a value to send.
  obtain ⟨sent, hsent⟩ : ∃ sent, unpackIntoProto v = some sent := by
    rcases hsent : unpackIntoProto v with _ | sent
    · have hnone : l.inferring.message (.set client (.str key) v .none) = none := by
        rw [Link.message, Link.payload, Link.setField_inferring, hsent]
        rfl
      change (l.inferring.message (.set client (.str key) v .none)).bind _ = _ at hset
      rw [hnone] at hset
      cases hset
    · exact ⟨sent, rfl⟩
  obtain ⟨field, rfl, rfl⟩ := exists_field_convertToType hv hsent
  obtain ⟨w, hw⟩ : ∃ w, valueOf ⟨some field⟩ = some w := ⟨_, rfl⟩
  have hstored : existingType = storedType (atGet l others s client) key :=
    Option.some.inj (hexisting.symm.trans (getExistingType_of_answer hk hget))
  refine ⟨field, w, hw, hstored ▸ htype, by rw [hv]; exact hsent, ?_, ?_⟩
  · exact ⟨_, eq_of_answer_set hsent hw hset⟩
  · exact (congrArg Daemon.conf (served_append l.inferring others s
      [.connect client, .get client (.str key)] (.set client (.str key) v .none))).trans
        (conf_serve_set hsent hw)

/-- What is sent is of the type that the key had, or of the one that is given for a new key. It is
    refused for its type exactly if the key has another one by then, and is staged exactly if the
    response says so. -/
def Typed (setter : Setter) (l : Link) (others : ℕ → List RequestEvent) (s : Daemon)
    (client : Client) (key : String) (values : List String) (response : Sysadminctl.Response)
    (events : List (Scripts.Event Call Sysadminctl.Response)) : Prop :=
  ∃ field w, valueOf ⟨some field⟩ = some w ∧
    setter.valueType (storedType (atGet l others s client) key) = some (typeName field) ∧
    (convertToType values (typeName field)).bind unpackIntoProto = some (some field) ∧
    (status response = .typeMismatch ↔ refusesKey (.ofString key) = false ∧
      ∃ t, storedType (atSet l others s client key) key = some t ∧ t ≠ typeName field) ∧
    (served l.inferring others s (callsOf events)).conf =
      if Accepted response then
        (atSet l others s client key).conf.stage (l.bucket client) [⟨.ofString key, w⟩]
      else (atSet l others s client key).conf

/-- Whatever others do between the calls of a run, what it sends is typed. -/
theorem Setter.typed_run {setter : Setter} (hk : (ConfigKey.ofString key).isWildcard = false)
    {events : List (Scripts.Event Call Sysadminctl.Response)}
    (h : setter.run (world l.inferring others s) client key values [] =
      (some (.set response), events)) :
    Typed setter l others s client key values response events := by
  obtain ⟨-, -, field, w, hsent⟩ := Setter.exists_sent hk h
  obtain ⟨id, hresponse⟩ := hsent.response_eq
  refine ⟨field, w, hsent.valueOf_eq, hsent.type_eq, hsent.converts, ?_, ?_⟩
  · rw [hresponse]
    by_cases hkey : refusesKey (.ofString key) = true
    · rw [if_pos hkey, hkey]
      exact iff_of_false (by simp [status, statusResponse]) (by simp)
    · rw [if_neg hkey, typeMismatch_setResponse, typeMismatch_set_iff hk hsent.valueOf_eq]
      exact (and_iff_right (Bool.not_eq_true _ ▸ hkey)).symm
  · rw [hsent.conf_eq, hresponse]
    by_cases hkey : refusesKey (.ofString key) = true
    · rw [if_pos hkey, if_pos hkey, if_neg]
      simp [Accepted, status, statusResponse]
    · rw [if_neg hkey, if_neg hkey, set_fst, setItems]
      simp only [accepted_setResponse]
      split
      · rfl
      · exact stage_nil

/-- Another client gives the key a text, when the tool has asked for its type. -/
def overtaking : ℕ → List RequestEvent
  | 2 => [.request ⟨0, true⟩ 2 ⟨some (.set "a" (some ⟨some (.strval "x")⟩)), 1, none⟩,
      .request ⟨0, true⟩ 2 ⟨some (.commit (some .noHooks)), 2, none⟩]
  | _ => []

theorem typed_run_overtaking :
    let run := (Setter.set "int32").run (world Link.plain.inferring overtaking (Daemon.onEmpty 3))
      (some 7) "a" ["1"] []
    run.1 = some (.set (statusResponse 0 .typeMismatch)) ∧
      Typed (.set "int32") Link.plain overtaking (Daemon.onEmpty 3) (some 7) "a" ["1"]
        (statusResponse 0 .typeMismatch) run.2 :=
  ⟨rfl, Setter.typed_run (by decide) rfl⟩

/-! ## The run that commits -/

theorem lastKey_ne_of_refusesKey (h : refusesKey (.ofString key) = false) (k : ConfigKey) :
    k.lastKey ≠ .ofString key := by
  intro hlast
  have hin : k.lastKey.inLast = true := by
    by_cases hk : k.subKeys = []
    · have htext : k.toString = "" := by
        rw [ConfigKey.toString, hk]
        rfl
      rw [ConfigKey.lastKey, htext]
      decide
    · exact ConfigKey.inLast_lastKey hk
  rw [hlast] at hin
  simp [refusesKey, hin] at h

theorem committable_of_bucket {c : Configurator} {id : ClientId} {items : ConfigPairList}
    (h : c.inFlightItems.bucket? id = some ⟨false, items⟩) : c.Committable id := by
  rw [committable_iff, LockedConfigPairMap.staged_of_some h]
  exact h

/-- Of a bucket, a commit stores the last item. -/
theorem store_commit_of_bucket {c : Configurator} {id : ClientId} {env : Environment}
    (opt : CommitConfig) {items : ConfigPairList} {p : ConfigPair}
    (h : c.inFlightItems.bucket? id = some ⟨false, items ++ [p]⟩)
    (hlog : (c.logged env id).2 ≠ none) (hlast : ∀ k : ConfigKey, k.lastKey ≠ p.key) :
    (c.commit env id opt).1.store p.key = p.value.toOption := by
  have hitem : lastItem p.key (items ++ [p]) = some p := by
    rw [lastItem_append]
    simp [lastItem, Writes.lastWrite]
  rw [store_commit_apply fun q _ => hlast q.key,
    if_pos ⟨committable_of_bucket h, logged_ne_none_iff.1 hlog⟩,
    LockedConfigPairMap.staged_of_some h, hitem]
  rfl

/-- A commit that is answered has been logged. -/
theorem logged_of_answer {opt : CommitConfig} (hc : s.conf.Committable (l.bucket client))
    (h : l.answer s (.commit client opt) = some r) :
    (s.conf.logged (l.env (.commit client opt)) (l.bucket client)).2 ≠ none := by
  intro hnone
  change Link.received (((s.conf.commitFuture (l.env (.commit client opt)) (l.bucket client)
    opt l.result).thenValue _).thenError _).makeFutureWith = some r at h
  obtain ⟨hn, -⟩ | ⟨-, -, hcommit⟩ | ⟨-, id, hid, -⟩ :=
    commit_cases s.conf (l.env (.commit client opt)) (l.bucket client) opt
  · exact hn hc
  · rw [commitFuture, hcommit] at h
    cases h
  · rw [hnone] at hid
    cases hid

/-- Sets a key in one run, and commits in another one. -/
def setAndCommit (world : World Call Sysadminctl.Response) (client : Client) (key : String)
    (values : List String) (setter : Setter) (options : String) :
    ClientScript (Output × Sysadminctl.Response) := do
  let output ← setter.run world client key values
  let response ← CommitCommand.run world client options
  return (output, response)

theorem Setter.exists_sent_setAndCommit {setter : Setter} {options : String}
    {committed : Sysadminctl.Response} (hk : (ConfigKey.ofString key).isWildcard = false)
    {events : List (Scripts.Event Call Sysadminctl.Response)}
    (h : setAndCommit (world l.inferring others s) client key values setter options [] =
      (some (.set response, committed), events)) :
    ∃ v, callsOf events = [.connect client, .get client (.str key), .set client (.str key) v .none,
        .connect client, .commit client (CommitCommand.opt options)] ∧
      l.inferring.answer (amid l.inferring others s [.connect client, .get client (.str key),
        .set client (.str key) v .none, .connect client])
          (.commit client (CommitCommand.opt options)) = some committed ∧
      ∃ field w, Sent setter l others s client key values response [.connect client,
        .get client (.str key), .set client (.str key) v .none] field w := by
  obtain ⟨output, between, hset, h⟩ := Script.bind_eq_some.1 h
  obtain ⟨committed', after, hcommit, heq⟩ := Script.bind_eq_some.1 h
  cases heq
  obtain ⟨v, hcalls, hsent⟩ := Setter.exists_sent hk hset
  obtain ⟨connected, -, hcommit⟩ := Script.send_bind_eq_some.1 hcommit
  obtain ⟨hanswer, rfl⟩ := Prod.mk.inj hcommit
  have hbefore : callsOf (between ++ [⟨.connect client, some connected⟩]) = [.connect client,
      .get client (.str key), .set client (.str key) v .none, .connect client] := by
    rw [callsOf, List.map_append]
    exact congrArg (· ++ [Call.connect client]) hcalls
  refine ⟨v, ?_, hbefore ▸ hanswer, hcalls ▸ hsent⟩
  rw [callsOf, List.map_append]
  exact congrArg (· ++ [Call.commit client (CommitCommand.opt options)]) hbefore

/-- What a run has staged, and another run commits, is stored as the value of the texts in the type
    of the key, if others have left the bucket alone in between. -/
theorem Setter.stored_runs {setter : Setter} {options : String}
    {committed : Sysadminctl.Response} (hk : (ConfigKey.ofString key).isWildcard = false)
    {events : List (Scripts.Event Call Sysadminctl.Response)}
    (h : setAndCommit (world l.inferring others s) client key values setter options [] =
      (some (.set response, committed), events))
    (haccepted : Accepted response)
    (hkept : let calls := callsOf events
      (amid l.inferring others s (calls.take 4)).conf.inFlightItems.bucket? (l.bucket client) =
        (served l.inferring others s (calls.take 3)).conf.inFlightItems.bucket? (l.bucket client)) :
    ∃ field, setter.valueType (storedType (atGet l others s client) key) = some (typeName field) ∧
      (convertToType values (typeName field)).bind unpackIntoProto = some (some field) ∧
      (served l.inferring others s (callsOf events)).conf.store (.ofString key) =
        valueOf ⟨some field⟩ := by
  obtain ⟨v, hcalls, hanswer, field, w, hsent⟩ := Setter.exists_sent_setAndCommit hk h
  refine ⟨field, hsent.type_eq, hsent.converts, ?_⟩
  obtain ⟨id, hresponse⟩ := hsent.response_eq
  have hconf := hsent.conf_eq
  have hkey : refusesKey (.ofString key) = false := by
    by_contra hkey
    rw [Bool.not_eq_false] at hkey
    rw [hresponse, if_pos hkey] at haccepted
    simp [Accepted, status, statusResponse] at haccepted
  rw [hresponse, hkey, if_neg Bool.false_ne_true, accepted_setResponse] at haccepted
  rw [hkey, if_neg Bool.false_ne_true, set_fst, setItems, if_pos haccepted] at hconf
  -- The bucket has the pair at its end, and is not locked.
  rw [hcalls] at hkept ⊢
  change (amid l.inferring others s [.connect client, .get client (.str key),
    .set client (.str key) v .none, .connect client]).conf.inFlightItems.bucket? _ =
      (served l.inferring others s [.connect client, .get client (.str key),
        .set client (.str key) v .none]).conf.inFlightItems.bucket? _ at hkept
  rw [hconf, bucket?_stage_self, if_neg (by simp), (accepted_set.1 haccepted).2] at hkept
  have hlog := logged_of_answer (committable_of_bucket hkept) hanswer
  have hstore := store_commit_of_bucket (CommitCommand.opt options) hkept hlog
    (lastKey_ne_of_refusesKey hkey)
  have hserved := congrArg (fun s : Daemon => s.conf.store (.ofString key))
    (served_append l.inferring others s [.connect client, .get client (.str key),
      .set client (.str key) v .none, .connect client]
        (.commit client (CommitCommand.opt options)))
  refine hserved.trans ?_
  rw [Link.conf_serve_commit]
  exact hstore.trans ((Link.toOption_of_valueOf hsent.valueOf_eq).trans hsent.valueOf_eq.symm)

/-- Another client stages something else in between. -/
def besides : ℕ → List RequestEvent
  | 4 => [.request ⟨0, true⟩ 2 ⟨some (.set "b" (some ⟨some (.strval "x")⟩)), 1, none⟩]
  | _ => []

theorem stored_runs_besides :
    let run := setAndCommit (world Link.plain.inferring besides (Daemon.onEmpty 3)) (some 7) "a"
      ["1"] (.set "int32") "nohooks" []
    ∃ field, (Setter.set "int32").valueType (storedType
        (atGet Link.plain besides (Daemon.onEmpty 3) (some 7)) "a") = some (typeName field) ∧
      (convertToType ["1"] (typeName field)).bind unpackIntoProto = some (some field) ∧
      (served Link.plain.inferring besides (Daemon.onEmpty 3) (callsOf run.2)).conf.store
        (.ofString "a") = valueOf ⟨some field⟩ := by
  have hrun : setAndCommit (world Link.plain.inferring besides (Daemon.onEmpty 3)) (some 7) "a"
      ["1"] (.set "int32") "nohooks" [] =
        (some (.set (setResponse 0 ⟨.ofString "a", .ofType (.int32 1)⟩ .successNewKey),
          commitResponse 0 .success 1), _) := rfl
  exact Setter.stored_runs (by decide) hrun (.inr rfl) (by decide)

end

end SysAdminCtl

end SysAdmin
