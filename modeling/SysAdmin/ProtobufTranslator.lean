import SysAdmin.SysAdminController

/-!
# Messages

The messages that clients and the daemon exchange (`Sysadminctl`), and their translation
from and to the types of the daemon (`ProtobufTranslator`).

Fields that a message lacks read as their defaults, even if the message should have them:
the daemon handles what it has parsed of a message. So a key that is missing is the empty
text, and a value may be missing or have none of its fields set.

A typed value is read back from its message as it was (`valueOf_copyConfigValue`).
-/

namespace SysAdmin

namespace Sysadminctl

/-! ## Messages -/

/-- The fields of a value, of which one is set. -/
inductive OneofValue
  | int32val (v : Int32)
  | strval (v : String)
  | boolval (v : Bool)
  | int32list (list : List Int32)
  | boollist (list : List Bool)
  | stringlist (list : List String)
  deriving DecidableEq

/-- The message of a value. -/
structure ConfigValue where
  value : Option OneofValue
  deriving DecidableEq

/-- What a command is about. -/
inductive Payload
  | set (key : String) (value : Option ConfigValue)
  | get (key : String)
  | commit (config : Option CommitConfig)
  | drop
  | firehooks
  | erase (key : String)
  | rollback (id : UInt32)
  | reset
  | dump
  | trigger (hook : String)
  | blame (key : String)
  | inflight
  deriving DecidableEq

/-- A command, with its id and, maybe, a transaction id. -/
structure Command where
  payload : Option Payload
  id : UInt32
  xid : Option UInt32
  deriving DecidableEq

/-- A key with its value. -/
structure MappedField where
  key : String
  value : Option ConfigValue
  deriving DecidableEq

/-- A commit to a key. Its time stands for the text of the time. -/
structure BlameEntry where
  commitId : UInt32
  commitTime : Option Nat
  val : ConfigValue
  deriving DecidableEq

/-- What a response is about. -/
inductive ResponsePayload
  | get (kvs : List MappedField)
  | commit (commitId : UInt32)
  | reset (commitId : Option UInt32)
  | dump (templatehooks servicehooks : List String)
  | blame (key : String) (entries : List BlameEntry)
  | inflight (kvs : List MappedField)
  deriving DecidableEq

/-- A response, with the fields that have been set. -/
structure Response where
  payload : Option ResponsePayload
  id : Option UInt32
  status : Option StatusCode
  deriving DecidableEq

end Sysadminctl

open Sysadminctl (OneofValue MappedField BlameEntry)

/-! ## Translating messages -/

namespace ProtobufTranslator

/-- The message of a value; that of Empty has no field set. -/
def copyConfigValue (value : ConfigValue) : Sysadminctl.ConfigValue where
  value :=
    if value.empty then none
    else match value.value with
      | .int32 v => some (.int32val v)
      | .string v => some (.strval v)
      | .bool v => some (.boolval v)
      | .int32list v => some (.int32list v)
      | .boollist v => some (.boollist v)
      | .stringlist v => some (.stringlist v)

/-- The value of a message, if a field is set. -/
def valueOf (value : Sysadminctl.ConfigValue) : Option ConfigValue :=
  value.value.map fun field => .ofType <|
    match field with
    | .int32val v => .int32 v
    | .strval v => .string v
    | .boolval v => .bool v
    | .int32list list => .int32list list
    | .boollist list => .boollist list
    | .stringlist list => .stringlist list

/-- The pair to set. -/
def translateToSet (key : String) (value : Option Sysadminctl.ConfigValue) : Option ConfigPair :=
  (value.bind valueOf).map fun value => ⟨.ofString key, value⟩

/-- The fields of a list of pairs, without those of Empty values. -/
def addKvs (items : ConfigPairList) : List MappedField :=
  (items.filter fun item => !item.value.empty).map fun item =>
    ⟨item.key.toString, some (copyConfigValue item.value)⟩

/-- The response with a list of pairs. -/
def translateFromGet (items : ConfigPairList) : Sysadminctl.Response :=
  if items.length = 0 then ⟨some (.get []), none, some .keyNotFound⟩
  else ⟨some (.get (addKvs items)), none, none⟩

/-- The response with a list of staged items. Those that erase a key have no value. -/
def translateFromInFlight (items : ConfigPairList) : Sysadminctl.Response where
  payload := some <| .inflight <| items.map fun item =>
    ⟨item.key.toString, if item.value.empty then none else some (copyConfigValue item.value)⟩
  id := none
  status := none

/-- The response with the commits to a key. Their ids are cut to the width of the field. -/
def translateFromBlame (key : ConfigKey) (deltas : List BlameDelta) : Sysadminctl.Response where
  payload := some <| .blame key.toString <| deltas.map fun delta =>
    ⟨.ofNat delta.commitId, delta.commitTime, copyConfigValue delta.delta.2.value⟩
  id := none
  status := none

variable {v : ConfigValue} {items : ConfigPairList} {p : ConfigPair}

/-- A typed value is read back from its message. -/
theorem valueOf_copyConfigValue (hv : v.empty = false) : valueOf (copyConfigValue v) = some v := by
  obtain ⟨value, empty, h⟩ := v
  obtain rfl : empty = false := hv
  cases value with
  | int32 v | string v | bool v | int32list v | boollist v | stringlist v => rfl

/-- A typed pair is read back from its field, as from a command to set it. -/
theorem translateToSet_addKvs (h : ∀ p ∈ items, p.key.Readable ∧ p.value.empty = false) :
    (addKvs items).map (fun field => translateToSet field.key field.value) = items.map some := by
  have hfilter : items.filter (fun item => !item.value.empty) = items :=
    List.filter_eq_self.2 fun p hp => by simp [(h p hp).2]
  rw [addKvs, hfilter, List.map_map]
  refine List.map_congr_left fun p hp => ?_
  obtain ⟨hk, hv⟩ := h p hp
  simp only [Function.comp_apply, translateToSet, Option.bind_some, valueOf_copyConfigValue hv,
    Option.map_some, ConfigKey.ofString_toString hk]

theorem length_addKvs (h : ∀ p ∈ items, p.value.empty = false) :
    (addKvs items).length = items.length := by
  have hfilter : items.filter (fun item => !item.value.empty) = items :=
    List.filter_eq_self.2 fun p hp => by simp [h p hp]
  rw [addKvs, hfilter, List.length_map]

end ProtobufTranslator

end SysAdmin
