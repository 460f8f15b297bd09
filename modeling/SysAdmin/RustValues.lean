import SysAdmin.RustClient

/-!
# Values of the Rust client

A value of the client, of one of six types, is written to the message of a command, and to JSON.
The daemon reads the value of the message by the name of the field that is set; JSON is read by
trying the types, one after the other.

* `conversions_agree`: the client and the daemon read from a message what the other has written;
* `ofJson_toJson_iff`: a value is read back from JSON, but for empty lists. These look alike, and
  are read as lists of integers.
-/

namespace SysAdmin

/-! ## Fields by their names -/

namespace Sysadminctl

/-- The name of a field. -/
def OneofValue.name : OneofValue → String
  | int32val _ => "int32val"
  | strval _ => "strval"
  | boolval _ => "boolval"
  | int32list _ => "int32list"
  | boollist _ => "boollist"
  | stringlist _ => "stringlist"

namespace ConfigValue

variable (m : ConfigValue)

/-- A field of the message. One that is not set reads as its default. -/
def int32val : Int32 := match m.value with
  | some (.int32val v) => v
  | _ => 0

@[inherit_doc int32val]
def strval : String := match m.value with
  | some (.strval v) => v
  | _ => ""

@[inherit_doc int32val]
def boolval : Bool := match m.value with
  | some (.boolval v) => v
  | _ => false

@[inherit_doc int32val]
def int32list : List Int32 := match m.value with
  | some (.int32list list) => list
  | _ => []

@[inherit_doc int32val]
def boollist : List Bool := match m.value with
  | some (.boollist list) => list
  | _ => []

@[inherit_doc int32val]
def stringlist : List String := match m.value with
  | some (.stringlist list) => list
  | _ => []

end ConfigValue

end Sysadminctl

namespace ProtobufTranslator

/-- The name of the field that is set. -/
def getOneofFieldName (value : Sysadminctl.ConfigValue) : Option String :=
  value.value.map Sysadminctl.OneofValue.name

/-- The value of a message, by the name of its field. -/
def valueByName (value : Sysadminctl.ConfigValue) (fieldname : String) : Option ConfigValue :=
  if fieldname = "int32val" then some (.ofType (.int32 value.int32val))
  else if fieldname = "strval" then some (.ofType (.string value.strval))
  else if fieldname = "boolval" then some (.ofType (.bool value.boolval))
  else if fieldname = "int32list" then some (.ofType (.int32list value.int32list))
  else if fieldname = "boollist" then some (.ofType (.boollist value.boollist))
  else if fieldname = "stringlist" then some (.ofType (.stringlist value.stringlist))
  else none

/-- The pair to set, if a command is to set one. -/
def translateMessageToSet (message : Sysadminctl.Command) : Option ConfigPair :=
  match message.payload with
  | some (.set key value) => do
    let value ← value
    let fieldname ← getOneofFieldName value
    let v ← valueByName value fieldname
    return ⟨.ofString key, v⟩
  | _ => none

/-- The names tell the fields apart. -/
theorem valueByName_name (value : Sysadminctl.ConfigValue) :
    (getOneofFieldName value).bind (valueByName value) = valueOf value := by
  rcases value with ⟨_ | field⟩
  · rfl
  · rcases field with v | v | v | list | list | list <;> rfl

theorem translateMessageToSet_eq (key : String) (value : Option Sysadminctl.ConfigValue)
    (id : UInt32) (xid : Option UInt32) :
    translateMessageToSet ⟨some (.set key value), id, xid⟩ = translateToSet key value := by
  rcases value with _ | value
  · rfl
  · rw [translateToSet, Option.bind_some, ← valueByName_name, Option.map_bind]
    refine Option.bind_congr fun fieldname _ => ?_
    rcases h : valueByName value fieldname <;> simp [h]

end ProtobufTranslator

namespace RustClient

open ProtobufTranslator

/-! ## Messages of the client -/

/-- The message of a value. -/
def SysadminValue.toConfigValue : SysadminValue → Sysadminctl.ConfigValue
  | int32 x => ⟨some (.int32val x)⟩
  | strval x => ⟨some (.strval x)⟩
  | bool x => ⟨some (.boolval x)⟩
  | int32List x => ⟨some (.int32list x)⟩
  | boolList x => ⟨some (.boollist x)⟩
  | strvalList x => ⟨some (.stringlist x)⟩

/-- A key to set, with its value. -/
structure Set where
  key : String
  value : SysadminValue
  deriving DecidableEq

/-- The payload of the command. -/
def Set.intoBuf (set : Set) : Sysadminctl.Payload := .set set.key (some set.value.toConfigValue)

/-- The message of a value that the client has is that of a typed value. -/
theorem exists_toConfigValue (s : SysadminValue) :
    ∃ t, SysadminValue.ofType t = s ∧ valueOf s.toConfigValue = some (.ofType t) := by
  rcases s with x | x | x | x | x | x
  · exact ⟨.int32 x, rfl, rfl⟩
  · exact ⟨.string x, rfl, rfl⟩
  · exact ⟨.bool x, rfl, rfl⟩
  · exact ⟨.int32list x, rfl, rfl⟩
  · exact ⟨.boollist x, rfl, rfl⟩
  · exact ⟨.stringlist x, rfl, rfl⟩

/-- The client reads every value that there is as the daemon has written it, and the daemon sets
    the key of a command to the value that the client has written. -/
theorem conversions_agree (v : ConfigValue) (set : Set) (id : UInt32) (xid : Option UInt32) :
    SysadminValue.fromConfigValue (copyConfigValue v) =
      (if v.empty then none else some (.ofType v.value)) ∧
    ∃ t, SysadminValue.ofType t = set.value ∧
      translateMessageToSet ⟨some set.intoBuf, id, xid⟩ =
        some ⟨.ofString set.key, .ofType t⟩ := by
  refine ⟨fromConfigValue_copyConfigValue v, ?_⟩
  obtain ⟨t, ht, hvalue⟩ := exists_toConfigValue set.value
  refine ⟨t, ht, ?_⟩
  rw [Set.intoBuf, translateMessageToSet_eq, translateToSet, Option.bind_some, hvalue]
  rfl

/-! ## JSON -/

/-- A value in JSON. Numbers that are no integers are known by their text. -/
inductive Json
  | null
  | bool (b : Bool)
  | int (i : Int)
  | float (text : String)
  | string (s : String)
  | array (items : List Json)
  | object (fields : List (String × Json))

namespace Json

/-- An integer of 32 bits. -/
def toI32 : Json → Option Int32
  | int i => if Int32.minValue.toInt ≤ i ∧ i ≤ Int32.maxValue.toInt then some (.ofInt i) else none
  | null | bool _ | float _ | string _ | array _ | object _ => none

/-- A text. -/
def toText : Json → Option String
  | string s => some s
  | null | bool _ | int _ | float _ | array _ | object _ => none

/-- A boolean. -/
def toBool : Json → Option Bool
  | bool b => some b
  | null | int _ | float _ | string _ | array _ | object _ => none

/-- A list, the elements of which are read one by one. -/
def toVec {α : Type} (item : Json → Option α) : Json → Option (List α)
  | array items => items.mapM item
  | null | bool _ | int _ | float _ | string _ | object _ => none

end Json

namespace SysadminValue

/-- The value in JSON, without its type. -/
def toJson : SysadminValue → Json
  | int32 v => .int v.toInt
  | strval v => .string v
  | bool v => .bool v
  | int32List v => .array (v.map fun i => .int i.toInt)
  | boolList v => .array (v.map .bool)
  | strvalList v => .array (v.map .string)

/-- The value read from JSON: that of the first type that accepts it. -/
def ofJson (j : Json) : Option SysadminValue :=
  (j.toI32.map int32) <|> (j.toText.map strval) <|> (j.toBool.map bool) <|>
    ((j.toVec Json.toI32).map int32List) <|> ((j.toVec Json.toBool).map boolList) <|>
    ((j.toVec Json.toText).map strvalList)

theorem toI32_int (v : Int32) : (Json.int v.toInt).toI32 = some v := by
  rw [Json.toI32, if_pos ⟨Int32.minValue_le_toInt v, Int32.toInt_le v⟩, Int32.ofInt_toInt]

/-- The type of a list is told by its first element, if it has one. -/
theorem ofJson_toJson_iff (v : SysadminValue) :
    ofJson v.toJson = some v ↔ v ≠ boolList [] ∧ v ≠ strvalList [] := by
  rcases v with v | v | v | list | list | list
  · exact iff_of_true (by rw [toJson, ofJson, toI32_int]; rfl) (by simp)
  · exact iff_of_true rfl (by simp)
  · exact iff_of_true rfl (by simp)
  · have hread : (list.map fun i => Json.int i.toInt).mapM Json.toI32 = some list :=
      mapM_map_self fun v _ => toI32_int v
    refine iff_of_true ?_ (by simp)
    simp only [toJson, ofJson, Json.toVec, hread]
    rfl
  · have hread : (list.map Json.bool).mapM Json.toBool = some list := mapM_map_self fun _ _ => rfl
    rcases list with _ | ⟨b, list⟩
    · exact iff_of_false (by decide) (by simp)
    · refine iff_of_true ?_ (by simp)
      -- Integers are tried first, then booleans, and texts last.
      have hint : ((b :: list).map Json.bool).mapM Json.toI32 = none := rfl
      simp only [toJson, ofJson, Json.toVec, hread, hint]
      rfl
  · have hread : (list.map Json.string).mapM Json.toText = some list :=
      mapM_map_self fun _ _ => rfl
    rcases list with _ | ⟨s, list⟩
    · exact iff_of_false (by decide) (by simp)
    · refine iff_of_true ?_ (by simp)
      have hint : ((s :: list).map Json.string).mapM Json.toI32 = none := rfl
      have hbool : ((s :: list).map Json.string).mapM Json.toBool = none := rfl
      simp only [toJson, ofJson, Json.toVec, hread, hint, hbool]
      rfl

/-- A list of booleans without elements is read as one of integers. -/
theorem not_forall_ofJson_toJson : ¬∀ v : SysadminValue, ofJson v.toJson = some v := fun h =>
  absurd (h (boolList [])) (by decide)

end SysadminValue

end RustClient

end SysAdmin
