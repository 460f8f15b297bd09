import Mathlib.Data.List.DropRight
import SysAdmin.Migrations

/-!
# Conversions

What the Python client makes of a value that is set with the name of a type. Values of messages
are scalars, or lists of them; a scalar is converted by itself (`convertType`), and a list
element by element.

* `toInt`: what is read as an integer. Texts may have spaces around them, a sign, underscores
  between the digits, and the decimal digits of any script;
* `overriddenTypeUnpack`: the field for a scalar. Converting raises an exception for many a value,
  and for names that are no types no field is set;
* `typeName_overriddenTypeUnpack`: if there is a field, it is of the type;
* `unpackIntoProto`: the field for a value that is set without the name of a type. A value that
  has been read from a message is written to it again (`unpackIntoProto_unpackFromProto_iff`),
  unless it is an empty list.
-/

namespace SysAdmin

namespace Migrations

open Sysadminctl (MappedField OneofValue)

/-- A value of a message that is no list. -/
inductive Scalar
  | bool (b : Bool)
  | int (i : Int)
  | str (s : String)
  deriving DecidableEq

namespace Scalar

/-- The value in Python. -/
def toPy : Scalar → PyValue
  | bool b => .bool b
  | int i => .int i
  | str s => .str s

/-- A value in Python that may be in a message, but for lists. -/
def ofPy : PyValue → Option Scalar
  | .bool b => some (bool b)
  | .int i => some (int i)
  | .str s => some (str s)
  | .none | .other _ | .list _ | .dict _ => none

/-- A scalar is the same on both sides. -/
@[simp] theorem ofPy_toPy (v : Scalar) : ofPy v.toPy = some v := by
  rcases v with b | i | s <;> rfl

/-- A list in Python that may be in a message. -/
def listOfPy : PyValue → Option (List Scalar)
  | .list items => items.mapM ofPy
  | .none | .bool _ | .int _ | .str _ | .other _ | .dict _ => none

@[simp] theorem listOfPy_toPy (items : List Scalar) :
    listOfPy (.list (items.map toPy)) = some items := by
  rw [listOfPy]
  exact mapM_map_self fun v _ => ofPy_toPy v

end Scalar

/-! ## Integers -/

/-- The zeros of the scripts that have decimal digits. -/
def zeros : List Nat :=
  [0x30, 0x660, 0x6f0, 0x7c0, 0x966, 0x9e6, 0xa66, 0xae6, 0xb66, 0xbe6, 0xc66, 0xce6, 0xd66, 0xde6,
    0xe50, 0xed0, 0xf20, 0x1040, 0x1090, 0x17e0, 0x1810, 0x1946, 0x19d0, 0x1a80, 0x1a90, 0x1b50,
    0x1bb0, 0x1c40, 0x1c50, 0xa620, 0xa8d0, 0xa900, 0xa9d0, 0xa9f0, 0xaa50, 0xabf0, 0xff10,
    0x104a0, 0x10d30, 0x11066, 0x110f0, 0x11136, 0x111d0, 0x112f0, 0x11450, 0x114d0, 0x11650,
    0x116c0, 0x11730, 0x118e0, 0x11950, 0x11c50, 0x11d50, 0x11da0, 0x16a60, 0x16ac0, 0x16b50,
    0x1d7ce, 0x1d7d8, 0x1d7e2, 0x1d7ec, 0x1d7f6, 0x1e140, 0x1e2f0, 0x1e950, 0x1fbf0]

/-- The characters around a number that do not count. -/
def spaces : List Nat :=
  [0x9, 0xa, 0xb, 0xc, 0xd, 0x20, 0x85, 0xa0, 0x1680, 0x2000, 0x2001, 0x2002, 0x2003, 0x2004,
    0x2005, 0x2006, 0x2007, 0x2008, 0x2009, 0x200a, 0x2028, 0x2029, 0x202f, 0x205f, 0x3000]

/-- The value of a decimal digit. -/
def decimal (c : Char) : Option Nat :=
  (zeros.find? fun z => decide (z ≤ c.toNat ∧ c.toNat < z + 10)).map fun z => c.toNat - z

/-- The values of the digits of a number, which may have single underscores between them. -/
def digits : List Char → Option (List Nat)
  | [] => none
  | [c] => (decimal c).map fun d => [d]
  | c :: '_' :: cs => do return (← decimal c) :: (← digits cs)
  | c :: cs => do return (← decimal c) :: (← digits cs)

/-- A number without its sign. There is a limit to how many digits it may have. -/
def magnitude (cs : List Char) : Option Nat := do
  let ds ← digits cs
  if ds.length > 4300 then none else return ds.foldl (fun n d => 10 * n + d) 0

/-- The integer that a text stands for. -/
def intOfText (text : String) : Option Int :=
  let isSpace : Char → Bool := fun c => spaces.contains c.toNat
  match (text.toList.dropWhile isSpace).rdropWhile isSpace with
  | '-' :: cs => (magnitude cs).map fun n => -n
  | '+' :: cs => (magnitude cs).map fun n => n
  | cs => (magnitude cs).map fun n => n

namespace Scalar

/-- The value as an integer. -/
def toInt : Scalar → Option Int
  | bool b => some b.toInt
  | int i => some i
  | str s => intOfText s

/-- The value as a text. -/
def toText : Scalar → String
  | bool b => if b then "True" else "False"
  | int i => toString i
  | str s => s

/-- The value as a boolean. An integer has no lower case, which raises. No letters but those of
    ASCII have the lower case of a letter in `true`. -/
def toBool : Scalar → Option Bool
  | bool b => some b
  | int _ => none
  | str s => some (s.toList.map Char.toLower == "true".toList)

end Scalar

/-! ## Fields -/

/-- Whether `name in newtype`. -/
def isIn (name newtype : String) : Bool := decide (name.toList <:+: newtype.toList)

/-- Converts a value to a type, or the element of a list to the type of the elements. There is no
    value for other names. -/
def convertType (value : Scalar) (newtype : String) : Option (Option Scalar) :=
  if isIn "str" newtype then some (some (.str value.toText))
  else if isIn "bool" newtype then value.toBool.map fun b => some (.bool b)
  else if isIn "int32" newtype then value.toInt.map fun i => some (.int i)
  else some none

/-- A text, as a field takes it. -/
def strField : Option Scalar → Option String
  | some (.str s) => some s
  | some (.bool _) | some (.int _) | none => none

/-- A boolean, as a field takes it. -/
def boolField : Option Scalar → Option Bool
  | some (.bool b) => some b
  | some (.int i) => some (decide (i ≠ 0))
  | some (.str _) | none => none

/-- An integer, as a field takes it: one of 32 bits. -/
def int32Field : Option Scalar → Option Int32
  | some (.int i) =>
    if Int32.minValue.toInt ≤ i ∧ i ≤ Int32.maxValue.toInt then some (.ofInt i) else none
  | some (.bool b) => some (.ofInt b.toInt)
  | some (.str _) | none => none

/-- The field of a list, for the name of a type of lists. -/
def unpackList (items : List Scalar) (valtype : String) : Option OneofValue := do
  let values ← items.mapM fun value => convertType value valtype
  if valtype = "stringlist" then (values.mapM strField).map .stringlist
  else if valtype = "boollist" then (values.mapM boolField).map .boollist
  else if valtype = "int32list" then (values.mapM int32Field).map .int32list
  else none

/-- The field of a value, for the name of a type. To become a list, a value must have a length,
    which texts have. -/
def overriddenTypeUnpack (value : Scalar) (valtype : String) : Option (Option OneofValue) :=
  if valtype = "str" then ((convertType value valtype).bind strField).map (some ∘ .strval)
  else if valtype = "bool" then ((convertType value valtype).bind boolField).map (some ∘ .boolval)
  else if valtype = "int32" then
    ((convertType value valtype).bind int32Field).map (some ∘ .int32val)
  else if isIn "list" valtype then
    match value with
    | .str s => (unpackList (if s.length > 0 then [value] else []) valtype).map some
    | .bool _ | .int _ => none
  else some none

/-- The name of the type of a field. -/
def typeName : OneofValue → String
  | .strval _ => "str"
  | .boolval _ => "bool"
  | .int32val _ => "int32"
  | .stringlist _ => "stringlist"
  | .boollist _ => "boollist"
  | .int32list _ => "int32list"

variable {value : Scalar} {items : List Scalar} {valtype : String} {field : OneofValue}

theorem typeName_of_map {α : Type} {f : α → OneofValue} {o : Option α}
    (h : o.map f = some field) (hf : ∀ a, typeName (f a) = valtype) : typeName field = valtype := by
  obtain ⟨a, _, rfl⟩ := Option.map_eq_some_iff.1 h
  exact hf a

/-- A list gets the type that it is unpacked to. -/
theorem typeName_unpackList (h : unpackList items valtype = some field) :
    typeName field = valtype := by
  rw [unpackList, Option.bind_eq_bind, Option.bind_eq_some_iff] at h
  obtain ⟨values, _, h⟩ := h
  split at h
  · next ht => exact typeName_of_map h fun _ => ht.symm
  · split at h
    · next ht => exact typeName_of_map h fun _ => ht.symm
    · split at h
      · next ht => exact typeName_of_map h fun _ => ht.symm
      · cases h

theorem typeName_of_map_some {α : Type} {f : α → OneofValue} {o : Option α}
    (h : o.map (some ∘ f) = some (some field)) (hf : ∀ a, typeName (f a) = valtype) :
    typeName field = valtype := by
  rw [← Option.map_map, Option.map_eq_some_iff] at h
  obtain ⟨field', h, heq⟩ := h
  rw [← Option.some.inj heq]
  exact typeName_of_map h hf

/-- A value that has been converted is of the type. -/
theorem typeName_overriddenTypeUnpack (h : overriddenTypeUnpack value valtype = some (some field)) :
    typeName field = valtype := by
  unfold overriddenTypeUnpack at h
  split at h
  · next ht => exact typeName_of_map_some h fun _ => ht.symm
  · split at h
    · next ht => exact typeName_of_map_some h fun _ => ht.symm
    · split at h
      · next ht => exact typeName_of_map_some h fun _ => ht.symm
      · split at h
        · rcases value with b | i | s
          · cases h
          · cases h
          · obtain ⟨field', hlist, hfield⟩ := Option.map_eq_some_iff.1 h
            cases hfield
            exact typeName_unpackList hlist
        · cases h

/-! ## Values without the name of a type -/

/-- The field of a value, which the value tells by itself; a list by its first element. Lists
    without elements raise an exception. No field is set for values that no message has. -/
def unpackIntoProto : PyValue → Option (Option OneofValue)
  | .str s => some (some (.strval s))
  | .bool b => some (some (.boolval b))
  | .int i => (int32Field (some (.int i))).map (some ∘ .int32val)
  | .list [] => none
  | .list (v :: items) =>
    match Scalar.ofPy v with
    | some (.str _) =>
      ((v :: items).mapM fun item => strField (Scalar.ofPy item)).map (some ∘ .stringlist)
    | some (.bool _) =>
      ((v :: items).mapM fun item => boolField (Scalar.ofPy item)).map (some ∘ .boollist)
    | some (.int _) =>
      ((v :: items).mapM fun item => int32Field (Scalar.ofPy item)).map (some ∘ .int32list)
    | none => some none
  | .none | .other _ | .dict _ => some none

/-- A list without elements. -/
def IsEmptyList (field : OneofValue) : Prop :=
  field = .int32list [] ∨ field = .boollist [] ∨ field = .stringlist []

instance : Decidable (IsEmptyList field) := inferInstanceAs (Decidable (_ ∨ _))

theorem int32Field_toInt (v : Int32) : int32Field (some (.int v.toInt)) = some v := by
  rw [int32Field, if_pos ⟨Int32.minValue_le_toInt v, Int32.toInt_le v⟩, Int32.ofInt_toInt]

/-- There is no first element to tell the type of an empty list. -/
theorem unpackIntoProto_of_isEmptyList (key : String) (h : IsEmptyList field) :
    unpackIntoProto (unpackFromProto ⟨key, some ⟨some field⟩⟩) = none := by
  rcases h with rfl | rfl | rfl <;> rfl

/-- A value is read back from the message that it has been written to, with the field that was
    set, unless it is a list without elements. -/
theorem unpackIntoProto_unpackFromProto_iff (key : String) (field : OneofValue) :
    unpackIntoProto (unpackFromProto ⟨key, some ⟨some field⟩⟩) = some (some field) ↔
      ¬IsEmptyList field := by
  -- A single value is written as it is; of a list, the type of the first element decides.
  rcases field with v | v | v | list | list | list
  · exact iff_of_true (by simp [unpackFromProto, oneof, unpackIntoProto, int32Field_toInt])
      (by simp [IsEmptyList])
  · exact iff_of_true rfl (by simp [IsEmptyList])
  · exact iff_of_true rfl (by simp [IsEmptyList])
  · rcases list with _ | ⟨v, list⟩
    · exact iff_of_false nofun (not_not.2 (.inl rfl))
    · have hread : ((v :: list).map fun v => PyValue.int v.toInt).mapM
          (fun item => int32Field (Scalar.ofPy item)) = some (v :: list) :=
        mapM_map_self fun v _ => int32Field_toInt v
      refine iff_of_true ?_ (by simp [IsEmptyList])
      exact congrArg (Option.map (some ∘ OneofValue.int32list)) hread
  · rcases list with _ | ⟨b, list⟩
    · exact iff_of_false nofun (not_not.2 (.inr (.inl rfl)))
    · have hread : ((b :: list).map PyValue.bool).mapM
          (fun item => boolField (Scalar.ofPy item)) = some (b :: list) :=
        mapM_map_self fun _ _ => rfl
      refine iff_of_true ?_ (by simp [IsEmptyList])
      exact congrArg (Option.map (some ∘ OneofValue.boollist)) hread
  · rcases list with _ | ⟨s, list⟩
    · exact iff_of_false nofun (not_not.2 (.inr (.inr rfl)))
    · have hread : ((s :: list).map PyValue.str).mapM
          (fun item => strField (Scalar.ofPy item)) = some (s :: list) :=
        mapM_map_self fun _ _ => rfl
      refine iff_of_true ?_ (by simp [IsEmptyList])
      exact congrArg (Option.map (some ∘ OneofValue.stringlist)) hread

/-- A list without elements has no first one, and cannot be written again. -/
theorem not_forall_unpackIntoProto : ¬∀ (key : String) (field : OneofValue),
    unpackIntoProto (unpackFromProto ⟨key, some ⟨some field⟩⟩) = some (some field) := fun h =>
  nomatch h "a" (.int32list [])

/-- The texts of numbers. -/
example : intOfText " -1_000\n" = some (-1000) ∧ intOfText "１２" = some 12 ∧
    intOfText "1__0" = none ∧ intOfText "" = none := by decide

end Migrations

end SysAdmin
