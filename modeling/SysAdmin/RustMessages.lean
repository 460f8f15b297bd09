import Mathlib.Tactic.Ring
import SysAdmin.Foundation.WireFormat
import SysAdmin.GetRequests

/-!
# The messages of the Rust client

The code that is generated for a message reads its fields in a loop over their tags (`merge_from`),
computes the size of what it writes, and writes the fields one after the other. What it calls of
the protobuf crate is a parameter (`Runtime`), with what is documented of it: what is written for a
value is read as the value, and takes as many bytes as its size says.

The generated code of a message consists of blocks, one for each field or alternative of a
`oneof` (`Block`). With distinct numbers, a message that is written is read as itself, and its size
is the number of bytes, in the arithmetic of `u32` (`Message`). Unknown fields are read, but not
kept.

* `roundTrips_messages`: this holds of the blocks of each command and each response.
-/

namespace SysAdmin.RustMessages

open Wire

/-- How the crate writes and reads the values of a type, and the size of a field with such a
    value. -/
structure Scalar (tag : ℕ → WireType → List UInt8) (α : Type) where
  wireType : WireType
  write : α → List UInt8
  read : Reader UInt8 α
  size : ℕ → α → UInt32
  read_write : ∀ a t, (write a).length < 2 ^ 32 → read (write a ++ t) = some (a, t)
  size_eq : ∀ field a, size field a = .ofNat (tag field wireType ++ write a).length

/-- What the generated code calls of the protobuf crate. -/
structure Runtime where
  /-- `write_tag` and `read_tag_unpack`. -/
  tag : ℕ → WireType → List UInt8
  readTag : Reader UInt8 (ℕ × WireType)
  readTag_tag : ∀ field wireType t, 0 < field → field < 2048 →
    readTag (tag field wireType ++ t) = some ((field, wireType), t)
  length_tag : ∀ field wireType, 0 < field → field < 2048 →
    (tag field wireType).length = if field < 16 then 1 else 2
  /-- `write_raw_varint32` and `compute_raw_varint32_size`. -/
  varint32 : UInt32 → List UInt8
  varint32Size : UInt32 → UInt32
  varint32Size_eq : ∀ n, varint32Size n = .ofNat (varint32 n).length
  uint32 : Scalar tag UInt32
  int32 : Scalar tag Int32
  bool : Scalar tag Bool
  length_bool : ∀ b, (bool.write b).length = 1
  string : Scalar tag String
  /-- `read_enum` reads the number of a value. -/
  readEnum : {ε : Type} → (Int32 → Option ε) → Reader UInt8 ε
  readEnum_write : ∀ {ε : Type} (fromI32 : Int32 → Option ε) n t,
    readEnum fromI32 (int32.write n ++ t) = (fromI32 n).map (·, t)
  /-- `read_message` and `read_singular_message_into` read a message of a length. -/
  readMessage : {σ : Type} → (List UInt8 → Option σ) → (σ → Bool) → Reader UInt8 σ
  readMessage_write : ∀ {σ : Type} (merge : List UInt8 → Option σ) isInitialized p m t,
    p.length < 2 ^ 32 → merge p = some m → isInitialized m = true →
      readMessage merge isInitialized (varint32 (.ofNat p.length) ++ p ++ t) = some (m, t)
  /-- `read_repeated_int32_into` and `read_repeated_bool_into` also take packed fields. -/
  readRepeated : {α : Type} → Scalar tag α → WireType → List α → Reader UInt8 (List α)
  readRepeated_write : ∀ {α : Type} (scalar : Scalar tag α) as a t,
    (scalar.write a).length < 2 ^ 32 →
      readRepeated scalar scalar.wireType as (scalar.write a ++ t) = some (as ++ [a], t)
  /-- `read_unknown_or_skip_group`. -/
  skip : ℕ → WireType → Reader UInt8 Unit

variable (R : Runtime)

/-! ## Blocks -/

/-- What the generated code has for a field: the arm of the `match` in `merge_from`, and its parts
    of `compute_size`, `write_to_with_cached_sizes` and `is_initialized`. A field that has been
    written is read as it is copied. -/
structure Block (σ : Type) where
  number : ℕ
  arm : WireType → σ → Reader UInt8 σ
  size : σ → UInt32
  write : σ → List UInt8
  isInitialized : σ → Bool
  copy : σ → σ → σ
  size_eq : ∀ m, size m = .ofNat (write m).length
  acts : ∀ mergeField : ℕ × WireType → σ → Reader UInt8 σ,
    (∀ wireType, mergeField (number, wireType) = arm wireType) → ∀ m, isInitialized m = true →
      (write m).length < 2 ^ 32 → Acts R.readTag mergeField (write m) (copy m)

/-- The generated code of a message. An initialized message is read as it is written. -/
structure Message (σ : Type) where
  new : σ
  mergeField : ℕ × WireType → σ → Reader UInt8 σ
  computeSize : σ → UInt32
  writeToWithCachedSizes : σ → List UInt8
  isInitialized : σ → Bool
  computeSize_eq : ∀ m, computeSize m = .ofNat (writeToWithCachedSizes m).length
  mergeFrom_write : ∀ m, isInitialized m = true → (writeToWithCachedSizes m).length < 2 ^ 32 →
    mergeFrom R.readTag mergeField new (writeToWithCachedSizes m) = some m

variable {R} {σ α : Type}

theorem tag_ne_nil {field : ℕ} {wireType : WireType} (h : 0 < field) (h' : field < 2048) :
    R.tag field wireType ≠ [] := by
  refine List.ne_nil_of_length_pos ?_
  rw [R.length_tag _ _ h h']
  split <;> decide

theorem ofNat_length_append (l l' : List UInt8) :
    UInt32.ofNat (l ++ l').length = .ofNat l.length + .ofNat l'.length := by
  rw [List.length_append, UInt32.ofNat_add]

theorem foldl_size {bs : List (Block R σ)} {m : σ} (n : UInt32) :
    bs.foldl (fun n b => n + b.size m) n =
      n + .ofNat (bs.flatMap fun b => b.write m).length := by
  induction bs generalizing n with
  | nil => simp
  | cons b bs ih =>
    rw [List.foldl_cons, ih, b.size_eq, List.flatMap_cons, ofNat_length_append, UInt32.add_assoc]

theorem find?_number {bs : List (Block R σ)} (h : (bs.map Block.number).Nodup) {b : Block R σ}
    (hb : b ∈ bs) : bs.find? (fun b' => b'.number = b.number) = some b := by
  obtain ⟨b', hb'⟩ := Option.isSome_iff_exists.1
    (List.find?_isSome.2 ⟨b, hb, decide_eq_true rfl⟩ :
      (bs.find? fun b' => b'.number = b.number).isSome = true)
  have hnumber : b'.number = b.number := by simpa using List.find?_some hb'
  rw [hb', List.inj_on_of_nodup_map h (List.mem_of_find?_eq_some hb') hb hnumber]

variable (R) in
/-- What `merge_from` does with a field: it reads it as the block of the number does, and skips it
    if there is none. -/
def mergeBlocks (blocks : List (Block R σ)) (tag : ℕ × WireType) (s : σ) : Reader UInt8 σ :=
  match blocks.find? fun b => b.number = tag.1 with
  | some b => b.arm tag.2 s
  | none => fun bs => (R.skip tag.1 tag.2 bs).map fun x => (s, x.2)

/-- The blocks of a message with distinct numbers, whose fields make up the message. -/
def Message.ofBlocks (new : σ) (blocks : List (Block R σ))
    (hnodup : (blocks.map Block.number).Nodup)
    (hcopy : ∀ m, blocks.foldl (fun s b => b.copy m s) new = m) : Message R σ where
  new := new
  mergeField := mergeBlocks R blocks
  computeSize m := blocks.foldl (fun n b => n + b.size m) 0
  writeToWithCachedSizes m := blocks.flatMap fun b => b.write m
  isInitialized m := blocks.all fun b => b.isInitialized m
  computeSize_eq m := by rw [foldl_size, UInt32.zero_add]
  mergeFrom_write m hinit hm := by
    have hacts : ∀ b ∈ blocks, Acts R.readTag (mergeBlocks R blocks) (b.write m) (b.copy m) := by
      intro b hb
      refine b.acts _ (fun wireType => ?_) m (List.all_eq_true.1 hinit b hb) ?_
      · funext s
        rw [mergeBlocks, find?_number hnodup hb]
      · exact (List.sublist_flatten_of_mem (List.mem_map_of_mem hb)).length_le.trans_lt hm
    have h := mergeFrom_of_acts (Acts.flatMap hacts) new
    rwa [hcopy] at h

/-- The order of the blocks does not matter to what is read. -/
theorem mergeBlocks_of_perm {bs bs' : List (Block R σ)} (h : (bs.map Block.number).Nodup)
    (hperm : bs.Perm bs') : mergeBlocks R bs = mergeBlocks R bs' := by
  funext tag s
  have hfind : bs.find? (fun b => b.number = tag.1) = bs'.find? fun b => b.number = tag.1 := by
    rcases hb : bs.find? (fun b => b.number = tag.1) with _ | b
    · rw [hb]
      refine (List.find?_eq_none.2 fun b hb' => ?_).symm
      exact List.find?_eq_none.1 hb b (hperm.mem_iff.2 hb')
    · have hnumber : b.number = tag.1 := by simpa using List.find?_some hb
      rw [hb, ← hnumber, find?_number ((hperm.map Block.number).nodup_iff.1 h)
        (hperm.mem_iff.1 (List.mem_of_find?_eq_some hb))]
  rw [mergeBlocks, mergeBlocks, hfind]

namespace Message

variable (M : Message R σ)

/-- `write_to_bytes`, which fails for a message that is not initialized. -/
def writeToBytes (m : σ) : Option (List UInt8) :=
  if M.isInitialized m then some (M.writeToWithCachedSizes m) else none

/-- `parse_from_bytes`, which fails for a message that is not initialized. -/
def parseFromBytes (bs : List UInt8) : Option σ :=
  (mergeFrom R.readTag M.mergeField M.new bs).filter M.isInitialized

variable {M} {m : σ} {bs : List UInt8}

theorem computeSize_of_writeToBytes (h : M.writeToBytes m = some bs) :
    M.computeSize m = .ofNat bs.length := by
  rw [writeToBytes] at h
  split at h
  · rw [M.computeSize_eq, Option.some.inj h]
  · cases h

/-- What is written of a message is read as this message. -/
theorem parseFromBytes_of_writeToBytes (h : M.writeToBytes m = some bs)
    (hlen : bs.length < 2 ^ 32) : M.parseFromBytes bs = some m := by
  rw [writeToBytes] at h
  split at h
  · next hinit =>
    rw [← Option.some.inj h] at hlen ⊢
    rw [parseFromBytes, M.mergeFrom_write m hinit hlen]
    exact if_pos hinit
  · cases h

/-- A message is also read if its fields have been written in another order. -/
theorem parseFromBytes_of_perm {new : σ} {blocks blocks' : List (Block R σ)}
    {hnodup : (blocks.map Block.number).Nodup}
    {hcopy : ∀ m, blocks.foldl (fun s b => b.copy m s) new = m} (hperm : blocks.Perm blocks')
    (hcomm : ∀ m, ∀ b ∈ blocks, ∀ b' ∈ blocks, ∀ s, b'.copy m (b.copy m s) = b.copy m (b'.copy m s))
    (hinit : (ofBlocks new blocks hnodup hcopy).isInitialized m = true)
    (hlen : (blocks'.flatMap fun b => b.write m).length < 2 ^ 32) :
    (ofBlocks new blocks hnodup hcopy).parseFromBytes (blocks'.flatMap fun b => b.write m) =
      some m := by
  have hcopy' : ∀ m, blocks'.foldl (fun s b => b.copy m s) new = m := fun m =>
    (hperm.foldl_eq' (fun b hb b' hb' s => hcomm m b hb b' hb' s) new).symm.trans (hcopy m)
  let M := ofBlocks new blocks' ((hperm.map Block.number).nodup_iff.1 hnodup) hcopy'
  have hinit' : M.isInitialized m = true := hperm.all_eq.symm.trans hinit
  have hread : mergeFrom R.readTag (mergeBlocks R blocks') new
      (blocks'.flatMap fun b => b.write m) = some m := M.mergeFrom_write m hinit' hlen
  rw [← mergeBlocks_of_perm hnodup hperm] at hread
  exact (congrArg (Option.filter _) hread).trans (if_pos hinit)

end Message

/-! ## Kinds of blocks -/

/-- The numbers of fields whose tags take one byte or two. -/
def TagNumber (number : ℕ) : Prop := 0 < number ∧ number < 2048

instance (number : ℕ) : Decidable (TagNumber number) := inferInstanceAs (Decidable (_ ∧ _))

namespace Block

/-- The block of a field with some values, none or one if it is not repeated. Each of them is
    written behind a tag, and read by the arm. -/
def ofField (number : ℕ) (hnumber : TagNumber number) (wireType : WireType)
    (value : α → List UInt8) (size : α → UInt32) (arm : WireType → σ → Reader UInt8 σ)
    (required : Bool) (valid : α → Bool) (get : σ → List α) (set : σ → α → σ)
    (hsize : ∀ a, size a = .ofNat (R.tag number wireType ++ value a).length)
    (harm : ∀ a s t, valid a = true → (value a).length < 2 ^ 32 →
      arm wireType s (value a ++ t) = some (set s a, t)) :
    Block R σ where
  number := number
  arm := arm
  size m := (get m).foldl (fun n a => n + size a) 0
  write m := (get m).flatMap fun a => R.tag number wireType ++ value a
  isInitialized m := (!required || !(get m).isEmpty) && (get m).all valid
  copy m s := (get m).foldl set s
  size_eq m := by
    generalize get m = as
    have hfold : ∀ n : UInt32, as.foldl (fun n a => n + size a) n =
        n + .ofNat (as.flatMap fun a => R.tag number wireType ++ value a).length := by
      induction as with
      | nil => simp
      | cons a as ih =>
        intro n
        rw [List.foldl_cons, ih, hsize, List.flatMap_cons, ofNat_length_append _ (as.flatMap _),
          UInt32.add_assoc]
    rw [hfold, UInt32.zero_add]
  acts mergeField hmerge m hinit hm := by
    have hvalid := List.all_eq_true.1 (Bool.and_eq_true_iff.1 hinit).2
    refine Acts.flatMap fun a ha => ?_
    have hlen := (List.sublist_flatten_of_mem (List.mem_map_of_mem (f := fun a =>
      R.tag number wireType ++ value a) ha)).length_le.trans_lt hm
    rw [List.length_append] at hlen
    refine Acts.field (tag_ne_nil hnumber.1 hnumber.2)
      (fun t => R.readTag_tag _ _ t hnumber.1 hnumber.2) fun s t => ?_
    rw [hmerge, harm a s t (hvalid a ha) (by omega)]

/-- A field with a value of some type, or an alternative of a `oneof`. -/
def scalar (number : ℕ) (hnumber : TagNumber number) (scalar : Scalar R.tag α) (required : Bool)
    (get : σ → Option α) (set : σ → α → σ) : Block R σ :=
  ofField number hnumber scalar.wireType scalar.write (scalar.size number)
    (fun wireType s bs =>
      if wireType ≠ scalar.wireType then none
      else (scalar.read bs).map fun x => (set s x.1, x.2))
    required (fun _ => true) (fun m => (get m).toList) set (scalar.size_eq number)
    fun a s t _ ha => by rw [if_neg (not_not_intro rfl), scalar.read_write a t ha]; rfl

/-- An alternative that is a truth value. Its size is known. -/
def bool (number : ℕ) (hnumber : TagNumber number) (hone : number < 16) (get : σ → Option Bool)
    (set : σ → Bool → σ) : Block R σ :=
  ofField number hnumber R.bool.wireType R.bool.write (fun _ => 2)
    (fun wireType s bs =>
      if wireType ≠ R.bool.wireType then none
      else (R.bool.read bs).map fun x => (set s x.1, x.2))
    false (fun _ => true) (fun m => (get m).toList) set
    (fun a => by
      rw [List.length_append, R.length_bool, R.length_tag _ _ hnumber.1 hnumber.2, if_pos hone]
      rfl)
    fun a s t _ ha => by rw [if_neg (not_not_intro rfl), R.bool.read_write a t ha]; rfl

/-- A field with a value of an enumeration. -/
def enum (number : ℕ) (hnumber : TagNumber number) (value : α → Int32)
    (fromI32 : Int32 → Option α) (hvalue : ∀ a, fromI32 (value a) = some a) (required : Bool)
    (get : σ → Option α) (set : σ → α → σ) : Block R σ :=
  ofField number hnumber R.int32.wireType (fun a => R.int32.write (value a))
    (fun a => R.int32.size number (value a))
    (fun wireType s bs =>
      if wireType ≠ R.int32.wireType then none
      else (R.readEnum fromI32 bs).map fun x => (set s x.1, x.2))
    required (fun _ => true) (fun m => (get m).toList) set
    (fun a => R.int32.size_eq number (value a))
    fun a s t _ _ => by
      rw [if_neg (not_not_intro rfl), R.readEnum_write, hvalue]
      rfl

/-- A repeated field with values of some type. -/
def repeatedScalar (number : ℕ) (hnumber : TagNumber number) (scalar : Scalar R.tag α)
    (size : α → UInt32)
    (hsize : ∀ a, size a = .ofNat (R.tag number scalar.wireType ++ scalar.write a).length)
    (get : σ → List α) (set : σ → List α → σ) : Block R σ :=
  ofField number hnumber scalar.wireType scalar.write size
    (fun wireType s bs => (R.readRepeated scalar wireType (get s) bs).map fun x =>
      (set s x.1, x.2))
    false (fun _ => true) get (fun s a => set s (get s ++ [a])) hsize
    fun a s t _ ha => by rw [R.readRepeated_write scalar _ a t ha]; rfl

/-- A field with messages, none or one if it is not repeated. -/
def message (number : ℕ) (hnumber : TagNumber number) (M : Message R α) (required : Bool)
    (get : σ → List α) (set : σ → α → σ) : Block R σ :=
  ofField number hnumber .lengthDelimited
    (fun a => R.varint32 (M.computeSize a) ++ M.writeToWithCachedSizes a)
    (fun a =>
      (if number < 16 then 1 else 2) + R.varint32Size (M.computeSize a) + M.computeSize a)
    (fun wireType s bs =>
      if wireType ≠ .lengthDelimited then none
      else (R.readMessage (mergeFrom R.readTag M.mergeField M.new) M.isInitialized bs).map
        fun x => (set s x.1, x.2))
    required M.isInitialized get set
    (fun a => by
      rw [ofNat_length_append, ofNat_length_append, R.varint32Size_eq, M.computeSize_eq,
        R.length_tag _ _ hnumber.1 hnumber.2, ← UInt32.add_assoc]
      split <;> rfl)
    fun a s t hinit ha => by
      rw [List.length_append] at ha
      rw [if_neg (not_not_intro rfl), M.computeSize_eq,
        R.readMessage_write _ _ _ a t (by omega) (M.mergeFrom_write a hinit (by omega)) hinit]
      rfl

/-- An alternative of a `oneof` that is a message. -/
def alternative {π : Type} (get : σ → Option π) (set : σ → π → σ) (number : ℕ)
    (hnumber : TagNumber number) (M : Message R α) (wrap : α → π) (unwrap : π → Option α) :
    Block R σ :=
  message number hnumber M false (fun m => ((get m).bind unwrap).toList)
    fun m v => set m (wrap v)

end Block

/-! ## The messages -/

open Block

/-- Reading the values of a repeated field, one by one. -/
theorem foldl_push (get : σ → List α) (put : σ → List α → σ)
    (hget : ∀ s as, get (put s as) = as) (hput : ∀ s as as', put (put s as) as' = put s as')
    (hself : ∀ s, put s (get s) = s) (as : List α) (s : σ) :
    as.foldl (fun s a => put s (get s ++ [a])) s = put s (get s ++ as) := by
  induction as generalizing s with
  | nil => rw [List.foldl_nil, List.append_nil, hself]
  | cons a as ih =>
    rw [List.foldl_cons, ih, hget, hput, List.append_assoc, List.singleton_append]

theorem foldl_concat (as l : List α) : as.foldl (fun s a => s ++ [a]) l = l ++ as :=
  foldl_push id (fun _ as => as) (fun _ _ => rfl) (fun _ _ _ => rfl) (fun _ => rfl) as l

/-- A message with a list of values as its field. -/
def listOf (block : Block R (List α)) (hcopy : ∀ m s, block.copy m s = s ++ m) :
    Message R (List α) :=
  .ofBlocks [] [block] (List.nodup_singleton _) fun m => hcopy m []

variable (R)

/-- A message without fields. -/
def noFields : Message R Unit := .ofBlocks () [] List.nodup_nil fun _ => rfl

/-- A message with one field, the first. -/
def oneField (scalar : Scalar R.tag α) (required : Bool) : Message R (Option α) :=
  .ofBlocks none [Block.scalar 1 (by decide) scalar required id fun _ v => some v]
    (List.nodup_singleton _) fun m => by cases m <;> rfl

def int32List : Message R (List Int32) :=
  listOf (repeatedScalar 1 (by decide) R.int32 (R.int32.size 1) (R.int32.size_eq 1) id
    fun _ as => as) fun m s => foldl_concat m s

def boolList : Message R (List Bool) :=
  listOf (repeatedScalar 1 (by decide) R.bool (fun _ => 2)
    (fun a => by
      rw [List.length_append, R.length_bool, R.length_tag _ _ (by decide) (by decide)]
      rfl) id fun _ as => as) fun m s => foldl_concat m s

def stringList : Message R (List String) :=
  listOf (repeatedScalar 1 (by decide) R.string (R.string.size 1) (R.string.size_eq 1) id
    fun _ as => as) fun m s => foldl_concat m s

/-- The message of a value, with one of its fields set. -/
def configValue : Message R Sysadminctl.ConfigValue :=
  .ofBlocks ⟨none⟩
    [scalar 1 (by decide) R.int32 false
        (fun m => match m.value with | some (.int32val v) => some v | _ => none)
        fun _ v => ⟨some (.int32val v)⟩,
      scalar 2 (by decide) R.string false
        (fun m => match m.value with | some (.strval v) => some v | _ => none)
        fun _ v => ⟨some (.strval v)⟩,
      bool 3 (by decide) (by decide)
        (fun m => match m.value with | some (.boolval v) => some v | _ => none)
        fun _ v => ⟨some (.boolval v)⟩,
      alternative (·.value) (fun _ v => ⟨some v⟩) 4 (by decide) (int32List R)
        .int32list fun | .int32list v => some v | _ => none,
      alternative (·.value) (fun _ v => ⟨some v⟩) 5 (by decide) (boolList R)
        .boollist fun | .boollist v => some v | _ => none,
      alternative (·.value) (fun _ v => ⟨some v⟩) 6 (by decide) (stringList R)
        .stringlist fun | .stringlist v => some v | _ => none]
    (show [1, 2, 3, 4, 5, 6].Nodup by decide)
    fun m => by
      rcases m with ⟨_ | v⟩
      · rfl
      · cases v <;> rfl

variable {R} in
/-- No field of a value is required. -/
theorem isInitialized_configValue (m : Sysadminctl.ConfigValue) :
    (configValue R).isInitialized m = true := by
  have hall : ∀ {α : Type} (l : List α), (l.all fun _ => true) = true := fun l =>
    List.all_eq_true.2 fun _ _ => rfl
  rcases m with ⟨_ | v⟩
  · rfl
  · cases v with
    | int32val | strval | boolval => rfl
    | int32list l | boollist l | stringlist l =>
      simp [configValue, int32List, boolList, stringList, listOf, Message.ofBlocks, scalar,
        Block.bool, alternative, message, repeatedScalar, ofField, hall]

/-! ### Commands -/

/-- `Set`. -/
structure Set where
  key : Option String
  value : Option Sysadminctl.ConfigValue
  deriving DecidableEq

def set : Message R Set :=
  .ofBlocks ⟨none, none⟩
    [scalar 1 (by decide) R.string true (·.key) fun m v => { m with key := some v },
      message 2 (by decide) (configValue R) true (fun m => m.value.toList)
        fun m v => { m with value := some v }]
    (show [1, 2].Nodup by decide) fun ⟨key, value⟩ => by cases key <;> cases value <;> rfl

def get : Message R (Option String) := oneField R R.string true

def eraseKey : Message R (Option String) := oneField R R.string true

def triggerHook : Message R (Option String) := oneField R R.string true

def blame : Message R (Option String) := oneField R R.string true

def rollback : Message R (Option UInt32) := oneField R R.uint32 true

/-- The number of a value of `CommitConfig`. -/
def commitConfigValue : CommitConfig → Int32
  | .default => 0
  | .templateOnly => 1
  | .noHooks => 3

def commitConfigFromI32 (value : Int32) : Option CommitConfig :=
  match value.toInt with
  | 0 => some .default
  | 1 => some .templateOnly
  | 3 => some .noHooks
  | _ => none

def commit : Message R (Option CommitConfig) :=
  .ofBlocks none
    [enum 1 (by decide) commitConfigValue commitConfigFromI32
      (fun a => by cases a <;> decide) false id fun _ v => some v]
    (List.nodup_singleton _) fun m => by cases m <;> rfl

def drop : Message R Unit := noFields R

def fireHooks : Message R Unit := noFields R

def reset : Message R Unit := noFields R

def dumpHooks : Message R Unit := noFields R

def inFlight : Message R Unit := noFields R

/-- The alternatives of the payload of a command. -/
inductive CommandPayload
  | set (v : Set)
  | get (v : Option String)
  | commit (v : Option CommitConfig)
  | drop (v : Unit)
  | firehooks (v : Unit)
  | erase (v : Option String)
  | rollback (v : Option UInt32)
  | reset (v : Unit)
  | dump (v : Unit)
  | trigger (v : Option String)
  | blame (v : Option String)
  | inflight (v : Unit)
  deriving DecidableEq

/-- `Command`. -/
structure Command where
  id : Option UInt32
  xid : Option UInt32
  payload : Option CommandPayload
  deriving DecidableEq

/-- The block of a payload of a command. -/
def commandPayload : (number : ℕ) → TagNumber number → Message R α → (α → CommandPayload) →
    (CommandPayload → Option α) → Block R Command :=
  alternative (·.payload) fun m v => { m with payload := some v }

def command : Message R Command :=
  .ofBlocks ⟨none, none, none⟩
    [scalar 6 (by decide) R.uint32 true (·.id) fun m v => { m with id := some v },
      scalar 10 (by decide) R.uint32 false (·.xid) fun m v => { m with xid := some v },
      commandPayload R 1 (by decide) (set R) .set fun | .set v => some v | _ => none,
      commandPayload R 2 (by decide) (get R) .get fun | .get v => some v | _ => none,
      commandPayload R 3 (by decide) (commit R) .commit fun | .commit v => some v | _ => none,
      commandPayload R 4 (by decide) (drop R) .drop fun | .drop v => some v | _ => none,
      commandPayload R 7 (by decide) (fireHooks R) .firehooks
        fun | .firehooks v => some v | _ => none,
      commandPayload R 8 (by decide) (eraseKey R) .erase fun | .erase v => some v | _ => none,
      commandPayload R 11 (by decide) (rollback R) .rollback
        fun | .rollback v => some v | _ => none,
      commandPayload R 12 (by decide) (reset R) .reset fun | .reset v => some v | _ => none,
      commandPayload R 13 (by decide) (dumpHooks R) .dump fun | .dump v => some v | _ => none,
      commandPayload R 14 (by decide) (triggerHook R) .trigger
        fun | .trigger v => some v | _ => none,
      commandPayload R 15 (by decide) (blame R) .blame fun | .blame v => some v | _ => none,
      commandPayload R 16 (by decide) (inFlight R) .inflight
        fun | .inflight v => some v | _ => none]
    (show [6, 10, 1, 2, 3, 4, 7, 8, 11, 12, 13, 14, 15, 16].Nodup by decide)
    fun ⟨id, xid, payload⟩ => by
      rcases payload with _ | v
      · cases id <;> cases xid <;> rfl
      · cases v <;> cases id <;> cases xid <;> rfl

/-! ### Responses -/

/-- `MappedField`. -/
structure MappedField where
  key : Option String
  value : Option Sysadminctl.ConfigValue
  deriving DecidableEq

def mappedField : Message R MappedField :=
  .ofBlocks ⟨none, none⟩
    [scalar 1 (by decide) R.string true (·.key) fun m v => { m with key := some v },
      message 2 (by decide) (configValue R) false (fun m => m.value.toList)
        fun m v => { m with value := some v }]
    (show [1, 2].Nodup by decide) fun ⟨key, value⟩ => by cases key <;> cases value <;> rfl

def getResponse : Message R (List MappedField) :=
  listOf (message 1 (by decide) (mappedField R) false id fun s a => s ++ [a])
    fun m s => foldl_concat m s

def inFlightResponse : Message R (List MappedField) :=
  listOf (message 1 (by decide) (mappedField R) false id fun s a => s ++ [a])
    fun m s => foldl_concat m s

def commitResponse : Message R (Option UInt32) := oneField R R.uint32 true

def resetResponse : Message R (Option UInt32) := oneField R R.uint32 false

/-- `DumpResponse`. -/
structure DumpResponse where
  templatehooks : List String
  servicehooks : List String
  deriving DecidableEq

def dumpResponse : Message R DumpResponse :=
  .ofBlocks ⟨[], []⟩
    [repeatedScalar 1 (by decide) R.string (R.string.size 1) (R.string.size_eq 1)
        (·.templatehooks) fun m v => { m with templatehooks := v },
      repeatedScalar 2 (by decide) R.string (R.string.size 2) (R.string.size_eq 2)
        (·.servicehooks) fun m v => { m with servicehooks := v }]
    (show [1, 2].Nodup by decide) fun ⟨templatehooks, servicehooks⟩ => by
      have htemplate := foldl_push (·.templatehooks)
        (fun (m : DumpResponse) v => { m with templatehooks := v })
        (fun _ _ => rfl) (fun _ _ _ => rfl) (fun _ => rfl) templatehooks ⟨[], []⟩
      have hservice := foldl_push (·.servicehooks)
        (fun (m : DumpResponse) v => { m with servicehooks := v })
        (fun _ _ => rfl) (fun _ _ _ => rfl) (fun _ => rfl) servicehooks ⟨templatehooks, []⟩
      exact (congrArg (fun m => servicehooks.foldl (fun (m : DumpResponse) v =>
        { m with servicehooks := m.servicehooks ++ [v] }) m) htemplate).trans hservice

/-- `BlameEntry`. -/
structure BlameEntry where
  commitId : Option UInt32
  commitTime : Option String
  val : Option Sysadminctl.ConfigValue
  deriving DecidableEq

def blameEntry : Message R BlameEntry :=
  .ofBlocks ⟨none, none, none⟩
    [scalar 1 (by decide) R.uint32 true (·.commitId) fun m v => { m with commitId := some v },
      scalar 2 (by decide) R.string true (·.commitTime) fun m v => { m with commitTime := some v },
      message 3 (by decide) (configValue R) true (fun m => m.val.toList)
        fun m v => { m with val := some v }]
    (show [1, 2, 3].Nodup by decide) fun ⟨commitId, commitTime, val⟩ => by
      cases commitId <;> cases commitTime <;> cases val <;> rfl

/-- `BlameResponse`. -/
structure BlameResponse where
  key : Option String
  entries : List BlameEntry
  deriving DecidableEq

def blameResponse : Message R BlameResponse :=
  .ofBlocks ⟨none, []⟩
    [scalar 1 (by decide) R.string true (·.key) fun m v => { m with key := some v },
      message 2 (by decide) (blameEntry R) false (·.entries)
        fun m v => { m with entries := m.entries ++ [v] }]
    (show [1, 2].Nodup by decide) fun ⟨key, entries⟩ => by
      have hpush := foldl_push (·.entries) (fun (m : BlameResponse) v => { m with entries := v })
        (fun _ _ => rfl) (fun _ _ _ => rfl) (fun _ => rfl) entries
      cases key
      · exact hpush ⟨none, []⟩
      · exact hpush ⟨some _, []⟩

/-- The number of a status. -/
def statusCodeValue : StatusCode → Int32
  | .success => 0
  | .unknownError => 1
  | .typeMismatch => 2
  | .commandTranslationError => 3
  | .keyNotFound => 4
  | .externalProcessError => 5
  | .invalidKey => 6
  | .failedRollback => 7
  | .lockedQueue => 8
  | .hookNotFound => 9
  | .successKeyCreated => 10
  | .messageSizeError => 11

def statusCodeFromI32 (value : Int32) : Option StatusCode :=
  match value.toInt with
  | 0 => some .success
  | 1 => some .unknownError
  | 2 => some .typeMismatch
  | 3 => some .commandTranslationError
  | 4 => some .keyNotFound
  | 5 => some .externalProcessError
  | 6 => some .invalidKey
  | 7 => some .failedRollback
  | 8 => some .lockedQueue
  | 9 => some .hookNotFound
  | 10 => some .successKeyCreated
  | 11 => some .messageSizeError
  | _ => none

/-- The alternatives of the payload of a response. -/
inductive ResponsePayload
  | get (v : List MappedField)
  | commit (v : Option UInt32)
  | reset (v : Option UInt32)
  | dump (v : DumpResponse)
  | blame (v : BlameResponse)
  | inflight (v : List MappedField)
  deriving DecidableEq

/-- `Response`. -/
structure Response where
  id : Option UInt32
  status : Option StatusCode
  payload : Option ResponsePayload
  deriving DecidableEq

/-- The block of a payload of a response. -/
def responsePayload : (number : ℕ) → TagNumber number → Message R α → (α → ResponsePayload) →
    (ResponsePayload → Option α) → Block R Response :=
  alternative (·.payload) fun m v => { m with payload := some v }

/-- The fields that all responses have. -/
def responseHeader : List (Block R Response) :=
  [scalar 6 (by decide) R.uint32 true (·.id) fun m v => { m with id := some v },
    enum 7 (by decide) statusCodeValue statusCodeFromI32 (fun a => by cases a <;> decide) true
      (·.status) fun m v => { m with status := some v }]

/-- The alternatives of the payload before them in the order of their numbers. -/
def responsePayloads : List (Block R Response) :=
  [responsePayload R 1 (by decide) (getResponse R) .get fun | .get v => some v | _ => none,
    responsePayload R 2 (by decide) (commitResponse R) .commit
      fun | .commit v => some v | _ => none,
    responsePayload R 3 (by decide) (resetResponse R) .reset fun | .reset v => some v | _ => none,
    responsePayload R 4 (by decide) (dumpResponse R) .dump fun | .dump v => some v | _ => none,
    responsePayload R 5 (by decide) (blameResponse R) .blame fun | .blame v => some v | _ => none]

def responseInflight : Block R Response :=
  responsePayload R 8 (by decide) (inFlightResponse R) .inflight
    fun | .inflight v => some v | _ => none

/-- The generated code has what all responses have first. -/
def response : Message R Response :=
  .ofBlocks ⟨none, none, none⟩ (responseHeader R ++ responsePayloads R ++ [responseInflight R])
    (show [6, 7, 1, 2, 3, 4, 5, 8].Nodup by decide) fun ⟨id, status, payload⟩ => by
      rcases payload with _ | v
      · cases id <;> cases status <;> rfl
      · cases v <;> cases id <;> cases status <;> rfl

/-! ## A runtime -/

namespace Runtime

/-- The number of a type of what follows a tag. -/
def wireTypeNumber : WireType → ℕ
  | .varint => 0
  | .fixed64 => 1
  | .lengthDelimited => 2
  | .startGroup => 3
  | .endGroup => 4
  | .fixed32 => 5

def wireTypeOf : ℕ → Option WireType
  | 0 => some .varint
  | 1 => some .fixed64
  | 2 => some .lengthDelimited
  | 3 => some .startGroup
  | 4 => some .endGroup
  | 5 => some .fixed32
  | _ => none

def writeTag (field : ℕ) (wireType : WireType) : List UInt8 :=
  varint (8 * field + wireTypeNumber wireType)

def readTagUnpack : Reader UInt8 (ℕ × WireType) := fun bs => do
  let (n, rest) ← readVarint bs
  let wireType ← wireTypeOf (n % 8)
  if n / 8 = 0 then none else some ((n / 8, wireType), rest)

/-- Reads some bytes behind their number. -/
def readBytes : Reader UInt8 (List UInt8) := fun bs => do
  let (n, rest) ← readVarint bs
  if n ≤ rest.length then some (rest.take n, rest.drop n) else none

theorem wireTypeNumber_lt (wireType : WireType) : wireTypeNumber wireType < 8 := by
  cases wireType <;> decide

theorem readTagUnpack_writeTag {field : ℕ} (wireType : WireType) (t : List UInt8)
    (h : 0 < field) :
    readTagUnpack (writeTag field wireType ++ t) = some ((field, wireType), t) := by
  have hlt := wireTypeNumber_lt wireType
  have hdiv : (8 * field + wireTypeNumber wireType) / 8 = field := by omega
  have hmod : (8 * field + wireTypeNumber wireType) % 8 = wireTypeNumber wireType := by omega
  have hof : wireTypeOf (wireTypeNumber wireType) = some wireType := by cases wireType <;> rfl
  simp only [readTagUnpack, writeTag, readVarint_varint, Option.bind_eq_bind, Option.bind_some,
    hdiv, hmod, hof, if_neg h.ne']

theorem length_writeTag {field : ℕ} (wireType : WireType) (h : field < 2048) :
    (writeTag field wireType).length = if field < 16 then 1 else 2 := by
  have hlt := wireTypeNumber_lt wireType
  rw [writeTag]
  split
  · exact length_varint_of_lt (by omega)
  · exact length_varint_of_ge (by omega) (by omega)

theorem readBytes_append (p t : List UInt8) :
    readBytes (varint p.length ++ p ++ t) = some (p, t) := by
  simp [readBytes, List.append_assoc, readVarint_varint]

/-- A value that is written as a number. -/
def varintScalar (toNat : α → ℕ) (ofNat : ℕ → α) (h : ∀ a, ofNat (toNat a) = a) :
    Scalar writeTag α where
  wireType := .varint
  write a := varint (toNat a)
  read bs := (readVarint bs).map fun x => (ofNat x.1, x.2)
  size field a := .ofNat (writeTag field .varint ++ varint (toNat a)).length
  read_write a t _ := by rw [readVarint_varint, Option.map_some, h]
  size_eq _ _ := rfl

/-- Numbers that are negative are written with 64 bits. -/
theorem ofInt_emod (n : Int32) : Int32.ofInt ((n.toInt % 2 ^ 64).toNat : ℕ) = n := by
  have hlt := Int32.toInt_lt n
  have hle := Int32.le_toInt n
  rw [Int32.ofInt_eq_iff_bmod_eq_toInt, Int.toNat_of_nonneg (Int.emod_nonneg _ (by decide)),
    Int.bmod_def]
  split <;> omega

/-- The runtime, without groups, which no message has. -/
def standard : Runtime where
  tag := writeTag
  readTag := readTagUnpack
  readTag_tag _ wireType t h _ := readTagUnpack_writeTag wireType t h
  length_tag _ wireType _ h := length_writeTag wireType h
  varint32 n := varint n.toNat
  varint32Size n := .ofNat (varint n.toNat).length
  varint32Size_eq _ := rfl
  uint32 := varintScalar UInt32.toNat UInt32.ofNat fun _ => UInt32.ofNat_toNat
  int32 := varintScalar (fun n => (n.toInt % 2 ^ 64).toNat) (fun n => .ofInt n) ofInt_emod
  bool := varintScalar Bool.toNat (fun n => n ≠ 0) fun b => by cases b <;> rfl
  length_bool b := length_varint_of_lt (by cases b <;> decide)
  string :=
    { wireType := .lengthDelimited
      write := fun s => varint s.toByteArray.data.toList.length ++ s.toByteArray.data.toList
      read := fun bs => do
        let (p, rest) ← readBytes bs
        let s ← String.fromUTF8? ⟨p.toArray⟩
        return (s, rest)
      size := fun field s => .ofNat (writeTag field .lengthDelimited ++
        (varint s.toByteArray.data.toList.length ++ s.toByteArray.data.toList)).length
      read_write := fun s t _ => by
        have hutf8 : String.fromUTF8? s.toByteArray = some s := by
          rw [String.fromUTF8?, dif_pos s.isValidUTF8]
          rfl
        simp only [readBytes_append, Option.bind_eq_bind, Option.bind_some,
          Array.toArray_toList, hutf8]
        rfl
      size_eq := fun _ _ => rfl }
  readEnum fromI32 bs := do
    let (n, rest) ← readVarint bs
    let a ← fromI32 (.ofInt n)
    return (a, rest)
  readEnum_write fromI32 n t := by
    simp only [varintScalar, readVarint_varint, Option.bind_eq_bind, Option.bind_some, ofInt_emod]
    cases fromI32 n <;> rfl
  readMessage merge isInitialized bs := do
    let (p, rest) ← readBytes bs
    let m ← (merge p).filter isInitialized
    return (m, rest)
  readMessage_write merge isInitialized p m t hp hm hinit := by
    have hlen : (UInt32.ofNat p.length).toNat = p.length := UInt32.toNat_ofNat_of_lt' hp
    simp only [hlen, readBytes_append, Option.bind_eq_bind, Option.bind_some, hm,
      Option.filter_some, hinit]
    rfl
  readRepeated scalar wireType as bs :=
    if wireType = scalar.wireType then (scalar.read bs).map fun x => (as ++ [x.1], x.2)
    else if wireType = .lengthDelimited then do
      let (p, rest) ← readBytes bs
      let as ← mergeFrom (fun bs => some ((), bs))
        (fun _ as bs => (scalar.read bs).map fun x => (as ++ [x.1], x.2)) as p
      return (as, rest)
    else none
  readRepeated_write scalar as a t h := by
    rw [if_pos rfl, scalar.read_write a t h]
    rfl
  skip _ wireType bs :=
    match wireType with
    | .varint => (readVarint bs).map fun x => ((), x.2)
    | .fixed64 => if 8 ≤ bs.length then some ((), bs.drop 8) else none
    | .lengthDelimited => (readBytes bs).map fun x => ((), x.2)
    | .startGroup | .endGroup => none
    | .fixed32 => if 4 ≤ bs.length then some ((), bs.drop 4) else none

end Runtime

/-! ## Round trips -/

/-- What is initialized can be written, with the size that has been computed for it, and is read as
    it was, unless it takes 4 GiB. -/
def Message.RoundTrips (M : Message R α) : Prop :=
  ∀ m, M.isInitialized m = true → ∃ bytes, M.writeToBytes m = some bytes ∧
    M.computeSize m = .ofNat bytes.length ∧
      (bytes.length < 2 ^ 32 → M.parseFromBytes bytes = some m)

theorem Message.roundTrips (M : Message R α) : M.RoundTrips := by
  intro m hinit
  have hwrite : M.writeToBytes m = some (M.writeToWithCachedSizes m) := if_pos hinit
  exact ⟨_, hwrite, computeSize_of_writeToBytes hwrite, parseFromBytes_of_writeToBytes hwrite⟩

/-- Each command and each response is read as it was written. -/
theorem roundTrips_messages (R : Runtime) : (command R).RoundTrips ∧ (response R).RoundTrips :=
  ⟨(command R).roundTrips, (response R).roundTrips⟩

/-- With what the crate does. -/
theorem roundTrips_messages_standard :
    (command .standard).RoundTrips ∧ (response .standard).RoundTrips :=
  roundTrips_messages .standard

end SysAdmin.RustMessages
