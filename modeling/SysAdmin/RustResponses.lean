import SysAdmin.HistoryRestart
import SysAdmin.ProtobufProtocol
import SysAdmin.Replies
import SysAdmin.RustMessages

/-!
# Responses to the Rust client

The server has a protobuf library of its own. It is a parameter, like the one of the client, with
what is documented of the encoding: a value that it writes is read as the value by the client's
library (`Runtime.ReadBy`), and the fields of a response that are set stand one after the other,
each behind its tag, in any order (`WritesFields`). The generated code of the client has the fields
in an order of its own. The text of the time of a commit is a parameter, too.

The client reads the size of a response and as many bytes. It fails if the message is not
initialized.

* `readsResponses_of_writesFields`: if the libraries agree on values, then the generated code reads
  what the server writes of a response, with all that is in it;
* `receive_response`: from the frame of a response the client reads this one.
-/

namespace SysAdmin

open Framing Wire SysAdminController

namespace RustMessages

/-! ## Responses as the server has them -/

/-- The field that a key and a value are sent as. -/
def MappedField.of (m : Sysadminctl.MappedField) : MappedField := ⟨some m.key, m.value⟩

section of

variable (timeText : Option ℕ → String)

def BlameEntry.of (m : Sysadminctl.BlameEntry) : BlameEntry :=
  ⟨some m.commitId, some (timeText m.commitTime), some m.val⟩

def ResponsePayload.of : Sysadminctl.ResponsePayload → ResponsePayload
  | .get kvs => .get (kvs.map .of)
  | .commit commitId => .commit (some commitId)
  | .reset commitId => .reset commitId
  | .dump templatehooks servicehooks => .dump ⟨templatehooks, servicehooks⟩
  | .blame key entries => .blame ⟨some key, entries.map (.of timeText)⟩
  | .inflight kvs => .inflight (kvs.map .of)

/-- The message of a response. -/
def Response.of (m : Sysadminctl.Response) : Response :=
  ⟨m.id, m.status, m.payload.map (.of timeText)⟩

end of

section read

variable (timeOf : String → Option ℕ)

/-- What a field says, if its key is set. -/
def MappedField.read (m : MappedField) : Option Sysadminctl.MappedField :=
  m.key.map fun key => ⟨key, m.value⟩

/-- What an entry says, if its fields are set. -/
def BlameEntry.read (m : BlameEntry) : Option Sysadminctl.BlameEntry := do
  return ⟨← m.commitId, timeOf (← m.commitTime), ← m.val⟩

/-- What a payload says, if its required fields are set. -/
def ResponsePayload.read : ResponsePayload → Option Sysadminctl.ResponsePayload
  | .get v => (v.mapM MappedField.read).map .get
  | .commit v => v.map .commit
  | .reset v => some (.reset v)
  | .dump v => some (.dump v.templatehooks v.servicehooks)
  | .blame v => do return .blame (← v.key) (← v.entries.mapM (BlameEntry.read timeOf))
  | .inflight v => (v.mapM MappedField.read).map .inflight

/-- What a response says, if the required fields of its payload are set. -/
def Response.read (m : Response) : Option Sysadminctl.Response :=
  match m.payload with
  | none => some ⟨none, m.id, m.status⟩
  | some payload => (payload.read timeOf).map fun payload => ⟨some payload, m.id, m.status⟩

end read

section

variable {timeText : Option ℕ → String} {timeOf : String → Option ℕ}

theorem mapM_map_of_read {α β : Type} {f : α → β} {g : β → Option α}
    (h : ∀ a, g (f a) = some a) (l : List α) : (l.map f).mapM g = some l := by
  induction l with
  | nil => rfl
  | cons a l ih =>
    rw [List.map_cons, List.mapM_cons, h, ih]
    rfl

theorem ResponsePayload.read_of (htime : ∀ t, timeOf (timeText t) = t)
    (m : Sysadminctl.ResponsePayload) : (of timeText m).read timeOf = some m := by
  have hfields := fun kvs => mapM_map_of_read
    (f := MappedField.of) (g := MappedField.read) (fun _ => rfl) kvs
  have hentries := fun entries => mapM_map_of_read
    (f := BlameEntry.of timeText) (g := BlameEntry.read timeOf)
    (fun entry => by rw [BlameEntry.read, BlameEntry.of]; simp [htime]) entries
  cases m with
  | get kvs | inflight kvs =>
    rw [of, read, hfields]
    rfl
  | commit | reset | dump => rfl
  | blame key entries =>
    rw [of, read, hentries]
    rfl

/-- The message of a response says what the response does. -/
theorem Response.read_of (htime : ∀ t, timeOf (timeText t) = t) (m : Sysadminctl.Response) :
    (of timeText m).read timeOf = some m := by
  rcases m with ⟨_ | payload, id, status⟩
  · rfl
  · rw [of, read]
    dsimp only [Option.map_some]
    rw [ResponsePayload.read_of htime]
    rfl

end

/-! ## Two libraries -/

section libraries

variable {S R : Runtime} {σ α : Type}

/-- The values that one library writes, the other one reads as it does itself. -/
def Scalar.ReadBy {tag tag' : ℕ → WireType → List UInt8} (s : Scalar tag α) (s' : Scalar tag' α) :
    Prop :=
  s.wireType = s'.wireType ∧ s.read = s'.read

/-- What a library writes is read by the other one: the writing half of a runtime is what the one
    writes, and its reading half is that of the other. -/
structure Runtime.ReadBy (S R : Runtime) : Prop where
  readTag : S.readTag = R.readTag
  uint32 : S.uint32.ReadBy R.uint32
  int32 : S.int32.ReadBy R.int32
  bool : S.bool.ReadBy R.bool
  string : S.string.ReadBy R.string
  readEnum : ∀ {ε : Type} (fromI32 : Int32 → Option ε), S.readEnum fromI32 = R.readEnum fromI32
  readMessage : ∀ {σ : Type} (merge : List UInt8 → Option σ) (isInitialized : σ → Bool),
    S.readMessage merge isInitialized = R.readMessage merge isInitialized
  readInt32s : S.readRepeated S.int32 = R.readRepeated R.int32
  readBools : S.readRepeated S.bool = R.readRepeated R.bool
  readStrings : S.readRepeated S.string = R.readRepeated R.string
  skip : S.skip = R.skip

theorem Runtime.ReadBy.refl (R : Runtime) : R.ReadBy R :=
  ⟨rfl, ⟨rfl, rfl⟩, ⟨rfl, rfl⟩, ⟨rfl, rfl⟩, ⟨rfl, rfl⟩, fun _ => rfl, fun _ _ => rfl, rfl, rfl, rfl,
    rfl⟩

/-- What is written of a field is read by the block of the other library. -/
structure Block.ReadBy (b : Block S σ) (b' : Block R σ) : Prop where
  number : b.number = b'.number
  arm : b.arm = b'.arm
  isInitialized : b.isInitialized = b'.isInitialized

/-- What is written of a message is read by the generated code of the other library. -/
structure Message.ReadBy (M : Message S σ) (M' : Message R σ) : Prop where
  new : M.new = M'.new
  mergeField : M.mergeField = M'.mergeField
  isInitialized : M.isInitialized = M'.isInitialized

namespace Block

variable {number : ℕ} {hnumber : TagNumber number} {required : Bool} {M : Message S α}
  {M' : Message R α}

/-- A scalar is read as its wire type and its reader say. -/
theorem readBy_scalar {s : Scalar S.tag α} {s' : Scalar R.tag α} (h : s.ReadBy s')
    {get : σ → Option α} {set : σ → α → σ} :
    (scalar number hnumber s required get set).ReadBy (scalar number hnumber s' required get set) :=
  ⟨rfl, by simp only [scalar, ofField, h.1, h.2], rfl⟩

theorem readBy_bool (h : S.ReadBy R) {hone : number < 16} {get : σ → Option Bool}
    {set : σ → Bool → σ} : (bool (R := S) number hnumber hone get set).ReadBy
      (bool (R := R) number hnumber hone get set) :=
  ⟨rfl, by simp only [bool, ofField, h.bool.1, h.bool.2], rfl⟩

theorem readBy_enum (h : S.ReadBy R) {value : α → Int32} {fromI32 : Int32 → Option α}
    {hvalue : ∀ a, fromI32 (value a) = some a} {get : σ → Option α} {set : σ → α → σ} :
    (enum (R := S) number hnumber value fromI32 hvalue required get set).ReadBy
      (enum (R := R) number hnumber value fromI32 hvalue required get set) :=
  ⟨rfl, by simp only [enum, ofField, h.int32.1, h.readEnum], rfl⟩

theorem readBy_repeatedScalar {s : Scalar S.tag α} {s' : Scalar R.tag α}
    (h : S.readRepeated s = R.readRepeated s') {size size' : α → UInt32}
    {hsize : ∀ a, size a = .ofNat (S.tag number s.wireType ++ s.write a).length}
    {hsize' : ∀ a, size' a = .ofNat (R.tag number s'.wireType ++ s'.write a).length}
    {get : σ → List α} {set : σ → List α → σ} :
    (repeatedScalar number hnumber s size hsize get set).ReadBy
      (repeatedScalar number hnumber s' size' hsize' get set) :=
  ⟨rfl, by simp only [repeatedScalar, ofField, h], rfl⟩

/-- A message within another one is read by its own generated code. -/
theorem readBy_message (h : S.ReadBy R) (hM : M.ReadBy M') {get : σ → List α} {set : σ → α → σ} :
    (message number hnumber M required get set).ReadBy
      (message number hnumber M' required get set) :=
  ⟨rfl, by simp only [message, ofField, h.readTag, h.readMessage, hM.new, hM.mergeField,
    hM.isInitialized], by simp only [message, ofField, hM.isInitialized]⟩

end Block

namespace Message

/-- The generated code of a message consists of that of its fields. -/
theorem readBy_ofBlocks (h : S.ReadBy R) {new : σ} {blocks : List (Block S σ)}
    {blocks' : List (Block R σ)} {hnodup : (blocks.map Block.number).Nodup}
    {hnodup' : (blocks'.map Block.number).Nodup}
    {hcopy : ∀ m, blocks.foldl (fun s b => b.copy m s) new = m}
    {hcopy' : ∀ m, blocks'.foldl (fun s b => b.copy m s) new = m}
    (hblocks : List.Forall₂ Block.ReadBy blocks blocks') :
    (ofBlocks new blocks hnodup hcopy).ReadBy (ofBlocks new blocks' hnodup' hcopy') := by
  refine ⟨rfl, ?_, funext fun m => ?_⟩
  · funext tag s
    change mergeBlocks S blocks tag s = mergeBlocks R blocks' tag s
    rw [mergeBlocks, mergeBlocks]
    clear hnodup hnodup' hcopy hcopy'
    induction hblocks with
    | nil => rw [List.find?_nil, List.find?_nil, h.skip]
    | @cons b b' _ _ hb _ ih =>
      rw [List.find?_cons, List.find?_cons, hb.number]
      cases decide (b'.number = tag.1)
      · exact ih
      · exact congrFun (congrFun hb.arm _) _
  · change (blocks.all fun b => b.isInitialized m) = blocks'.all fun b => b.isInitialized m
    clear hnodup hnodup' hcopy hcopy'
    induction hblocks with
    | nil => rfl
    | cons hb _ ih => rw [List.all_cons, List.all_cons, hb.isInitialized, ih]

theorem readBy_listOf (h : S.ReadBy R) {block : Block S (List α)} {block' : Block R (List α)}
    {hcopy : ∀ m s, block.copy m s = s ++ m} {hcopy' : ∀ m s, block'.copy m s = s ++ m}
    (hblock : block.ReadBy block') : (listOf block hcopy).ReadBy (listOf block' hcopy') := by
  rw [listOf, listOf]
  exact readBy_ofBlocks h (.cons hblock .nil)

theorem readBy_oneField (h : S.ReadBy R) {s : Scalar S.tag α} {s' : Scalar R.tag α}
    (hs : s.ReadBy s') {required : Bool} :
    (oneField S s required).ReadBy (oneField R s' required) := by
  rw [oneField, oneField]
  exact readBy_ofBlocks h (.cons (Block.readBy_scalar hs) .nil)

/-- Messages that are read alike are parsed alike. -/
theorem ReadBy.parseFromBytes_eq {M : Message S σ} {M' : Message R σ} (hM : M.ReadBy M')
    (h : S.ReadBy R) (bs : List UInt8) : M.parseFromBytes bs = M'.parseFromBytes bs := by
  rw [parseFromBytes, parseFromBytes, h.readTag, hM.new, hM.mergeField, hM.isInitialized]

end Message

open Block (readBy_scalar readBy_bool readBy_enum readBy_repeatedScalar readBy_message)
open RustMessages.Message (readBy_ofBlocks readBy_listOf readBy_oneField)

variable (h : S.ReadBy R)

include h

theorem readBy_int32List : (int32List S).ReadBy (int32List R) :=
  readBy_listOf h (readBy_repeatedScalar h.readInt32s)

theorem readBy_boolList : (boolList S).ReadBy (boolList R) :=
  readBy_listOf h (readBy_repeatedScalar h.readBools)

theorem readBy_stringList : (stringList S).ReadBy (stringList R) :=
  readBy_listOf h (readBy_repeatedScalar h.readStrings)

/-- Values, with all types that they may have. -/
theorem readBy_configValue : (configValue S).ReadBy (configValue R) :=
  readBy_ofBlocks h <| .cons (readBy_scalar h.int32) <| .cons (readBy_scalar h.string) <|
    .cons (readBy_bool h) <| .cons (readBy_message h (readBy_int32List h)) <|
    .cons (readBy_message h (readBy_boolList h)) <|
    .cons (readBy_message h (readBy_stringList h)) .nil

theorem readBy_mappedField : (mappedField S).ReadBy (mappedField R) :=
  readBy_ofBlocks h <| .cons (readBy_scalar h.string) <|
    .cons (readBy_message h (readBy_configValue h)) .nil

theorem readBy_getResponse : (getResponse S).ReadBy (getResponse R) :=
  readBy_listOf h (readBy_message h (readBy_mappedField h))

theorem readBy_commitResponse : (commitResponse S).ReadBy (commitResponse R) :=
  readBy_oneField h h.uint32

theorem readBy_resetResponse : (resetResponse S).ReadBy (resetResponse R) :=
  readBy_oneField h h.uint32

theorem readBy_dumpResponse : (dumpResponse S).ReadBy (dumpResponse R) :=
  readBy_ofBlocks h <| .cons (readBy_repeatedScalar h.readStrings) <|
    .cons (readBy_repeatedScalar h.readStrings) .nil

theorem readBy_blameEntry : (blameEntry S).ReadBy (blameEntry R) :=
  readBy_ofBlocks h <| .cons (readBy_scalar h.uint32) <| .cons (readBy_scalar h.string) <|
    .cons (readBy_message h (readBy_configValue h)) .nil

theorem readBy_blameResponse : (blameResponse S).ReadBy (blameResponse R) :=
  readBy_ofBlocks h <| .cons (readBy_scalar h.string) <|
    .cons (readBy_message h (readBy_blameEntry h)) .nil

theorem readBy_inFlightResponse : (inFlightResponse S).ReadBy (inFlightResponse R) :=
  readBy_getResponse h

theorem readBy_responsePayload {number : ℕ} {hnumber : TagNumber number} {M : Message S α}
    {M' : Message R α} (hM : M.ReadBy M') {wrap : α → ResponsePayload}
    {unwrap : ResponsePayload → Option α} :
    (responsePayload S number hnumber M wrap unwrap).ReadBy
      (responsePayload R number hnumber M' wrap unwrap) := by
  rw [responsePayload, responsePayload, Block.alternative, Block.alternative]
  exact readBy_message h hM

/-- If the libraries agree on values, then they do on responses. -/
theorem readBy_response : (response S).ReadBy (response R) :=
  readBy_ofBlocks h <| .cons (readBy_scalar h.uint32) <| .cons (readBy_enum h) <|
    .cons (readBy_responsePayload h (readBy_getResponse h)) <|
    .cons (readBy_responsePayload h (readBy_commitResponse h)) <|
    .cons (readBy_responsePayload h (readBy_resetResponse h)) <|
    .cons (readBy_responsePayload h (readBy_dumpResponse h)) <|
    .cons (readBy_responsePayload h (readBy_blameResponse h)) <|
    .cons (readBy_responsePayload h (readBy_inFlightResponse h)) .nil

omit h

end libraries

/-! ## Any order of the fields -/

/-- The fields of a response. -/
def responseBlocks (R : Runtime) : List (Block R Response) :=
  responseHeader R ++ responsePayloads R ++ [responseInflight R]

/-- The fields of a response that are set stand one after the other, in any order. -/
def WritesFields (S : Runtime) (timeText : Option ℕ → String)
    (serializeToString : Sysadminctl.Response → List UInt8) : Prop :=
  ∀ r : Sysadminctl.Response, r.id.isSome = true → r.status.isSome = true →
    ∃ blocks, (responseBlocks S).Perm blocks ∧
      serializeToString r = blocks.flatMap fun b => b.write (.of timeText r)

section

open Block

variable {R : Runtime} {timeText : Option ℕ → String}

/-- A block of a response copies nothing, or one of its fields. -/
def CopiesField (b : Block R Response) : Prop :=
  ∀ m, b.copy m = id ∨ (b.copy m = fun s => { s with id := m.id }) ∨
    (b.copy m = fun s => { s with status := m.status }) ∨
      b.copy m = fun s => { s with payload := m.payload }

/-- An alternative copies the payload, if it is the one that is set. -/
theorem copiesField_responsePayload {α : Type} {number : ℕ} {hnumber : TagNumber number}
    {M : Message R α} {wrap : α → ResponsePayload} {unwrap : ResponsePayload → Option α}
    (hwrap : ∀ p v, unwrap p = some v → wrap v = p) :
    CopiesField (responsePayload R number hnumber M wrap unwrap) := by
  rintro ⟨id, status, _ | p⟩
  · exact .inl rfl
  · rcases hp : unwrap p with _ | v
    · refine .inl (funext fun s => ?_)
      simp [responsePayload, alternative, message, ofField, hp]
    · refine .inr (.inr (.inr (funext fun s => ?_)))
      simp [responsePayload, alternative, message, ofField, hp, hwrap p v hp]

/-- So each block copies one field at most. -/
theorem copiesField_of_mem_responseBlocks {b : Block R Response} (hb : b ∈ responseBlocks R) :
    CopiesField b := by
  simp only [responseBlocks, responseHeader, responsePayloads, responseInflight, List.mem_append,
    List.mem_cons, List.not_mem_nil, or_false] at hb
  rcases hb with ((rfl | rfl) | rfl | rfl | rfl | rfl | rfl) | rfl
  · rintro ⟨_ | id, status, payload⟩
    · exact .inl rfl
    · exact .inr (.inl rfl)
  · rintro ⟨id, _ | status, payload⟩
    · exact .inl rfl
    · exact .inr (.inr (.inl rfl))
  all_goals
    refine copiesField_responsePayload fun p v hp => ?_
    cases p <;> cases hp
    rfl

/-- Blocks that copy fields of one message can be exchanged. -/
theorem copy_comm {b b' : Block R Response} (hb : CopiesField b) (hb' : CopiesField b')
    (m s : Response) : b'.copy m (b.copy m s) = b.copy m (b'.copy m s) := by
  rcases hb m with h | h | h | h <;> rcases hb' m with h' | h' | h' | h' <;>
    simp only [h, h', id]

theorem isInitialized_mappedField (m : Sysadminctl.MappedField) :
    (mappedField R).isInitialized (.of m) = true := by
  rcases m with ⟨key, _ | value⟩
  · rfl
  · simp [mappedField, MappedField.of, Message.ofBlocks, scalar, message, ofField,
      isInitialized_configValue]

theorem isInitialized_blameEntry (m : Sysadminctl.BlameEntry) :
    (blameEntry R).isInitialized (.of timeText m) = true := by
  simp [blameEntry, BlameEntry.of, Message.ofBlocks, scalar, message, ofField,
    isInitialized_configValue]

/-- The payloads of responses have all that is required of them. -/
theorem isInitialized_response {m : Sysadminctl.Response} (hid : m.id.isSome = true)
    (hstatus : m.status.isSome = true) : (response R).isInitialized (.of timeText m) = true := by
  obtain ⟨payload, id, status⟩ := m
  obtain ⟨id, rfl⟩ := Option.isSome_iff_exists.1 hid
  obtain ⟨status, rfl⟩ := Option.isSome_iff_exists.1 hstatus
  have hfields : ∀ kvs : List Sysadminctl.MappedField,
      (kvs.map MappedField.of).all (mappedField R).isInitialized = true := fun kvs =>
    List.all_eq_true.2 (List.forall_mem_map.2 fun m _ => isInitialized_mappedField m)
  have hentries : ∀ entries : List Sysadminctl.BlameEntry,
      (entries.map (BlameEntry.of timeText)).all (blameEntry R).isInitialized = true :=
    fun entries => List.all_eq_true.2 (List.forall_mem_map.2 fun m _ => isInitialized_blameEntry m)
  rcases payload with _ | payload
  · rfl
  · cases payload with
    | commit commitId => rfl
    | reset commitId => cases commitId <;> rfl
    | get | inflight | dump | blame =>
      simp [response, responsePayloads, responseHeader, responseInflight, responsePayload,
        Response.of, ResponsePayload.of, getResponse, inFlightResponse, dumpResponse,
        blameResponse, commitResponse, resetResponse, listOf, oneField, Message.ofBlocks, scalar,
        Block.enum, message, alternative, repeatedScalar, ofField, hfields, hentries]

/-- The fields of a response are read in whatever order another library has written them. -/
theorem parseFromBytes_of_writesFields {S : Runtime} (h : S.ReadBy R)
    {serializeToString : Sysadminctl.Response → List UInt8}
    (hwrites : WritesFields S timeText serializeToString) {m : Sysadminctl.Response}
    (hid : m.id.isSome = true) (hstatus : m.status.isSome = true)
    (hlen : (serializeToString m).length < 2 ^ 32) :
    (response R).parseFromBytes (serializeToString m) = some (.of timeText m) := by
  obtain ⟨blocks, hperm, hbytes⟩ := hwrites m hid hstatus
  rw [← (readBy_response h).parseFromBytes_eq h]
  rw [hbytes] at hlen ⊢
  exact Message.parseFromBytes_of_perm hperm
    (fun m b hb b' hb' s => copy_comm (copiesField_of_mem_responseBlocks hb)
      (copiesField_of_mem_responseBlocks hb') m s) (isInitialized_response hid hstatus) hlen

end

/-- The fields in the order of their numbers. -/
def serializeByNumber (S : Runtime) (timeText : Option ℕ → String) (r : Sysadminctl.Response) :
    List UInt8 :=
  (responsePayloads S ++ responseHeader S ++ [responseInflight S]).flatMap fun b =>
    b.write (.of timeText r)

/-- One order is that of the numbers. -/
theorem writesFields_serializeByNumber (S : Runtime) (timeText : Option ℕ → String) :
    WritesFields S timeText (serializeByNumber S timeText) := fun _ _ _ =>
  ⟨_, List.perm_append_comm.append_right _, rfl⟩

/-! ## Texts of times -/

/-- A text of the time of a commit. -/
def timeText : Option ℕ → String
  | none => "not-a-date-time"
  | some n => toString n

def ofTimeText (text : String) : Option ℕ := lexicalCast text.toList

/-- The text of a time is read as this time. -/
theorem ofTimeText_timeText (t : Option ℕ) : ofTimeText (timeText t) = t := by
  cases t with
  | none => decide
  | some n =>
    rw [ofTimeText, timeText, lexicalCast, if_pos
      ⟨toString_ne_nil, List.all_eq_true.2 fun c hc => isDigit_of_mem_toString hc⟩,
      Nat.toString_eq_repr, Nat.toList_repr, Nat.ofDigitChars_ten_toDigits]

/-- An error can always be sent. -/
theorem length_serializeByNumber_statusResponse (id : UInt32) :
    (serializeByNumber .standard timeText (statusResponse id
      .messageSizeError)).length ≤ UInt32.size - 1 := by
  have hlen : (varint id.toNat).length ≤ 4 + 1 := length_varint_le (id.toNat_lt.trans (by decide))
  have htag : (Runtime.writeTag 6 .varint).length = 1 := Runtime.length_writeTag _ (by decide)
  have hstatus : (Runtime.writeTag 7 .varint ++ varint 11).length = 2 := by decide +kernel
  have hbytes : serializeByNumber .standard timeText
      (statusResponse id .messageSizeError) =
        (Runtime.writeTag 6 .varint ++ varint id.toNat ++ []) ++
          (Runtime.writeTag 7 .varint ++ varint 11 ++ [] ++ []) := rfl
  rw [hbytes, List.append_nil, List.append_nil, List.append_nil, List.length_append,
    List.length_append, htag, hstatus]
  have huint : UInt32.size = 2 ^ 32 := rfl
  omega

end RustMessages

namespace RustClient.SysadminClient

/-! ## Reading responses -/

variable (R : RustMessages.Runtime) (timeOf : String → Option ℕ)

/-- `read_raw_little_endian32`. -/
def readRawLittleEndian32 : Wire.Reader UInt8 ℕ := fun bs =>
  if 4 ≤ bs.length then
    some ((LengthType.uint32 true).memory.decode (bs.take 4), bs.drop 4)
  else none

/-- `read_raw_bytes`. -/
def readRawBytes (count : ℕ) : Wire.Reader UInt8 (List UInt8) := fun bs =>
  if count ≤ bs.length then some (bs.take count, bs.drop count) else none

/-- The end of `send`, which reads a response, or `none` where it fails. What follows may be in the
    buffer of the stream, which is dropped. -/
def receive (bs : List UInt8) : Option Sysadminctl.Response := do
  let (respSize, bs) ← readRawLittleEndian32 bs
  let (responseBytes, _) ← readRawBytes respSize bs
  let resp ← (RustMessages.response R).parseFromBytes responseBytes
  resp.read timeOf

/-- The generated code of the client reads what the protobuf library of the server writes, if the
    required fields are set. -/
def ReadsResponses (serializeToString : Sysadminctl.Response → List UInt8) : Prop :=
  ∀ r : Sysadminctl.Response, r.id.isSome = true → r.status.isSome = true →
    (serializeToString r).length < 2 ^ 32 →
      ∃ m, (RustMessages.response R).parseFromBytes (serializeToString r) = some m ∧
        m.read timeOf = some r

variable {R timeOf} {serializeToString : Sysadminctl.Response → List UInt8}

/-- What is framed is read by its size, and what follows is left. -/
theorem receive_frame {p : List UInt8} {m : RustMessages.Response} {r : Sysadminctl.Response}
    (hlen : p.length < 2 ^ 32) (hparse : (RustMessages.response R).parseFromBytes p = some m)
    (hread : m.read timeOf = some r) (t : List UInt8) :
    receive R timeOf ((LengthType.uint32 true).memory.frame p ++ t) = some r := by
  have hencode : ((LengthType.uint32 true).memory.encode p.length).length = 4 :=
    LengthType.length_encode
  have hdecode : (LengthType.uint32 true).memory.decode
      ((LengthType.uint32 true).memory.encode p.length) = p.length :=
    LengthField.decode_encode _ _ hlen
  have hsize : readRawLittleEndian32 ((LengthType.uint32 true).memory.frame p ++ t) =
      some (p.length, p ++ t) := by
    rw [readRawLittleEndian32, LengthField.frame, List.append_assoc,
      if_pos (by rw [List.length_append]; omega), List.take_left' hencode, List.drop_left' hencode,
      hdecode]
  have hbytes : readRawBytes p.length (p ++ t) = some (p, t) := by
    rw [readRawBytes, if_pos (by rw [List.length_append]; omega), List.take_left, List.drop_left]
  simp only [receive, hsize, hbytes, hparse, hread, Option.bind_eq_bind, Option.bind_some]

/-- If the libraries agree on values, then the client's reads the responses that the server's has
    written. -/
theorem readsResponses_of_writesFields {S : RustMessages.Runtime} (h : S.ReadBy R)
    {timeText : Option ℕ → String} (htime : ∀ t, timeOf (timeText t) = t)
    (hwrites : RustMessages.WritesFields S timeText serializeToString) :
    ReadsResponses R timeOf serializeToString := fun r hid hstatus hlen =>
  ⟨_, RustMessages.parseFromBytes_of_writesFields h hwrites hid hstatus hlen,
    RustMessages.Response.read_of htime r⟩

/-- Whatever response the server sends, the client reads this one. -/
theorem receive_response {S : RustMessages.Runtime} (h : S.ReadBy R)
    {timeText : Option ℕ → String} (htime : ∀ t, timeOf (timeText t) = t)
    (hwrites : RustMessages.WritesFields S timeText serializeToString) {r : Sysadminctl.Response}
    (hid : r.id.isSome = true) (hstatus : r.status.isSome = true)
    (hlen : (serializeToString r).length < 2 ^ 32) (t : List UInt8) :
    receive R timeOf ((LengthType.uint32 true).memory.frame (serializeToString r) ++ t) =
      some r := by
  obtain ⟨m, hparse, hm⟩ := readsResponses_of_writesFields h htime hwrites r hid hstatus hlen
  exact receive_frame hlen hparse hm t

/-- The response to `blame`. -/
def blamed : Sysadminctl.Response :=
  ⟨some (.blame "a" [⟨3, some 50, ⟨some (.int32val 1)⟩⟩, ⟨4, none, ⟨some (.stringlist ["b"])⟩⟩]),
    some 7, some .success⟩

theorem receive_response_blamed :
    receive .standard RustMessages.ofTimeText ((LengthType.uint32 true).memory.frame
      (RustMessages.serializeByNumber .standard RustMessages.timeText blamed) ++ [4, 0]) =
        some blamed :=
  receive_response (.refl _) RustMessages.ofTimeText_timeText
    (RustMessages.writesFields_serializeByNumber _ _) rfl rfl (by decide +kernel) [4, 0]

end RustClient.SysadminClient

end SysAdmin
