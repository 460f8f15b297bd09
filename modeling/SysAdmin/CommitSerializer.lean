import SysAdmin.HistoryRestart
import SysAdmin.LocalYAMLStorage

/-!
# Commits as text

A commit file holds the text of a commit: a YAML map with the ids, the time and a list of the
deltas, each with its key and the types and values before and after (`yamlSerializer`). Reading
the file takes the text apart again (`yamlDeserializer`).

The emitter and the loader of YAML documents are parameters, as are printing and parsing of
times. Where the document of a commit is loaded as it was emitted and its time is parsed as it
was printed, reading the text gives the commit back (`yamlDeserializer_yamlSerializer`), so that
a storage with these two functions reads its commits back (`readsBack_yaml`). All it takes of
the commit is that both sides of a delta have the same key, that no key is written as the empty
text, and that no value is an empty list of bools, which is written as a null.
-/

namespace SysAdmin

/-! ## Documents -/

/-- A node of a commit file. -/
inductive YamlTree
  | leaf (node : YamlNode)
  | number (n : Nat)
  | list (items : List YamlTree)
  | map (entries : List (String × YamlTree))

namespace YamlTree

mutual

/-- Decides whether two nodes are the same. -/
def decEq : (a b : YamlTree) → Decidable (a = b)
  | leaf n, leaf m => decidable_of_iff (n = m) (by simp)
  | number n, number m => decidable_of_iff (n = m) (by simp)
  | list xs, list ys => @decidable_of_iff _ (xs = ys) (by simp) (decEqItems xs ys)
  | map xs, map ys => @decidable_of_iff _ (xs = ys) (by simp) (decEqEntries xs ys)
  | leaf _, number _ | leaf _, list _ | leaf _, map _ | number _, leaf _ | number _, list _
  | number _, map _ | list _, leaf _ | list _, number _ | list _, map _ | map _, leaf _
  | map _, number _ | map _, list _ => .isFalse (by simp)

def decEqItems : (xs ys : List YamlTree) → Decidable (xs = ys)
  | [], [] => .isTrue rfl
  | x :: xs, y :: ys =>
    @decidable_of_iff _ (x = y ∧ xs = ys) (by simp)
      (@instDecidableAnd _ _ (decEq x y) (decEqItems xs ys))
  | [], _ :: _ | _ :: _, [] => .isFalse (by simp)

def decEqEntries : (xs ys : List (String × YamlTree)) → Decidable (xs = ys)
  | [], [] => .isTrue rfl
  | (k, x) :: xs, (l, y) :: ys =>
    @decidable_of_iff _ ((k = l ∧ x = y) ∧ xs = ys) (by simp)
      (@instDecidableAnd _ _ (@instDecidableAnd _ _ inferInstance (decEq x y))
        (decEqEntries xs ys))
  | [], _ :: _ | _ :: _, [] => .isFalse (by simp)

end

instance : DecidableEq YamlTree := decEq

/-- The node under a key of a map. -/
def get : YamlTree → String → Option YamlTree
  | map entries, key => (entries.find? fun e => e.1 == key).map Prod.snd
  | _, _ => none

/-- What a loop over a node goes through. The entries of a map are no nodes. -/
def elements : YamlTree → List YamlTree
  | leaf (.sequence vs) => vs.map fun v => leaf (.scalar v)
  | leaf _ => []
  | number _ => []
  | list items => items
  | map entries => entries.map fun _ => leaf .null

/-- Reading a node as an id. -/
def asCommitId : YamlTree → Option CommitId
  | number n => some n
  | _ => none

/-- Reading a node as a string. -/
def asString : YamlTree → Option String
  | leaf node => node.asScalar YamlScalar.asString
  | _ => none

/-- The node as a value. No value is read from a map, or from a node that is not there. -/
def valueNode : Option YamlTree → YamlNode
  | some (leaf node) => node
  | _ => .null

/-- A string as a node. -/
def ofString (text : String) : YamlTree := leaf (.scalar (.string text))

/-- The type and the value of a pair as a node. -/
def ofEntry (e : YamlEntry) : YamlTree := map [("type", ofString e.type), ("value", leaf e.value)]

/-- A list starts from a null node, which only becomes a sequence with its first element. -/
def ofList (items : List YamlTree) : YamlTree := if items = [] then leaf .null else list items

@[simp] theorem asString_ofString (text : String) : (ofString text).asString = some text := rfl

@[simp] theorem elements_ofList (items : List YamlTree) : (ofList items).elements = items := by
  rw [ofList]
  split
  · next h => rw [h]; rfl
  · rfl

end YamlTree

/-! ## The serializer -/

/-- Why a text is not parsed as a time. -/
inductive TimeError
  | badLexicalCast
  | other

/-- The node of a delta. -/
def deltaNode (item : ConfigDelta) : YamlTree :=
  .map [("key", .ofString item.1.key.toString), ("old", .ofEntry (unpackIntoYAML item.1)),
    ("current", .ofEntry (unpackIntoYAML item.2))]

/-- The node of a commit. -/
def commitNode (toSimpleString : Option Nat → String) (commit : CommitHistory) : YamlTree :=
  .map [("id", .number commit.id), ("parent-id", .number commit.parent),
    ("time", .ofString (toSimpleString commit.time)),
    ("deltas", .ofList (commit.items.map deltaNode))]

/-- The text of a commit. -/
def yamlSerializer (emit : YamlTree → String) (toSimpleString : Option Nat → String)
    (commit : CommitHistory) : Option String :=
  some (emit (commitNode toSimpleString commit))

/-- The value in the node of one side of a delta. -/
def sideValue (side : YamlTree) : Option ConfigValue := do
  let type ← (← side.get "type").asString
  if type ≠ "NULL" then valueFromYAML type (YamlTree.valueNode (side.get "value")) else some .none

/-- The delta in a node. -/
def deltaOfNode (item : YamlTree) : Option ConfigDelta := do
  let key ← (← item.get "key").asString
  let old ← sideValue (← item.get "old")
  let current ← sideValue (← item.get "current")
  return (⟨.ofString key, old⟩, ⟨.ofString key, current⟩)

/-- The time in a node, which need not be there. Of the exceptions of the parser, only the one
    for a text that is no time is caught. -/
def timeOfNode (timeFromString : String → Except TimeError (Option Nat)) :
    Option YamlTree → Option (Option Nat)
  | none => some none
  | some time => do
    match timeFromString (← time.asString) with
    | .ok t => some t
    | .error .badLexicalCast => some none
    | .error .other => none

/-- The commit in a text, unless reading it throws. -/
def yamlDeserializer (load : String → Option YamlTree)
    (timeFromString : String → Except TimeError (Option Nat)) (buffer : String) :
    Option CommitHistory := do
  let node ← load buffer
  let id ← (← node.get "id").asCommitId
  let parent ← (← node.get "parent-id").asCommitId
  let time ← timeOfNode timeFromString (node.get "time")
  let items ← (((node.get "deltas").map YamlTree.elements).getD []).mapM deltaOfNode
  return { id, parent, time, items }

/-- The storage of the daemon on an empty directory. -/
def LocalHistoryStorage.yaml (storageDir : Path) (emit : YamlTree → String)
    (load : String → Option YamlTree) (toSimpleString : Option Nat → String)
    (timeFromString : String → Except TimeError (Option Nat)) : LocalHistoryStorage where
  storageDir
  serializer := yamlSerializer emit toSimpleString
  deserializer := yamlDeserializer load timeFromString
  files := ∅

/-! ## Reading back -/

/-- Every value is read back but for an empty list of bools. -/
theorem valueRoundTrips_iff {v : ConfigValue} : ValueRoundTrips v ↔ v.value ≠ .boollist [] := by
  obtain ⟨value, empty, hv⟩ := v
  cases empty with
  | true =>
    cases hv rfl
    exact iff_of_true rfl (by simp)
  | false =>
    cases value with
    | int32 _ => exact iff_of_true rfl (by simp)
    | string _ => exact iff_of_true rfl (by simp)
    | bool _ => exact iff_of_true rfl (by simp)
    | int32list vs =>
      have h : (vs.map YamlScalar.int32).mapM YamlScalar.asInt32 = some vs :=
        mapM_map_self fun _ _ => rfl
      refine iff_of_true ?_ (by simp)
      exact congrArg (Option.map _) h
    | stringlist vs =>
      have h : (vs.map YamlScalar.string).mapM YamlScalar.asString = some vs :=
        mapM_map_self fun _ _ => rfl
      refine iff_of_true ?_ (by simp)
      exact congrArg (Option.map _) h
    | boollist vs =>
      cases vs with
      | nil =>
        -- The emitter leaves a null for a list without bools.
        refine iff_of_false (fun h => ?_) (by simp)
        have h : none = some _ := h
        cases h
      | cons b bs =>
        have h : ((b :: bs).map YamlScalar.bool).mapM YamlScalar.asBool = some (b :: bs) :=
          mapM_map_self fun _ _ => rfl
        refine iff_of_true ?_ (by simp)
        exact congrArg (Option.map _) h

/-- An empty list of bools is stored as a null, which is no vector. -/
theorem valueFromYAML_load_emit_emptyBoolList :
    ¬∀ (emit : YamlNode → String) (load : String → Option YamlNode) (v : ConfigValue),
      load (emit (dynamicUnpack v)) = some (dynamicUnpack v) →
        (load (emit (dynamicUnpack v))).bind (valueFromYAML v.typeToString) = some v := by
  intro h
  have hlist := h (fun _ => "~") (fun _ => some .null) (.ofType (.boollist [])) rfl
  revert hlist
  decide

/-- A value that is written as text, loaded as it was emitted and read by the name of its
    type is the value, exactly if it is no empty list of bools. -/
theorem valueFromYAML_load_emit_iff (emit : YamlNode → String) (load : String → Option YamlNode)
    (v : ConfigValue) (hload : load (emit (dynamicUnpack v)) = some (dynamicUnpack v)) :
    (load (emit (dynamicUnpack v))).bind (valueFromYAML v.typeToString) = some v ↔
      v.value ≠ .boollist [] := by
  rw [hload, Option.bind_some]
  exact valueRoundTrips_iff

theorem valueFromYAML_load_emit_iff_boolList :
    (some (YamlNode.sequence [.bool true, .bool false])).bind (valueFromYAML "boollist") =
        some (.ofType (.boollist [true, false])) ↔
      ValueType.boollist [true, false] ≠ .boollist [] :=
  valueFromYAML_load_emit_iff (fun _ => "- true\n- false")
    (fun text => if text = "- true\n- false" then some (.sequence [.bool true, .bool false])
      else none) (.ofType (.boollist [true, false])) (if_pos rfl)

/-- A commit whose record is read back: the sides of each delta have one key, whose text is not
    empty, and no value is an empty list of bools. -/
structure CommitHistory.Serializable (commit : CommitHistory) : Prop where
  key_eq : ∀ d ∈ commit.items, d.2.key = d.1.key
  key_nonempty : ∀ d ∈ commit.items, d.1.key.toString ≠ ""
  old_value : ∀ d ∈ commit.items, d.1.value.value ≠ .boollist []
  new_value : ∀ d ∈ commit.items, d.2.value.value ≠ .boollist []

/-- One side of a delta is read back. -/
theorem sideValue_ofEntry {p : ConfigPair} (h : p.value.value ≠ .boollist []) :
    sideValue (.ofEntry (unpackIntoYAML p)) = some p.value := by
  have hv : ValueRoundTrips p.value := valueRoundTrips_iff.2 h
  have hside : sideValue (.ofEntry (unpackIntoYAML p)) =
      if p.value.typeToString ≠ "NULL" then
        valueFromYAML p.value.typeToString (dynamicUnpack p.value)
      else some .none := rfl
  rw [hside]
  split
  · exact hv
  · next hnull =>
    rw [← hv, not_not.1 hnull]
    rfl

/-- A delta is read back. -/
theorem deltaOfNode_deltaNode {commit : CommitHistory} (h : commit.Serializable) {d : ConfigDelta}
    (hd : d ∈ commit.items) : deltaOfNode (deltaNode d) = some d := by
  have hdelta : deltaOfNode (deltaNode d) = do
      let old ← sideValue (.ofEntry (unpackIntoYAML d.1))
      let current ← sideValue (.ofEntry (unpackIntoYAML d.2))
      return (⟨.ofString d.1.key.toString, old⟩, ⟨.ofString d.1.key.toString, current⟩) := rfl
  rw [hdelta, sideValue_ofEntry (h.old_value d hd), sideValue_ofEntry (h.new_value d hd),
    ConfigKey.ofString_toString (ConfigKey.readable_of_toString_ne (h.key_nonempty d hd))]
  obtain ⟨⟨k, old⟩, ⟨k', current⟩⟩ := d
  obtain rfl : k' = k := h.key_eq _ hd
  rfl

section

variable {emit : YamlTree → String} {load : String → Option YamlTree}
  {toSimpleString : Option Nat → String} {timeFromString : String → Except TimeError (Option Nat)}
  {commit : CommitHistory}

/-- A commit is read from a text that is loaded as its node. -/
theorem yamlDeserializer_commitNode {text : String} (h : commit.Serializable)
    (hload : load text = some (commitNode toSimpleString commit))
    (htime : timeFromString (toSimpleString commit.time) = .ok commit.time) :
    yamlDeserializer load timeFromString text = some commit := by
  have hitems : (commit.items.map deltaNode).mapM deltaOfNode = some commit.items :=
    mapM_map_self fun d hd => deltaOfNode_deltaNode h hd
  have hdes : timeOfNode timeFromString (some (.ofString (toSimpleString commit.time))) =
      some commit.time := by
    simp [timeOfNode, htime]
  have hrun : yamlDeserializer load timeFromString text = do
      let time ← timeOfNode timeFromString (some (.ofString (toSimpleString commit.time)))
      let items ← (YamlTree.ofList (commit.items.map deltaNode)).elements.mapM deltaOfNode
      return { id := commit.id, parent := commit.parent, time, items } := by
    rw [yamlDeserializer, hload]
    rfl
  rw [hrun, hdes, YamlTree.elements_ofList, hitems]
  rfl

/-- Reading the text of a commit gives the commit, if the document is loaded as it was emitted
    and the time parsed as it was printed. -/
theorem yamlDeserializer_yamlSerializer (h : commit.Serializable)
    (hload : load (emit (commitNode toSimpleString commit)) =
      some (commitNode toSimpleString commit))
    (htime : timeFromString (toSimpleString commit.time) = .ok commit.time) :
    (yamlSerializer emit toSimpleString commit).bind (yamlDeserializer load timeFromString) =
      some commit := by
  rw [yamlSerializer, Option.bind_some]
  exact yamlDeserializer_commitNode h hload htime

/-- A commit that adds a key, empties a list and erases a key. -/
def CommitHistory.sample : CommitHistory where
  id := 5
  parent := 4
  items := [(.ofKey (.ofString "a.b"), .ofInt32 "a.b" 7),
    (⟨.ofString "l", .ofType (.stringlist ["x", "y"])⟩, ⟨.ofString "l", .ofType (.stringlist [])⟩),
    (⟨.ofString "c", .ofType (.bool true)⟩, .ofKey (.ofString "c"))]
  time := some 1577836800

/-- The text of the sample. -/
def CommitHistory.sampleText : String := "id: 5
parent-id: 4
time: 2020-Jan-01 00:00:00
deltas:
  - key: a.b
    old:
      type: \"NULL\"
      value: ~
    current:
      type: int32
      value: 7
  - key: l
    old:
      type: stringlist
      value:
        - x
        - y
    current:
      type: stringlist
      value:
        []
  - key: c
    old:
      type: bool
      value: true
    current:
      type: \"NULL\"
      value: ~
"

theorem yamlDeserializer_yamlSerializer_sample :
    (yamlSerializer (fun _ => CommitHistory.sampleText) (fun _ => "2020-Jan-01 00:00:00")
        .sample).bind
      (yamlDeserializer
        (fun text => if text = CommitHistory.sampleText then
          some (commitNode (fun _ => "2020-Jan-01 00:00:00") .sample) else none)
        (fun text => if text = "2020-Jan-01 00:00:00" then .ok (some 1577836800)
          else .error .badLexicalCast)) = some .sample :=
  yamlDeserializer_yamlSerializer ⟨by decide, by decide, by decide, by decide⟩ (if_pos rfl)
    (if_pos rfl)

/-- So a storage with these functions reads the commit back. -/
theorem readsBack_yaml {s : LocalHistoryStorage} {env : Environment} (h : commit.Serializable)
    (hload : load (emit (commitNode toSimpleString commit)) =
      some (commitNode toSimpleString commit))
    (htime : timeFromString (toSimpleString commit.time) = .ok commit.time)
    (hs : s.serializer = yamlSerializer emit toSimpleString ∧
      s.deserializer = yamlDeserializer load timeFromString)
    (hopens : env.historyOpens = true) : s.ReadsBack env commit := by
  refine ⟨hopens, emit (commitNode toSimpleString commit), by rw [hs.1]; rfl, ?_⟩
  rw [hs.2]
  exact yamlDeserializer_commitNode h hload htime

end

/-- A commit that `logCommit` builds is read back, if the keys have a text and neither the items
    nor the database have an empty list of bools. -/
theorem TransactionManager.serializable_newCommit {t : TransactionManager}
    {get : ConfigKey → ConfigPairMap} {env : Environment} {items : ConfigPairList}
    (hget : ∀ k p, unwrapSinglePair (get k) = some p → p.key = k ∧ p.value.value ≠ .boollist [])
    (hkey : ∀ item ∈ items, item.key.toString ≠ "")
    (hvalue : ∀ item ∈ items, item.value.value ≠ .boollist []) :
    (t.newCommit get env items).Serializable := by
  have hold : ∀ item : ConfigPair,
      ((unwrapSinglePair (get item.key)).getD (.ofKey item.key)).key = item.key ∧
      ((unwrapSinglePair (get item.key)).getD (.ofKey item.key)).value.value ≠ .boollist [] := by
    intro item
    cases h : unwrapSinglePair (get item.key) with
    | none => exact ⟨rfl, nofun⟩
    | some p => exact hget _ _ h
  exact {
    key_eq := List.forall_mem_map.2 fun item _ => (hold item).1.symm
    key_nonempty := List.forall_mem_map.2 fun item hitem => by
      rw [(hold item).1]
      exact hkey item hitem
    old_value := List.forall_mem_map.2 fun item _ => (hold item).2
    new_value := List.forall_mem_map.2 fun item hitem => hvalue item hitem }

end SysAdmin
