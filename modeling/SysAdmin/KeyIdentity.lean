import Mathlib.Data.String.Basic
import SysAdmin.Foundation.KeyedMaps
import SysAdmin.Foundation.Slices
import SysAdmin.KeyPaths

/-!
# The identity of keys

Keys are equal if their subkeys are, but they are ordered and hashed by their texts. The key of
a single empty subkey has the text of the key without subkeys, and no text is read as it. It can
only be cut out of another key: `ConfigKey("a.").Last()` is this key.

* `Lawful`: a set of keys with one identity, for texts, comparisons, hashes and maps;
* `lawful_iff`: for which slices of which texts this is so;
* `agreeOn_iff_not_confused`: ordered and hashed maps differ only for these two keys.
-/

namespace SysAdmin

open Machine Slices

namespace ConfigKey

/-! ## Slices -/

/-- The key without its last subkey. -/
def init (k : ConfigKey) : ConfigKey where
  subKeys := if k.subKeys.length > 0 then k.subKeys.dropLast else []
  dotFree s hs := by
    split at hs
    · exact k.dotFree s (List.mem_of_mem_dropLast hs)
    · simp at hs

/-- The key of the last subkey. -/
def last (k : ConfigKey) : ConfigKey where
  subKeys := k.subKeys.getLast?.toList
  dotFree s hs := k.dotFree s (List.mem_of_getLast? (Option.mem_toList.1 hs))

/-- The key written as the first subkey, which is read again. -/
def head (k : ConfigKey) : ConfigKey :=
  match k.subKeys with
  | s :: _ => ofString s
  | [] => ⟨[], by simp⟩

/-- A function from keys to parts of them. -/
inductive KeyOp
  | head
  | cut (c : Cut)
  deriving DecidableEq

/-- The part of a key. -/
def KeyOp.apply (k : ConfigKey) : KeyOp → ConfigKey
  | head => k.head
  | cut .tail => k.tail
  | cut .init => k.init
  | cut .last => k.last

/-- The key that is got from a text by some functions, one after the other. -/
def slice (text : String) (ops : List KeyOp) : ConfigKey := run KeyOp.apply (ofString text) ops

variable {k l : ConfigKey} {text : String} {ops : List KeyOp} {cuts : List Cut}

theorem subKeys_cut (c : Cut) : (KeyOp.apply k (.cut c)).subKeys = c.apply k.subKeys := by
  cases c with
  | tail =>
    rw [KeyOp.apply, tail, Cut.apply]
    split
    · rfl
    · next h => exact (List.eq_nil_of_length_eq_zero (by rw [List.length_tail]; omega)).symm
  | init =>
    rw [KeyOp.apply, init, Cut.apply]
    split
    · rfl
    · next h => exact (List.eq_nil_of_length_eq_zero (by rw [List.length_dropLast]; omega)).symm
  | last => rfl

theorem subKeys_run_cuts :
    (run KeyOp.apply k (cuts.map .cut)).subKeys = cutAll cuts k.subKeys := by
  induction cuts generalizing k with
  | nil => rfl
  | cons c cuts ih => rw [List.map_cons, run_cons, ih, subKeys_cut, cutAll_cons]

theorem empty_notMem_head (k : ConfigKey) : "" ∉ k.head.subKeys := by
  rw [head]
  split
  · next s subKeys hk =>
    have hdot : '.' ∉ s.toList := k.dotFree s (by rw [hk]; exact List.mem_cons_self)
    rcases eq_or_ne s "" with rfl | hs
    · exact List.not_mem_nil
    · rw [subKeys_ofString hs, List.splitOn_eq_singleton hdot]
      simpa using hs.symm
  · exact List.not_mem_nil

/-- The step lemma: no function makes up an empty subkey. -/
theorem empty_notMem_apply {op : KeyOp} (h : "" ∉ k.subKeys) : "" ∉ (op.apply k).subKeys := by
  cases op with
  | head => exact empty_notMem_head k
  | cut c =>
    rw [subKeys_cut]
    exact fun hmem => h (mem_of_mem_apply hmem)

theorem empty_notMem_run (h : "" ∉ k.subKeys) : "" ∉ (run KeyOp.apply k ops).subKeys :=
  (Always.of_step _ (I := fun k : ConfigKey => "" ∉ k.subKeys) (G := fun _ _ => True) h
    (fun _ _ h _ => empty_notMem_apply h) (guarded_of_forall fun _ _ => trivial)).last

/-- Behind a `head`, no subkey is empty. -/
theorem readable_of_head_mem (h : .head ∈ ops) : (run KeyOp.apply k ops).Readable := by
  obtain ⟨before, after, rfl⟩ := List.append_of_mem h
  have hempty : "" ∉ (run KeyOp.apply k (before ++ .head :: after)).subKeys := by
    rw [run_append, run_cons]
    exact empty_notMem_run (empty_notMem_head _)
  intro hk
  rw [hk] at hempty
  exact hempty List.mem_cons_self

theorem exists_cuts (h : .head ∉ ops) : ∃ cuts : List Cut, ops = cuts.map .cut := by
  induction ops with
  | nil => exact ⟨[], rfl⟩
  | cons op ops ih =>
    rw [List.mem_cons, not_or] at h
    obtain ⟨cuts, rfl⟩ := ih h.2
    cases op with
    | head => exact absurd rfl h.1
    | cut c => exact ⟨c :: cuts, rfl⟩

/-- From the parts of a text between its dots, a single one is left, and it is empty. -/
def LeavesEmptyPart (text : String) (ops : List KeyOp) : Prop :=
  text ≠ "" ∧ ∃ cuts : List Cut, ops = cuts.map .cut ∧ Leaves [] cuts (text.toList.splitOn '.')

theorem not_readable_cuts_iff :
    ¬(slice text (cuts.map .cut)).Readable ↔
      text ≠ "" ∧ Leaves [] cuts (text.toList.splitOn '.') := by
  rw [Readable, not_not, slice, subKeys_run_cuts]
  rcases eq_or_ne text "" with rfl | h
  · -- Split at its dots, it would have an empty part, but it is read as no subkeys.
    have hnil : (ofString "").subKeys = [] := rfl
    simp [hnil]
  · have hinj : Function.Injective String.ofList := fun _ _ => String.ofList_injective
    rw [subKeys_ofString h, cutAll_eq_singleton_iff]
    exact (leaves_map_iff hinj).trans (and_iff_right h).symm

/-- The slices that are not read back. -/
theorem not_readable_slice_iff : ¬(slice text ops).Readable ↔ LeavesEmptyPart text ops := by
  constructor
  · intro h
    obtain ⟨cuts, rfl⟩ := exists_cuts fun hhead => h (readable_of_head_mem hhead)
    obtain ⟨htext, hleaves⟩ := not_readable_cuts_iff.1 h
    exact ⟨htext, cuts, rfl, hleaves⟩
  · rintro ⟨htext, cuts, rfl, hleaves⟩
    exact not_readable_cuts_iff.2 ⟨htext, hleaves⟩

/-! ## Comparisons and hashes -/

/-- `==`: the subkeys are the same. -/
def eqOp (lhs rhs : ConfigKey) : Bool := lhs.subKeys == rhs.subKeys

/-- `<`: the order of the texts. -/
def ltOp (lhs rhs : ConfigKey) : Bool := decide (lhs.toString < rhs.toString)

/-- The hash of a key is that of its text. -/
def configKeyHasher (hasher : String → UInt64) (key : ConfigKey) : UInt64 := hasher key.toString

/-- An ordered map takes two keys for one if neither is smaller. -/
def orderedSame (k l : ConfigKey) : Bool := !k.ltOp l && !l.ltOp k

/-- A hashed map takes two keys for one if their hashes and they themselves are equal. -/
def hashedSame (hasher : String → UInt64) (k l : ConfigKey) : Bool :=
  configKeyHasher hasher k == configKeyHasher hasher l && k.eqOp l

/-- The keys have one identity. -/
structure Lawful (hasher : String → UInt64) (K : Set ConfigKey) : Prop where
  reparsed : ∀ k ∈ K, (ofString k.toString).eqOp k
  eq_iff_not_lt : ∀ k ∈ K, ∀ l ∈ K, k.eqOp l ↔ ¬k.ltOp l ∧ ¬l.ltOp k
  eq_iff_toString : ∀ k ∈ K, ∀ l ∈ K, k.eqOp l ↔ k.toString = l.toString
  hash_eq : ∀ k ∈ K, ∀ l ∈ K, k.eqOp l → configKeyHasher hasher k = configKeyHasher hasher l
  maps_agree : KeyedMap.AgreeOn orderedSame (hashedSame hasher) K

variable {hasher : String → UInt64} {K : Set ConfigKey}

theorem eqOp_iff : k.eqOp l ↔ k = l := by
  rw [eqOp, beq_iff_eq, ConfigKey.ext_iff]

theorem not_ltOp_iff : ¬k.ltOp l ∧ ¬l.ltOp k ↔ k.toString = l.toString := by
  rw [ltOp, ltOp, decide_eq_true_iff, decide_eq_true_iff, not_lt, not_lt]
  exact ⟨fun h => le_antisymm h.2 h.1, fun h => ⟨h.ge, h.le⟩⟩

theorem orderedSame_iff : orderedSame k l ↔ k.toString = l.toString := by
  rw [← not_ltOp_iff, orderedSame, Bool.and_eq_true, Bool.not_eq_true', Bool.not_eq_true',
    Bool.not_eq_true, Bool.not_eq_true]

theorem hashedSame_iff : hashedSame hasher k l ↔ k = l := by
  rw [hashedSame, Bool.and_eq_true, eqOp_iff, beq_iff_eq]
  refine and_iff_right_of_imp fun h => ?_
  rw [h]

theorem toString_inj (hk : k.Readable) (hl : l.Readable) : k.toString = l.toString ↔ k = l := by
  refine ⟨fun h => ?_, congrArg toString⟩
  rw [← ofString_toString hk, h, ofString_toString hl]

/-- No text is read as the key of a single empty subkey. -/
theorem readable_of_reparsed (h : ofString k.toString = k) : k.Readable := by
  intro hk
  have hnil : (ofString k.toString).subKeys = [] := by rw [toString, hk]; rfl
  rw [h, hk] at hnil
  exact absurd hnil (List.cons_ne_nil _ _)

/-- Keys have one identity if none of them is the key of a single empty subkey. -/
theorem lawful_iff_readable : Lawful hasher K ↔ ∀ k ∈ K, k.Readable := by
  refine ⟨fun h k hk => readable_of_reparsed (eqOp_iff.1 (h.reparsed k hk)), fun h => ?_⟩
  have hinj (k) (hk : k ∈ K) (l) (hl : l ∈ K) := toString_inj (h k hk) (h l hl)
  exact {
    reparsed := fun k hk => eqOp_iff.2 (ofString_toString (h k hk))
    eq_iff_not_lt := fun k hk l hl => by rw [not_ltOp_iff, hinj k hk l hl, eqOp_iff]
    eq_iff_toString := fun k hk l hl => by rw [hinj k hk l hl, eqOp_iff]
    hash_eq := fun k _ l _ hkl => by rw [eqOp_iff.1 hkl]
    maps_agree := KeyedMap.agreeOn_iff.2 fun k hk l hl => by
      rw [Bool.eq_iff_iff, orderedSame_iff, hashedSame_iff, hinj k hk l hl] }

/-- Two keys with one text: one of them is that of a single empty subkey, the other one has no
    subkeys. -/
def Confused (k l : ConfigKey) : Prop :=
  (k.subKeys = [] ∧ l.subKeys = [""]) ∨ (k.subKeys = [""] ∧ l.subKeys = [])

theorem Confused.ne (h : Confused k l) : k ≠ l := by
  rintro rfl
  rcases h with ⟨hk, hk'⟩ | ⟨hk, hk'⟩
  · rw [hk] at hk'
    exact absurd hk' (List.cons_ne_nil _ _).symm
  · rw [hk] at hk'
    exact absurd hk' (List.cons_ne_nil _ _)

theorem Confused.toString_eq (h : Confused k l) : k.toString = l.toString := by
  rcases h with ⟨hk, hl⟩ | ⟨hk, hl⟩ <;> rw [toString, toString, hk, hl] <;> rfl

theorem subKeys_of_toString_eq_empty (h : k.toString = "") :
    k.subKeys = [] ∨ k.subKeys = [""] := by
  by_cases hk : k.Readable
  · left
    rw [← ofString_toString hk, h]
    rfl
  · exact .inr (not_not.1 hk)

theorem toString_eq_iff : k.toString = l.toString ↔ k = l ∨ Confused k l := by
  refine ⟨fun h => ?_, fun h => h.elim (congrArg toString) Confused.toString_eq⟩
  by_cases hreadable : k.Readable ∧ l.Readable
  · exact .inl ((toString_inj hreadable.1 hreadable.2).1 h)
  · have hempty : k.toString = "" := by
      rcases not_and_or.1 hreadable with hk | hl
      · exact not_imp_comm.1 readable_of_toString_ne hk
      · exact h.trans (not_imp_comm.1 readable_of_toString_ne hl)
    rcases subKeys_of_toString_eq_empty hempty with hk | hk <;>
      rcases subKeys_of_toString_eq_empty (h.symm.trans hempty) with hl | hl
    · exact .inl (ConfigKey.ext (hk.trans hl.symm))
    · exact .inr (.inl ⟨hk, hl⟩)
    · exact .inr (.inr ⟨hk, hl⟩)
    · exact .inl (ConfigKey.ext (hk.trans hl.symm))

/-- Ordered and hashed maps of keys are the same unless two keys with one text come together. -/
theorem agreeOn_iff_not_confused : KeyedMap.AgreeOn orderedSame (hashedSame hasher) K ↔
    ∀ k ∈ K, ∀ l ∈ K, ¬Confused k l := by
  rw [KeyedMap.agreeOn_iff]
  refine forall₄_congr fun k _ l _ => ?_
  rw [Bool.eq_iff_iff, orderedSame_iff, hashedSame_iff, toString_eq_iff, or_iff_left_iff_imp]
  exact ⟨fun h hconfused => hconfused.ne (h hconfused), fun h hconfused => absurd hconfused h⟩

/-! ## Keys got from texts -/

/-- The keys that are got from some text by some functions. -/
def obtainable : Set ConfigKey := {k | ∃ text ops, slice text ops = k}

/-- Slices have one identity if and only if none of them is an empty part that is left alone. -/
theorem lawful_iff (hasher : String → UInt64) (inputs : Set (String × List KeyOp)) :
    Lawful hasher {k | ∃ i ∈ inputs, slice i.1 i.2 = k} ↔
      ∀ i ∈ inputs, ¬LeavesEmptyPart i.1 i.2 := by
  rw [lawful_iff_readable]
  constructor
  · intro h i hi
    rw [← not_readable_slice_iff, not_not]
    exact h _ ⟨i, hi, rfl⟩
  · rintro h _ ⟨i, hi, rfl⟩
    have hleaves := h i hi
    rwa [← not_readable_slice_iff, not_not] at hleaves

/-- The last part of `a.` is not read back. It is neither smaller nor greater than the key
    without subkeys, and not equal to it. -/
theorem not_lawful :
    (¬∃ hasher, Lawful hasher obtainable) ∧
      (¬∃ hasher, KeyedMap.AgreeOn orderedSame (hashedSame hasher) obtainable) ∧
      ¬(ofString (slice "a." [.cut .last]).toString).eqOp (slice "a." [.cut .last]) ∧
      ¬(slice "a." [.cut .last]).eqOp (slice "" []) ∧
      ¬(slice "a." [.cut .last]).ltOp (slice "" []) ∧
      ¬(slice "" []).ltOp (slice "a." [.cut .last]) := by
  have hreparsed :
      ¬(ofString (slice "a." [.cut .last]).toString).eqOp (slice "a." [.cut .last]) := by
    decide
  have hconfused : Confused (slice "" []) (slice "a." [.cut .last]) := .inl ⟨by decide, by decide⟩
  refine ⟨?_, ?_, hreparsed, by decide, by decide, by decide⟩
  · rintro ⟨hasher, h⟩
    exact hreparsed (h.reparsed _ ⟨"a.", [.cut .last], rfl⟩)
  · rintro ⟨hasher, h⟩
    exact agreeOn_iff_not_confused.1 h _ ⟨"", [], rfl⟩ _ ⟨"a.", [.cut .last], rfl⟩ hconfused

end ConfigKey

end SysAdmin
