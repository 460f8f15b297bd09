import Mathlib.Data.List.AList

/-!
# Keys, values and pairs

The types every layer of the daemon exchanges (`ConfigTypes`).

* A `ConfigValue` is one of six typed values or *Empty*, which stands for an
  erased value and is stored as the int32 `0` with a flag. The two comparisons
  of the code, `operator==` (`ConfigValue.eqOp`) and `typeCheck`, look at the
  stored variant.
* A `ConfigKey` is a list of subkeys, written with dots between them. No subkey
  contains a dot, since keys are only ever made by splitting strings at dots.
* A `ConfigPairMap` maps keys to pairs, each pair under its own key.

Keys with a subkey `*` are patterns (`isWildcard`), and `subkeyMatches` tells
which keys a pattern stands for. A key is `Plain` if it is neither empty nor a
pattern: such are the keys the clients write. For them, the namespaces `last.*`
and `default.*` are what their names say (`Plain.inLast_iff`, `Plain.inDefault_iff`).
-/

namespace SysAdmin

/-! ## Values -/

/-- The variants of a configuration value. -/
inductive ValueType
  | int32 (v : Int32)
  | string (v : String)
  | bool (v : Bool)
  | int32list (v : List Int32)
  | stringlist (v : List String)
  | boollist (v : List Bool)
  deriving DecidableEq

/-- The index of the variant, as `boost::variant` numbers it. -/
def ValueType.which : ValueType → Nat
  | int32 _ => 0
  | string _ => 1
  | bool _ => 2
  | int32list _ => 3
  | stringlist _ => 4
  | boollist _ => 5

/-- A configuration value: a variant, or Empty, which holds the int32 `0`. -/
structure ConfigValue where
  value : ValueType
  empty : Bool
  value_of_empty : empty = true → value = .int32 0
  deriving DecidableEq

namespace ConfigValue

/-- A typed value. -/
def ofType (value : ValueType) : ConfigValue := ⟨value, false, by simp⟩

/-- The Empty value. -/
def none : ConfigValue := ⟨.int32 0, true, fun _ => rfl⟩

/-- The names of the types, as they are written to the files. -/
def typeToString (v : ConfigValue) : String :=
  if v.empty then "NULL"
  else match v.value.which with
    | 0 => "int32"
    | 1 => "string"
    | 2 => "bool"
    | 3 => "int32list"
    | 4 => "stringlist"
    | 5 => "boollist"
    | _ => "unknown type"

/-- Two values have the same type if they hold the same variant. -/
def typeCheck (v comp : ConfigValue) : Bool := v.value.which == comp.value.which

/-- The `operator==` of the code: it compares the variants, unless both values
    are Empty. -/
def eqOp (lhs rhs : ConfigValue) : Bool :=
  if lhs.empty && rhs.empty then true else lhs.value == rhs.value

/-- A value as the content of a store: Empty is no content. -/
def toOption (v : ConfigValue) : Option ConfigValue := if v.empty then .none else some v

@[simp] theorem empty_ofType (t : ValueType) : (ofType t).empty = false := rfl

@[simp] theorem empty_none : none.empty = true := rfl

theorem eq_none_of_empty {v : ConfigValue} (h : v.empty = true) : v = none := by
  obtain ⟨value, empty, hv⟩ := v
  subst h
  cases hv rfl
  rfl

theorem toOption_of_empty {v : ConfigValue} (h : v.empty = true) : v.toOption = .none := by
  simp [toOption, h]

theorem toOption_of_not_empty {v : ConfigValue} (h : v.empty = false) : v.toOption = some v := by
  simp [toOption, h]

theorem toOption_eq_some {v w : ConfigValue} (h : v.toOption = some w) :
    v = w ∧ w.empty = false := by
  rw [toOption] at h
  split at h
  · cases h
  · next hv => cases h; exact ⟨rfl, by simpa using hv⟩

/-- A value is known from its content, as there is one Empty value. -/
theorem toOption_inj {v w : ConfigValue} (h : v.toOption = w.toOption) : v = w := by
  rw [toOption, toOption] at h
  split at h
  · next hv =>
    split at h
    · next hw => rw [eq_none_of_empty hv, eq_none_of_empty hw]
    · cases h
  · split at h
    · cases h
    · exact Option.some.inj h

/-- Comparing typed values is comparing them; an Empty one is taken for the
    int32 `0` it holds. -/
theorem eqOp_iff_of_not_empty {v w : ConfigValue} (hv : v.empty = false) :
    v.eqOp w = true ↔ v = w ∨ (w.empty = true ∧ v = ofType (.int32 0)) := by
  obtain ⟨value, empty, hve⟩ := v
  obtain ⟨value', empty', hwe⟩ := w
  obtain rfl : empty = false := hv
  cases empty' with
  | false => simp [eqOp, ofType]
  | true =>
    cases hwe rfl
    simp [eqOp, ofType]

end ConfigValue

/-! ## Keys -/

/-- A key: its subkeys, none of which contains the delimiter. -/
structure ConfigKey where
  subKeys : List String
  dotFree : ∀ s ∈ subKeys, '.' ∉ s.toList
  deriving DecidableEq

namespace ConfigKey

@[ext] theorem ext {k k' : ConfigKey} (h : k.subKeys = k'.subKeys) : k = k' := by
  cases k; cases k'; congr

/-- The pieces of a split do not contain the delimiter. -/
theorem not_mem_of_mem_splitOn (c : Char) (cs : List Char) :
    ∀ l ∈ cs.splitOn c, c ∉ l := by
  induction cs with
  | nil => simp
  | cons x xs ih =>
    rw [List.splitOn_cons_eq_if_modifyHead]
    split
    · simpa using ih
    · next hx =>
      obtain ⟨l, ls, hl⟩ := List.exists_cons_of_ne_nil (List.splitOn_ne_nil c xs)
      rw [hl] at ih ⊢
      have hc : c ≠ x := fun h => hx (by simp [h])
      simp only [List.modifyHead_cons, List.mem_cons] at ih ⊢
      rintro l' (rfl | hl')
      · simpa [hc] using ih l (.inl rfl)
      · exact ih l' (.inr hl')

/-- The key written `key`: split at its dots, empty if there is nothing to split. -/
def ofString (key : String) : ConfigKey where
  subKeys := if key.length > 0 then (key.toList.splitOn '.').map String.ofList else []
  dotFree s hs := by
    split at hs
    · obtain ⟨l, hl, rfl⟩ := List.mem_map.1 hs
      simpa using not_mem_of_mem_splitOn '.' _ l hl
    · simp at hs

/-- The subkeys with dots between them. -/
def toString (k : ConfigKey) : String := ".".intercalate k.subKeys

/-- The key without its first subkey. -/
def tail (k : ConfigKey) : ConfigKey where
  subKeys := if k.subKeys.length > 1 then k.subKeys.tail else []
  dotFree s hs := by
    split at hs
    · exact k.dotFree s (List.mem_of_mem_tail hs)
    · simp at hs

/-- The loop of `subkeyMatches`: side by side, the subkeys are equal or one is `*`. -/
def subkeysAgree : List String → List String → Bool
  | m :: me, t :: them => (m == t || (m == "*" || t == "*")) && subkeysAgree me them
  | _, _ => true

/-- Whether a key falls under a pattern. A key which ends before the pattern does
    not, unless it ends in `*`. -/
def subkeyMatches (k key : ConfigKey) : Bool :=
  subkeysAgree k.subKeys key.subKeys &&
    !(decide (k.subKeys.length < key.subKeys.length) && k.subKeys.getLast? != some "*")

/-- A pattern: some subkey is `*`. -/
def isWildcard (k : ConfigKey) : Bool := k.subKeys.contains "*"

/-! ### Namespaces -/

/-- The keys of `last.*`, which keep the values from before the last commit. -/
def inLast (k : ConfigKey) : Bool := k.subkeyMatches (ofString "last.*")

/-- The keys of `default.*`, which a reset goes back to. -/
def inDefault (k : ConfigKey) : Bool := k.subkeyMatches (ofString "default.*")

/-- The key of `last.*` that keeps the former value of `k`. -/
def lastKey (k : ConfigKey) : ConfigKey := ofString ("last." ++ k.toString)

/-- A key that names one entry: neither the empty key nor a pattern. -/
structure Plain (k : ConfigKey) : Prop where
  nonempty : k.subKeys ≠ []
  not_wildcard : k.isWildcard = false

/-- A key that is read back from its own text: all but the key of one empty subkey. -/
def Readable (k : ConfigKey) : Prop := k.subKeys ≠ [""]

instance (k : ConfigKey) : Decidable k.Plain :=
  decidable_of_iff (k.subKeys ≠ [] ∧ k.isWildcard = false)
    ⟨fun h => ⟨h.1, h.2⟩, fun h => ⟨h.nonempty, h.not_wildcard⟩⟩

theorem readable_of_toString_ne {k : ConfigKey} (h : k.toString ≠ "") : k.Readable := by
  intro hk
  exact h (by rw [toString, hk]; rfl)

theorem toList_toString (k : ConfigKey) :
    k.toString.toList = ['.'].intercalate (k.subKeys.map String.toList) := by
  rw [toString, String.toList_intercalate]
  rfl

theorem splitOn_toString {k : ConfigKey} (hk : k.subKeys ≠ []) :
    (k.toString.toList.splitOn '.').map String.ofList = k.subKeys := by
  rw [toList_toString, List.splitOn_intercalate]
  · simp
  · intro l hl
    obtain ⟨s, hs, rfl⟩ := List.mem_map.1 hl
    exact k.dotFree s hs
  · simpa using hk

/-- Writing a key and reading it back gives the key. -/
theorem ofString_toString {k : ConfigKey} (hk : k.Readable) : ofString k.toString = k := by
  ext1
  by_cases h₀ : k.subKeys = []
  · simp [ofString, toString, h₀]
  · have hne : k.toString.length > 0 := by
      by_contra hlen
      have hnil : k.toString.toList = [] := by
        rw [← String.length_toList] at hlen
        exact List.length_eq_zero_iff.1 (by omega)
      have := splitOn_toString h₀
      rw [hnil] at this
      exact hk (by simpa using this.symm)
    simp only [ofString, hne, if_true]
    exact splitOn_toString h₀

/-- The key of `last.*` for `k` is `k` under the subkey `last`. -/
theorem subKeys_lastKey {k : ConfigKey} (hk : k.subKeys ≠ []) :
    k.lastKey.subKeys = "last" :: k.subKeys := by
  have hlast : ("last." ++ k.toString).toList = "last".toList ++ '.' :: k.toString.toList := by
    rw [String.toList_append]
    rfl
  have hlen : ("last." ++ k.toString).length > 0 := by
    rw [String.length_append]
    have : "last.".length = 5 := rfl
    omega
  simp only [lastKey, ofString, hlen, if_true]
  rw [hlast, List.splitOn_append_cons_self_of_not_mem (by decide), List.map_cons,
    splitOn_toString hk]
  simp

/-! ### Patterns -/

section patterns

variable {pattern key : ConfigKey}

/-- The key has at least as many subkeys as the pattern, and the same ones where the pattern
    has no `*`. -/
def Covers (pattern key : ConfigKey) : Prop :=
  pattern.subKeys.length ≤ key.subKeys.length ∧
    ∀ (i : Nat) s, pattern.subKeys[i]? = some s → s ≠ "*" → key.subKeys[i]? = some s

/-- Wherever both have subkeys, these are equal or one is `*`; and the key ends before the
    pattern does only with `*`. -/
def Meets (pattern key : ConfigKey) : Prop :=
  (pattern.subKeys.length ≤ key.subKeys.length ∨ key.subKeys.getLast? = some "*") ∧
    ∀ (i : Nat) s t, pattern.subKeys[i]? = some s → key.subKeys[i]? = some t →
      t = s ∨ s = "*" ∨ t = "*"

theorem subkeysAgree_iff {me them : List String} : subkeysAgree me them = true ↔
    ∀ (i : Nat) t m, them[i]? = some t → me[i]? = some m → m = t ∨ t = "*" ∨ m = "*" := by
  induction me generalizing them with
  | nil => simp [subkeysAgree]
  | cons m me ih =>
    cases them with
    | nil => simp [subkeysAgree]
    | cons t them =>
      have hall : (∀ (i : Nat) t' m', (t :: them)[i]? = some t' → (m :: me)[i]? = some m' →
          m' = t' ∨ t' = "*" ∨ m' = "*") ↔ (m = t ∨ t = "*" ∨ m = "*") ∧
            ∀ (i : Nat) t m, them[i]? = some t → me[i]? = some m → m = t ∨ t = "*" ∨ m = "*" := by
        rw [← Nat.and_forall_add_one]
        simp
      rw [subkeysAgree, Bool.and_eq_true, ih, hall]
      simp [or_comm (a := m = "*")]

theorem subkeyMatches_iff_meets : key.subkeyMatches pattern = true ↔ pattern.Meets key := by
  rw [subkeyMatches, Bool.and_eq_true, subkeysAgree_iff, Meets, and_comm]
  simp [imp_iff_not_or]

/-- Without a `*` in the key, it makes no difference which of the two is the pattern. -/
theorem meets_iff_covers (hkey : key.isWildcard = false) :
    pattern.Meets key ↔ pattern.Covers key := by
  have hstar : "*" ∉ key.subKeys := by simpa [isWildcard] using hkey
  have hlast : key.subKeys.getLast? ≠ some "*" := fun h => hstar (List.mem_of_getLast? h)
  rw [Meets, Covers, or_iff_left hlast]
  refine and_congr_right fun hlen => ⟨fun h i s hs hne => ?_, fun h i s t hs ht => ?_⟩
  · obtain ⟨hi, _⟩ := List.getElem?_eq_some_iff.1 hs
    have ht := List.getElem?_eq_getElem (Nat.lt_of_lt_of_le hi hlen)
    rcases h i s _ hs ht with heq | heq | heq
    · rw [ht, heq]
    · exact absurd heq hne
    · exact absurd (List.mem_of_getElem? (ht.trans (congrArg some heq))) hstar
  · by_cases hs' : s = "*"
    · exact .inr (.inl hs')
    · exact .inl (Option.some.inj (ht.symm.trans (h i s hs hs')))

/-- For keys without wildcards, falling under a pattern is what one expects. -/
theorem subkeyMatches_iff_covers (hkey : key.isWildcard = false) :
    key.subkeyMatches pattern = true ↔ pattern.Covers key :=
  subkeyMatches_iff_meets.trans (meets_iff_covers hkey)

end patterns

/-- A plain key falls under `n.*` if it has the first subkey `n` and another one. -/
theorem Plain.subkeyMatches_iff {k p : ConfigKey} (hk : k.Plain) {n : String} (hn : n ≠ "*")
    (hp : p.subKeys = [n, "*"]) :
    k.subkeyMatches p = true ↔ ∃ s ss, k.subKeys = n :: s :: ss := by
  have hstar : "*" ∉ k.subKeys := by simpa [isWildcard] using hk.not_wildcard
  rw [subkeyMatches, hp]
  match hks : k.subKeys with
  | [] => exact absurd hks hk.nonempty
  | [s] =>
    have : s ≠ "*" := fun h => hstar (by simp [hks, h])
    simp [subkeysAgree, this]
  | s :: t :: ss =>
    have hs : s ≠ "*" := fun h => hstar (by simp [hks, h])
    simp [subkeysAgree, hs, hn]

theorem Plain.inLast_iff {k : ConfigKey} (hk : k.Plain) :
    k.inLast = true ↔ ∃ s ss, k.subKeys = "last" :: s :: ss :=
  hk.subkeyMatches_iff (by decide) (by decide)

theorem Plain.inDefault_iff {k : ConfigKey} (hk : k.Plain) :
    k.inDefault = true ↔ ∃ s ss, k.subKeys = "default" :: s :: ss :=
  hk.subkeyMatches_iff (by decide) (by decide)

/-- Every key with subkeys falls under `*`. -/
theorem subkeyMatches_all {k : ConfigKey} (hk : k.subKeys ≠ []) :
    k.subkeyMatches (ofString "*") = true := by
  have hstar : (ofString "*").subKeys = ["*"] := by decide
  obtain ⟨s, ss, hks⟩ := List.exists_cons_of_ne_nil hk
  rw [subkeyMatches, hstar, hks]
  simp [subkeysAgree]

theorem Plain.lastKey {k : ConfigKey} (hk : k.Plain) : k.lastKey.Plain where
  nonempty := by simp [subKeys_lastKey hk.nonempty]
  not_wildcard := by
    have hstar : "*" ∉ k.subKeys := by simpa [isWildcard] using hk.not_wildcard
    simp [isWildcard, subKeys_lastKey hk.nonempty, hstar]

theorem inLast_lastKey {k : ConfigKey} (hk : k.subKeys ≠ []) : k.lastKey.inLast = true := by
  have hpattern : (ofString "last.*").subKeys = ["last", "*"] := by decide
  obtain ⟨s, ss, hs⟩ := List.exists_cons_of_ne_nil hk
  rw [inLast, subkeyMatches, subKeys_lastKey hk, hpattern, hs]
  simp [subkeysAgree]

end ConfigKey

/-! ## Pairs and maps of pairs -/

/-- A key with its value. -/
structure ConfigPair where
  key : ConfigKey
  value : ConfigValue
  deriving DecidableEq

/-- The pair that erases a key. -/
def ConfigPair.ofKey (key : ConfigKey) : ConfigPair := ⟨key, .none⟩

/-- The pair of an int32. -/
def ConfigPair.ofInt32 (key : String) (v : Int32) : ConfigPair :=
  ⟨.ofString key, .ofType (.int32 v)⟩

/-- A pair as a write to a store. -/
def ConfigPair.toWrite (p : ConfigPair) : ConfigKey × Option ConfigValue :=
  (p.key, p.value.toOption)

/-- A list of pairs. -/
abbrev ConfigPairList := List ConfigPair

/-- The writes of a list of pairs. -/
def ConfigPairList.writes (items : ConfigPairList) : List (ConfigKey × Option ConfigValue) :=
  items.map ConfigPair.toWrite

/-- An unordered map from keys to pairs, each under its own key. -/
structure ConfigPairMap where
  entries : AList fun _ : ConfigKey => ConfigPair
  key_eq : ∀ k p, entries.lookup k = some p → p.key = k

namespace ConfigPairMap

/-- The map without entries. -/
def empty : ConfigPairMap := ⟨∅, by simp⟩

/-- The pair of a key. -/
def find? (m : ConfigPairMap) (k : ConfigKey) : Option ConfigPair := m.entries.lookup k

/-- Whether the key has a pair. -/
def count (m : ConfigPairMap) (k : ConfigKey) : Bool := (m.find? k).isSome

/-- Adds a pair, unless its key has one already. -/
def emplace (m : ConfigPairMap) (p : ConfigPair) : ConfigPairMap where
  entries := if m.count p.key then m.entries else m.entries.insert p.key p
  key_eq k q h := by
    split at h
    · exact m.key_eq k q h
    · by_cases hk : k = p.key
      · subst hk
        rw [AList.lookup_insert] at h
        cases h
        rfl
      · rw [AList.lookup_insert_ne hk] at h
        exact m.key_eq k q h

/-- Adds pairs one by one. -/
def emplaceAll (m : ConfigPairMap) (ps : ConfigPairList) : ConfigPairMap := ps.foldl emplace m

/-- Removes the pair of a key. -/
def erase (m : ConfigPairMap) (k : ConfigKey) : ConfigPairMap where
  entries := m.entries.erase k
  key_eq k' p h := by
    by_cases hk : k' = k
    · subst hk
      rw [AList.lookup_erase] at h
      cases h
    · rw [AList.lookup_erase_ne hk] at h
      exact m.key_eq k' p h

/-- The pairs, in the order in which the map is iterated. -/
def pairs (m : ConfigPairMap) : ConfigPairList := m.entries.entries.map Sigma.snd

/-- The store a map stands for. -/
def values (m : ConfigPairMap) : ConfigKey → Option ConfigValue :=
  fun k => (m.find? k).map ConfigPair.value

variable {m : ConfigPairMap} {k k' : ConfigKey} {p : ConfigPair}

@[simp] theorem find?_empty : empty.find? k = none := rfl

theorem key_of_find? (h : m.find? k = some p) : p.key = k := m.key_eq k p h

theorem find?_erase : (m.erase k).find? k' = if k' = k then none else m.find? k' := by
  split
  · next h => subst h; exact AList.lookup_erase _ _
  · next h => exact AList.lookup_erase_ne h

theorem emplace_of_count (h : m.count p.key = true) : m.emplace p = m := by
  simp [emplace, h]

theorem find?_emplace (h : m.find? p.key = none) :
    (m.emplace p).find? k = if k = p.key then some p else m.find? k := by
  have hc : m.count p.key = false := by simp [count, h]
  simp only [emplace, find?, hc, Bool.false_eq_true, if_false]
  split
  · next hk => subst hk; exact AList.lookup_insert _
  · next hk => exact AList.lookup_insert_ne hk

/-- Of the pairs added under a key, the first one counts, after those there before. -/
theorem find?_emplaceAll {ps : ConfigPairList} :
    (m.emplaceAll ps).find? k = (m.find? k).or (ps.find? fun p => p.key = k) := by
  induction ps generalizing m with
  | nil => simp [emplaceAll]
  | cons p ps ih =>
    rw [emplaceAll, List.foldl_cons, ← emplaceAll, ih]
    rcases Option.eq_none_or_eq_some (m.find? p.key) with h | ⟨q, h⟩
    · rw [find?_emplace h]
      by_cases hk : p.key = k
      · subst hk; simp [h]
      · simp [hk, Ne.symm hk]
    · rw [emplace_of_count (by simp [count, h])]
      by_cases hk : p.key = k
      · subst hk; simp [h]
      · simp [hk]

/-- Where no two pairs have the same key, a pair is found under its key. -/
theorem find?_key_eq_some_iff {ps : ConfigPairList}
    (hu : ∀ p ∈ ps, ∀ q ∈ ps, p.key = q.key → p = q) :
    (ps.find? fun p => p.key = k) = some p ↔ p ∈ ps ∧ p.key = k := by
  constructor
  · intro h
    exact ⟨List.mem_of_find?_eq_some h, by simpa using List.find?_some h⟩
  · rintro ⟨hp, rfl⟩
    rcases hf : ps.find? fun q => q.key = p.key with _ | q
    · exact absurd (List.find?_eq_none.1 hf p hp) (by simp)
    · have hq : q.key = p.key := by simpa using List.find?_some hf
      rw [hf, hu q (List.mem_of_find?_eq_some hf) p hp hq]

theorem mem_pairs : p ∈ m.pairs ↔ m.find? p.key = some p := by
  constructor
  · intro h
    obtain ⟨⟨k, q⟩, he, rfl⟩ := List.mem_map.1 h
    have hk : m.find? k = some q := (List.mem_dlookup_iff m.entries.nodupKeys).2 he
    rwa [← key_of_find? hk] at hk
  · intro h
    exact List.mem_map.2 ⟨⟨p.key, p⟩, (List.mem_dlookup_iff m.entries.nodupKeys).1 h, rfl⟩

/-- The keys of the pairs are distinct. -/
theorem nodup_pairs (m : ConfigPairMap) : (m.pairs.map ConfigPair.key).Nodup := by
  have : m.pairs.map ConfigPair.key = m.entries.keys := by
    rw [pairs, List.map_map, AList.keys, List.keys]
    refine List.map_congr_left fun e he => ?_
    exact m.key_eq e.1 e.2 ((List.mem_dlookup_iff m.entries.nodupKeys).2 he)
  rw [this]
  exact m.entries.keys_nodup

theorem values_eq_some_iff {v : ConfigValue} :
    m.values k = some v ↔ m.find? k = some ⟨k, v⟩ := by
  simp only [values, Option.map_eq_some_iff]
  constructor
  · rintro ⟨p, hp, rfl⟩
    rw [hp, ← key_of_find? hp]
  · intro h
    exact ⟨_, h, rfl⟩

theorem values_eq_none_iff : m.values k = none ↔ m.find? k = none := by
  simp [values]

end ConfigPairMap

/-- The pair a map iterates first. -/
def unwrapSinglePair (m : ConfigPairMap) : Option ConfigPair := m.pairs.head?

end SysAdmin
