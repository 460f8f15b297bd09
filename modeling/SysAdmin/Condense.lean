import Mathlib.Data.List.Sigma
import SysAdmin.ConfigTypes

/-!
# Condensing keys

The values of dotted keys are put into nested dictionaries, one for each namespace (`condense`).
A key that is a namespace, too, keeps its value in braces. The dictionary that a key needs is
looked up before it is made, which raises an exception.

* `Condenses`: condensing raises nothing in any order, gives the same in all of them, and every
  value is where it is to be;
* `condenses_iff`: this is so exactly if no key has a dot.
-/

namespace SysAdmin

namespace SysAdminUser

variable {α : Type}

/-- What is under a name: a value, or a dictionary. -/
inductive Item (α : Type)
  | value (v : α)
  | dict (entries : List (Σ _ : String, Item α))

/-- A dictionary. -/
abbrev Dict (α : Type) := List (Σ _ : String, Item α)

/-- Whether an item is a dictionary. -/
def Item.isDict : Item α → Bool
  | value _ => false
  | dict _ => true

/-- A name in braces. -/
def braced (name : String) : String := "\x7b" ++ name ++ "\x7d"

/-- The parts of a key. -/
def keyparts (key : String) : List String := (key.toList.splitOn '.').map String.ofList

/-- Puts a value under the parts of a key. Raises if there is nothing under a part yet that is to
    be a dictionary. -/
def innerCondense (partialDict : Dict α) : List String → α → Option (Dict α)
  | [], _ => some partialDict
  | [key], value =>
    some <| if (partialDict.dlookup key).isSome then partialDict.kinsert (braced key) (.value value)
      else partialDict.kinsert key (.value value)
  | key :: keys, value => do
    let existing ← partialDict.dlookup key
    let partialDict :=
      if existing.isDict then partialDict
      else (partialDict.kinsert (braced key) existing).kerase key
    let partialDict :=
      if (partialDict.dlookup key).isSome then partialDict else partialDict.kinsert key (.dict [])
    match partialDict.dlookup key with
    | some (.dict inner) =>
      let inner ← innerCondense inner keys value
      return partialDict.kinsert key (.dict inner)
    | some (.value _) | none => none

/-- Puts the values of keys into nested dictionaries, in the order of the keys. -/
def condense (uncondensed : List (String × α)) : Option (Dict α) :=
  uncondensed.foldlM (fun output e => innerCondense output (keyparts e.1) e.2) []

/-! ## Reading nested dictionaries -/

/-- What is at a path: nothing, a dictionary, or a value. -/
def node : List String → Dict α → Option (Option α)
  | [], _ => some none
  | key :: keys, d =>
    match d.dlookup key with
    | none => none
    | some (.value v) => if keys = [] then some (some v) else none
    | some (.dict inner) => node keys inner

/-- Where the value of a key is to be: at the path of its parts, the last one of which is in
    braces if the key is a namespace, too. -/
def location (keys : List String) (key : String) : List String :=
  if ∃ other ∈ keys, keyparts key <+: keyparts other ∧ keyparts key ≠ keyparts other then
    (keyparts key).dropLast ++ [braced ((keyparts key).getLastD "")]
  else keyparts key

/-- In any order of the keys, condensing raises nothing, has each value where it is to be, and
    gives the same dictionaries as in any other order. -/
def Condenses (m : List (String × α)) : Prop :=
  ∀ l, l.Perm m → ∃ d, condense l = some d ∧
    (∀ e ∈ m, node (location (m.map Prod.fst) e.1) d = some (some e.2)) ∧
    ∀ l' d', l'.Perm m → condense l' = some d' → ∀ path, node path d' = node path d

variable {d d' : Dict α} {key : String} {v : α} {l m : List (String × α)}

theorem node_congr (h : ∀ key, d'.dlookup key = d.dlookup key) (path : List String) :
    node path d' = node path d := by
  rcases path with _ | ⟨key, keys⟩
  · rfl
  · rw [node, node, h]

/-! ## Keys with and without dots -/

theorem keyparts_of_not_mem (h : '.' ∉ key.toList) : keyparts key = [key] := by
  rw [keyparts, List.splitOn_eq_singleton h, List.map_singleton, String.ofList_toList]

theorem exists_keyparts_of_mem (h : '.' ∈ key.toList) :
    ∃ a b rest, keyparts key = a :: b :: rest := by
  obtain ⟨first, others, hkey, hfirst⟩ := List.eq_append_cons_of_mem h
  obtain ⟨second, rest, hsplit⟩ := List.exists_cons_of_ne_nil (List.splitOn_ne_nil '.' others)
  refine ⟨.ofList first, .ofList second, rest.map .ofList, ?_⟩
  rw [keyparts, hkey, List.splitOn_append_cons_self_of_not_mem hfirst, hsplit]
  rfl

/-- The first key with a dot finds no dictionary for its namespace. -/
theorem condense_eq_none (h : '.' ∈ key.toList) : condense ((key, v) :: l) = none := by
  obtain ⟨a, b, rest, hparts⟩ := exists_keyparts_of_mem h
  rw [condense, List.foldlM_cons, hparts]
  rfl

/-- Keys without dots are put into one dictionary, each under its own name. -/
theorem foldlM_of_not_mem (hdot : ∀ e ∈ l, '.' ∉ e.1.toList) (hn : (l.map Prod.fst).Nodup)
    (hnew : ∀ e ∈ l, d.dlookup e.1 = none) :
    ∃ d', l.foldlM (fun output e => innerCondense output (keyparts e.1) e.2) d = some d' ∧
      (∀ e ∈ l, d'.dlookup e.1 = some (.value e.2)) ∧
      ∀ key, key ∉ l.map Prod.fst → d'.dlookup key = d.dlookup key := by
  induction l generalizing d with
  | nil => exact ⟨d, rfl, by simp, fun _ _ => rfl⟩
  | cons e l ih =>
    rw [List.map_cons, List.nodup_cons] at hn
    have hstep : innerCondense d (keyparts e.1) e.2 = some (d.kinsert e.1 (.value e.2)) := by
      rw [keyparts_of_not_mem (hdot e List.mem_cons_self), innerCondense,
        hnew e List.mem_cons_self]
      rfl
    have hother : ∀ key, key ≠ e.1 →
        (d.kinsert e.1 (.value e.2)).dlookup key = d.dlookup key := fun key hne =>
      List.dlookup_kinsert_ne hne
    obtain ⟨d', hrun, hvalues, hrest⟩ := ih (fun f hf => hdot f (List.mem_cons_of_mem _ hf)) hn.2
      fun f hf => (hother f.1 fun h => hn.1 (h ▸ List.mem_map_of_mem hf)).trans
        (hnew f (List.mem_cons_of_mem _ hf))
    refine ⟨d', by rw [List.foldlM_cons, hstep]; exact hrun, ?_, ?_⟩
    · rw [List.forall_mem_cons]
      exact ⟨(hrest e.1 hn.1).trans (List.dlookup_kinsert d), hvalues⟩
    · intro key hkey
      rw [List.map_cons, List.mem_cons, not_or] at hkey
      exact (hrest key hkey.2).trans (hother key hkey.1)

/-- Without dots, no key is a namespace. -/
theorem location_of_not_mem {keys : List String} (h : ∀ key ∈ keys, '.' ∉ key.toList)
    (hkey : key ∈ keys) : location keys key = [key] := by
  rw [location, if_neg, keyparts_of_not_mem (h key hkey)]
  rintro ⟨other, hother, hpre, hne⟩
  rw [keyparts_of_not_mem (h key hkey), keyparts_of_not_mem (h other hother)] at hpre hne
  exact hne (List.IsPrefix.eq_of_length hpre rfl)

/-- Condensing works in all orders of the keys exactly if no key has a dot. -/
theorem condenses_iff (hn : (m.map Prod.fst).Nodup) :
    Condenses m ↔ ∀ e ∈ m, '.' ∉ e.1.toList := by
  constructor
  · intro h e he hdot
    -- In an order that starts with the key, an exception is raised.
    obtain ⟨before, after, rfl⟩ := List.append_of_mem he
    obtain ⟨d, hcondense, _⟩ := h (e :: (before ++ after)) List.perm_middle.symm
    rw [condense_eq_none hdot] at hcondense
    cases hcondense
  · intro hdot l hl
    have hrun : ∀ l, l.Perm m → ∃ d, condense l = some d ∧
        (∀ e ∈ m, d.dlookup e.1 = some (.value e.2)) ∧
        ∀ key, key ∉ m.map Prod.fst → d.dlookup key = none := by
      intro l hl
      obtain ⟨d, hcondense, hvalues, hrest⟩ := foldlM_of_not_mem
        (fun e he => hdot e (hl.mem_iff.1 he)) ((hl.map _).nodup_iff.2 hn)
        fun e _ => List.dlookup_nil e.1
      refine ⟨d, hcondense, fun e he => hvalues e (hl.mem_iff.2 he), fun key hkey => ?_⟩
      exact (hrest key fun h => hkey ((hl.map _).mem_iff.1 h)).trans (List.dlookup_nil key)
    obtain ⟨d, hcondense, hvalues, hrest⟩ := hrun l hl
    refine ⟨d, hcondense, fun e he => ?_, fun l' d' hl' hcondense' path => ?_⟩
    · rw [location_of_not_mem (by simpa using hdot) (List.mem_map_of_mem he), node, hvalues e he]
      rfl
    · obtain ⟨d'', hcondense'', hvalues', hrest'⟩ := hrun l' hl'
      obtain rfl := Option.some.inj (hcondense'.symm.trans hcondense'')
      refine node_congr (fun key => ?_) path
      by_cases hkey : key ∈ m.map Prod.fst
      · obtain ⟨e, he, rfl⟩ := List.mem_map.1 hkey
        rw [hvalues e he, hvalues' e he]
      · rw [hrest key hkey, hrest' key hkey]

/-- Two keys without dots. -/
theorem condenses_iff_two : Condenses [("a", 1), ("b", 2)] ↔
    ∀ e ∈ [("a", 1), ("b", 2)], '.' ∉ e.1.toList :=
  condenses_iff (by decide)

/-- There is no dictionary for the namespace of the first key. -/
theorem not_forall_condenses : ¬∀ m : List (String × Nat), (m.map Prod.fst).Nodup →
    Condenses m := by
  intro h
  obtain ⟨d, hcondense, _⟩ := h [("a.b", 1)] (by decide) _ (.refl _)
  have hraised : condense [("a.b", 1)] = none := rfl
  rw [hraised] at hcondense
  cases hcondense

end SysAdminUser

end SysAdmin
