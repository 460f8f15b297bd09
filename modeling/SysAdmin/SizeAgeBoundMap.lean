import Mathlib.Data.List.AList
import Mathlib.Data.List.Perm.Basic

/-!
# The bounded map

`SizeAgeBoundMap` keeps at most `maxSize` items. Inserting a new key into a full
map *ages out* the key inserted longest ago, whatever its item.

The map has three containers: the items, the history of the keys in the order of
their insertion, and the place of every key in the history. The history is a
linked list, whose places stay valid while other places come and go: a place is
modelled by the number of its node, fresh at every insertion.

The three belong together (`Consistent`), and every operation keeps them so. Of
a consistent map, an insertion changes what is found under the new key and under
the key it ages out (`victim`), and nothing else (`find?_insert`).
-/

namespace SysAdmin

/-- A map bounded in size, ageing out its oldest key. -/
structure SizeAgeBoundMap (κ ν : Type) where
  items : AList fun _ : κ => ν
  /-- The nodes of the history, each with its key, the oldest first. -/
  history : List (Nat × κ)
  /-- The node of every key. -/
  lookups : AList fun _ : κ => Nat
  maxSize : Nat
  /-- A node that has not been in use. -/
  nextNode : Nat

namespace SizeAgeBoundMap

variable {κ ν : Type} [DecidableEq κ]

/-- The map without items. -/
def new (max : Nat) : SizeAgeBoundMap κ ν := ⟨∅, [], ∅, max, 0⟩

/-- How many items the key has: one or none. -/
def count (m : SizeAgeBoundMap κ ν) (key : κ) : Bool := (m.items.lookup key).isSome

/-- The number of items. -/
def size (m : SizeAgeBoundMap κ ν) : Nat := m.items.entries.length

/-- The item of a key, which callers count first. -/
def find? (m : SizeAgeBoundMap κ ν) (key : κ) : Option ν := m.items.lookup key

/-- Changes the item of a key in place, through the reference `At` returns. -/
def modify (m : SizeAgeBoundMap κ ν) (key : κ) (f : ν → ν) : SizeAgeBoundMap κ ν :=
  match m.items.lookup key with
  | some v => { m with items := m.items.insert key (f v) }
  | none => m

/-- Removes the oldest key. The front of an empty history is undefined, and the
    map is left as it is. -/
def ageOut (m : SizeAgeBoundMap κ ν) : SizeAgeBoundMap κ ν :=
  match m.history with
  | [] => m
  | (_, oldest) :: history =>
    { m with items := m.items.erase oldest, lookups := m.lookups.erase oldest, history := history }

/-- Puts a key that is not present into the three containers. -/
def push (m : SizeAgeBoundMap κ ν) (key : κ) (value : ν) : SizeAgeBoundMap κ ν :=
  { m with
    items := m.items.insert key value
    history := m.history ++ [(m.nextNode, key)]
    lookups := m.lookups.insert key m.nextNode
    nextNode := m.nextNode + 1 }

/-- Adds a key that is not present, ageing out the oldest key of a full map. -/
def insert (m : SizeAgeBoundMap κ ν) (key : κ) (value : ν) : Bool × SizeAgeBoundMap κ ν :=
  if m.count key then (false, m)
  else (true, (if m.size ≥ m.maxSize then m.ageOut else m).push key value)

/-- Removes a key, which callers count first: without a node, `lookups.at` throws. -/
def erase (m : SizeAgeBoundMap κ ν) (key : κ) : SizeAgeBoundMap κ ν :=
  match m.lookups.lookup key with
  | some node =>
    { m with
      items := m.items.erase key
      history := m.history.filter fun n => n.1 ≠ node
      lookups := m.lookups.erase key }
  | none => m

/-- The key that opening another one ages out. -/
def victim (m : SizeAgeBoundMap κ ν) : Option κ :=
  if m.size ≥ m.maxSize then m.history.head?.map Prod.snd else none

/-- The three containers hold the same keys, the history each of them once, at
    the node the key looks up. -/
structure Consistent (m : SizeAgeBoundMap κ ν) : Prop where
  nodup_nodes : (m.history.map Prod.fst).Nodup
  node_lt : ∀ n ∈ m.history.map Prod.fst, n < m.nextNode
  nodup_keys : (m.history.map Prod.snd).Nodup
  mem_history : ∀ k, k ∈ m.history.map Prod.snd ↔ k ∈ m.items
  lookup_iff : ∀ k n, m.lookups.lookup k = some n ↔ (n, k) ∈ m.history
  length_le : m.history.length ≤ max m.maxSize 1

variable {m : SizeAgeBoundMap κ ν} {k k' : κ} {v : ν}

theorem count_iff_mem : m.count k = true ↔ k ∈ m.items := AList.lookup_isSome

theorem count_eq_isSome_find? : m.count k = (m.find? k).isSome := rfl

/-! ## Consistency -/

theorem consistent_new (max : Nat) : (new max : SizeAgeBoundMap κ ν).Consistent where
  nodup_nodes := List.nodup_nil
  node_lt := by simp [new]
  nodup_keys := List.nodup_nil
  mem_history := by simp [new]
  lookup_iff := by simp [new]
  length_le := by simp [new]

/-- A consistent map has as many items as its history is long. -/
theorem Consistent.size_eq (h : m.Consistent) : m.size = m.history.length := by
  have hp : m.items.keys.Perm (m.history.map Prod.snd) :=
    (List.perm_ext_iff_of_nodup m.items.keys_nodup h.nodup_keys).2 fun k => by
      rw [h.mem_history, AList.mem_keys]
  simpa [size, AList.keys, List.keys] using hp.length_eq

theorem Consistent.modify (h : m.Consistent) (f : ν → ν) : (m.modify k f).Consistent := by
  rw [SizeAgeBoundMap.modify]
  split
  · next v hv =>
    have hk : k ∈ m.items := AList.lookup_isSome.1 (by simp [hv])
    exact { h with
      mem_history := fun k' => by
        rw [AList.mem_insert, h.mem_history]
        exact ⟨.inr, fun h' => h'.elim (· ▸ hk) id⟩ }
  · exact h

/-- Nodes and keys are in bijection along the history, so that filtering by the one is
    filtering by the other. -/
theorem Consistent.node_ne_iff (h : m.Consistent) {n : Nat} (hmem : (n, k) ∈ m.history)
    {e : Nat × κ} (he : e ∈ m.history) : e.1 ≠ n ↔ e.2 ≠ k := by
  constructor
  · exact fun hne hk =>
      hne (congrArg Prod.fst (List.inj_on_of_nodup_map h.nodup_keys he hmem hk))
  · exact fun hne hk =>
      hne (congrArg Prod.snd (List.inj_on_of_nodup_map h.nodup_nodes he hmem hk))

/-- Removing the node of a key from the history removes the key. -/
theorem Consistent.erase (h : m.Consistent) : (m.erase k).Consistent := by
  rw [SizeAgeBoundMap.erase]
  split
  · next node hn =>
    have hnode : ∀ e ∈ m.history, e.1 ≠ node ↔ e.2 ≠ k := fun e he =>
      h.node_ne_iff ((h.lookup_iff k node).1 hn) he
    have hsub : (m.history.filter fun n => decide (n.1 ≠ node)).Sublist m.history :=
      List.filter_sublist
    exact
      { nodup_nodes := h.nodup_nodes.sublist (hsub.map _)
        node_lt := fun n hn => h.node_lt n ((hsub.map _).subset hn)
        nodup_keys := h.nodup_keys.sublist (hsub.map _)
        mem_history := fun k' => by
          rw [AList.mem_erase, ← h.mem_history]
          simp only [List.mem_map, List.mem_filter, decide_eq_true_eq]
          constructor
          · rintro ⟨e, ⟨he, hne⟩, rfl⟩
            exact ⟨(hnode e he).1 hne, e, he, rfl⟩
          · rintro ⟨hne, e, he, rfl⟩
            exact ⟨e, ⟨he, (hnode e he).2 hne⟩, rfl⟩
        lookup_iff := fun k' n => by
          simp only [List.mem_filter, decide_eq_true_eq]
          by_cases hk : k' = k
          · subst hk
            rw [AList.lookup_erase]
            exact ⟨(nomatch ·), fun ⟨he, hne⟩ => absurd rfl ((hnode _ he).1 hne)⟩
          · rw [AList.lookup_erase_ne hk, h.lookup_iff]
            exact ⟨fun he => ⟨he, (hnode _ he).2 hk⟩, And.left⟩
        length_le := Nat.le_trans hsub.length_le h.length_le }
  · exact h

/-- Ageing out is erasing the oldest key. -/
theorem Consistent.ageOut_eq (h : m.Consistent) {n : Nat} {history : List (Nat × κ)}
    (hm : m.history = (n, k) :: history) : m.ageOut = m.erase k := by
  have hn : m.lookups.lookup k = some n := (h.lookup_iff k n).2 (by simp [hm])
  have hnodup : n ∉ history.map Prod.fst := by
    have := h.nodup_nodes
    rw [hm, List.map_cons, List.nodup_cons] at this
    exact this.1
  have hf : history.filter (fun e => decide (e.1 ≠ n)) = history :=
    List.filter_eq_self.2 fun e he => by
      simpa using fun hen => hnodup (List.mem_map.2 ⟨e, he, hen⟩)
  simpa [ageOut, SizeAgeBoundMap.erase, hm, hn] using hf.symm

theorem Consistent.ageOut (h : m.Consistent) : m.ageOut.Consistent := by
  match hm : m.history with
  | [] => simpa [SizeAgeBoundMap.ageOut, hm] using h
  | (n, k) :: history => rw [h.ageOut_eq hm]; exact h.erase

/-- A new key goes to a new node, at the end of the history. -/
theorem Consistent.push (h : m.Consistent) (hk : k ∉ m.items)
    (hlen : m.history.length < max m.maxSize 1) : (m.push k v).Consistent where
  nodup_nodes := by
    rw [SizeAgeBoundMap.push, List.map_append, List.nodup_append]
    refine ⟨h.nodup_nodes, by simp, fun n hn n' hn' => ?_⟩
    have := h.node_lt n hn
    simp only [List.map_cons, List.map_nil, List.mem_singleton] at hn'
    omega
  node_lt n hn := by
    simp only [SizeAgeBoundMap.push, List.map_append, List.mem_append, List.map_cons, List.map_nil,
      List.mem_singleton] at hn ⊢
    rcases hn with hn | rfl
    · exact Nat.lt_succ_of_lt (h.node_lt n hn)
    · exact Nat.lt_succ_self _
  nodup_keys := by
    rw [SizeAgeBoundMap.push, List.map_append, List.nodup_append]
    refine ⟨h.nodup_keys, by simp, fun k' hk' k'' hk'' => ?_⟩
    simp only [List.map_cons, List.map_nil, List.mem_singleton] at hk''
    rintro rfl
    exact hk (hk'' ▸ (h.mem_history k').1 hk')
  mem_history k' := by
    simp only [SizeAgeBoundMap.push, List.map_append, List.mem_append, h.mem_history, List.map_cons,
      List.map_nil, List.mem_singleton, AList.mem_insert]
    exact or_comm
  lookup_iff k' n := by
    simp only [SizeAgeBoundMap.push, List.mem_append, List.mem_singleton, Prod.mk.injEq]
    -- A key that is not there has no node yet.
    by_cases hkk : k' = k
    · subst hkk
      have hno : (n, k') ∉ m.history := fun hn =>
        hk ((h.mem_history k').1 (List.mem_map.2 ⟨_, hn, rfl⟩))
      simp [hno, eq_comm]
    · simp [AList.lookup_insert_ne hkk, h.lookup_iff, hkk]
  length_le := by simpa [SizeAgeBoundMap.push] using Nat.succ_le_of_lt hlen

theorem not_mem_ageOut (hk : k ∉ m.items) : k ∉ m.ageOut.items := by
  match hm : m.history with
  | [] => simpa [ageOut, hm] using hk
  | (_, oldest) :: _ => simp [ageOut, hm, hk]

theorem Consistent.insert (h : m.Consistent) : (m.insert k v).2.Consistent := by
  rw [SizeAgeBoundMap.insert]
  split
  · exact h
  · next hc =>
    have hk : k ∉ m.items := fun hk => hc (count_iff_mem.2 hk)
    dsimp only
    split
    · -- Ageing out makes room first, even where `maxSize` is `0`.
      refine h.ageOut.push (not_mem_ageOut hk) ?_
      match hm : m.history with
      | [] => simp only [SizeAgeBoundMap.ageOut, hm, List.length_nil]; omega
      | e :: history =>
        have := h.length_le
        rw [hm, List.length_cons] at this
        simpa [SizeAgeBoundMap.ageOut, hm] using Nat.lt_of_succ_le this
    · next hfull =>
      rw [h.size_eq] at hfull
      exact h.push hk (by omega)

/-! ## What is found under a key -/

theorem find?_modify {f : ν → ν} :
    (m.modify k f).find? k' = if k' = k then (m.find? k).map f else m.find? k' := by
  simp only [modify, find?]
  split
  · next v hv =>
    split
    · next h => subst h; simp [hv]
    · next h => exact AList.lookup_insert_ne h
  · next hv =>
    split
    · next h => subst h; simp [hv]
    · rfl

theorem find?_erase (h : m.Consistent) :
    (m.erase k).find? k' = if k' = k then none else m.find? k' := by
  rw [erase, find?]
  split
  · split
    · next hk => subst hk; exact AList.lookup_erase _ _
    · next hk => exact AList.lookup_erase_ne hk
  · next hn =>
    split
    · next hk =>
      subst hk
      -- A key without a node is not in the history, so it has no item.
      refine AList.lookup_eq_none.2 fun hk => ?_
      obtain ⟨⟨n, _⟩, he, rfl⟩ := List.mem_map.1 ((h.mem_history k').2 hk)
      rw [(h.lookup_iff _ n).2 he] at hn
      cases hn
    · rfl

/-- Inserting a new key adds it, and takes away the key it ages out. -/
theorem find?_insert (hk : m.find? k = none) :
    (m.insert k v).2.find? k' =
      if k' = k then some v else if m.victim = some k' then none else m.find? k' := by
  have hc : m.count k = false := by simp [count_eq_isSome_find?, hk]
  simp only [insert, hc, Bool.false_eq_true, if_false]
  by_cases hkk : k' = k
  · subst hkk
    simp [find?, push]
  simp only [find?, push, if_neg hkk, AList.lookup_insert_ne hkk]
  -- Only a full map ages out its oldest key, which is then the victim.
  by_cases hfull : m.size ≥ m.maxSize
  · match hm : m.history with
    | [] => simp [victim, hm, ageOut]
    | (_, oldest) :: _ =>
      simp only [hfull, if_true, victim, hm, ageOut, List.head?_cons, Option.map_some,
        Option.some.injEq]
      split
      · next h => subst h; exact AList.lookup_erase _ _
      · next h => exact AList.lookup_erase_ne (Ne.symm h)
  · simp [hfull, victim]

end SizeAgeBoundMap

end SysAdmin
