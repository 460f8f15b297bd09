import SysAdmin.Foundation.FifoDict
import SysAdmin.SizeAgeBoundMap

/-!
# The bounded map as a dictionary

What `SizeAgeBoundMap` does with its three containers is what a first-in-first-out dictionary
does (`SysAdmin.Foundation.FifoDict`): a new key in a full map takes the place of the key that
has been inserted longest ago, and no operation but an insertion changes the order.

* `SizeAgeBoundMap.Refines`: a map and the dictionary that it is for;
* `SizeAgeBoundMap.fifo_run`: whatever the operations, as long as only keys are erased that are
  there, the map and the dictionary answer alike, and the containers stay in step.
-/

namespace SysAdmin

open Machine

namespace SizeAgeBoundMap

variable {κ ν : Type} [DecidableEq κ]

/-- Does an operation. -/
def apply (m : SizeAgeBoundMap κ ν) : DictOp κ ν → SizeAgeBoundMap κ ν × DictResult ν
  | .insert k v => ((m.insert k v).2, .inserted (m.insert k v).1)
  | .erase k => (m.erase k, .erased)
  | .at k f => (m.modify k f, .item (m.find? k))
  | .count k => (m, .count (if m.count k then 1 else 0))

/-- Only a key that is there is erased. -/
def ErasesPresent (m : SizeAgeBoundMap κ ν) : DictOp κ ν → Prop
  | .erase k => m.count k = true
  | .insert .. | .at .. | .count _ => True

instance (m : SizeAgeBoundMap κ ν) : ∀ op, Decidable (m.ErasesPresent op)
  | .erase k => inferInstanceAs (Decidable (m.count k = true))
  | .insert .. | .at .. | .count _ => .isTrue trivial

/-- The three containers hold the same keys, the history each of them once, at a node of its
    own, which is the one that is looked up for it. -/
structure InStep (m : SizeAgeBoundMap κ ν) : Prop where
  mem_history_iff : ∀ k, k ∈ m.history.map Prod.snd ↔ k ∈ m.items
  mem_lookups_iff : ∀ k, k ∈ m.lookups ↔ k ∈ m.items
  nodup_keys : (m.history.map Prod.snd).Nodup
  nodup_nodes : (m.history.map Prod.fst).Nodup
  mem_of_lookup : ∀ k n, m.lookups.lookup k = some n → (n, k) ∈ m.history

/-- The map has the items of the dictionary, and in its order. -/
structure Refines (max : Nat) (m : SizeAgeBoundMap κ ν) (d : FifoDict κ ν) : Prop where
  consistent : m.Consistent
  maxSize_eq : m.maxSize = max
  order_eq : m.history.map Prod.snd = d.order
  find_eq : m.find? = d.find

variable {m : SizeAgeBoundMap κ ν} {d : FifoDict κ ν} {max : Nat} {k : κ} {v : ν}
  {op : DictOp κ ν} {ops : List (DictOp κ ν)}

theorem Consistent.inStep (h : m.Consistent) : m.InStep where
  mem_history_iff := h.mem_history
  mem_lookups_iff k := by
    rw [← h.mem_history, ← AList.lookup_isSome, Option.isSome_iff_exists, List.mem_map]
    constructor
    · rintro ⟨n, hn⟩
      exact ⟨(n, k), (h.lookup_iff k n).1 hn, rfl⟩
    · rintro ⟨⟨n, _⟩, he, rfl⟩
      exact ⟨n, (h.lookup_iff _ n).2 he⟩
  nodup_keys := h.nodup_keys
  nodup_nodes := h.nodup_nodes
  mem_of_lookup k n := (h.lookup_iff k n).1

/-! ## Operations -/

theorem refines_new : Refines max (new max : SizeAgeBoundMap κ ν) .empty where
  consistent := consistent_new max
  maxSize_eq := rfl
  order_eq := rfl
  find_eq := rfl

theorem Refines.count_iff (h : Refines max m d) : m.count k = true ↔ k ∈ d.order := by
  rw [count_iff_mem, ← h.consistent.mem_history, h.order_eq]

theorem Refines.size_eq (h : Refines max m d) : m.size = d.order.length := by
  rw [h.consistent.size_eq, ← h.order_eq, List.length_map]

/-- The node of a key is that of its place in the order. -/
theorem Consistent.order_erase (h : m.Consistent) :
    (m.erase k).history.map Prod.snd = (m.history.map Prod.snd).erase k := by
  rw [SizeAgeBoundMap.erase]
  split
  · next n hn =>
    have hmem : (n, k) ∈ m.history := (h.lookup_iff k n).1 hn
    rw [h.nodup_keys.erase_eq_filter, List.filter_map]
    refine congrArg (List.map Prod.snd) (List.filter_congr fun e he => ?_)
    rw [Bool.eq_iff_iff, decide_eq_true_iff, Function.comp_apply, bne_iff_ne]
    exact h.node_ne_iff hmem he
  · next hn =>
    refine (List.erase_of_not_mem fun hk => ?_).symm
    obtain ⟨⟨n, _⟩, he, rfl⟩ := List.mem_map.1 hk
    rw [(h.lookup_iff _ n).2 he] at hn
    cases hn

theorem maxSize_erase : (m.erase k).maxSize = m.maxSize := by
  rw [erase]
  split <;> rfl

theorem Refines.erase (h : Refines max m d) : Refines max (m.erase k) (d.erase k) where
  consistent := h.consistent.erase
  maxSize_eq := maxSize_erase.trans h.maxSize_eq
  order_eq := by rw [h.consistent.order_erase, h.order_eq, FifoDict.order_erase]
  find_eq := by
    funext k'
    rw [find?_erase h.consistent, h.find_eq, FifoDict.find_erase, Function.update_apply]

theorem Refines.modify {f : ν → ν} (h : Refines max m d) :
    Refines max (m.modify k f) (d.modify k f) where
  consistent := h.consistent.modify f
  maxSize_eq := by
    rw [SizeAgeBoundMap.modify]
    split <;> exact h.maxSize_eq
  order_eq := by
    rw [SizeAgeBoundMap.modify]
    split <;> exact h.order_eq
  find_eq := by
    funext k'
    rw [find?_modify, h.find_eq, FifoDict.find_modify, Function.update_apply]

/-- A full map ages out the key that the dictionary ages out. -/
theorem Refines.ageOut (hmax : 0 < max) (h : Refines max m d) :
    Refines max (if m.size ≥ m.maxSize then m.ageOut else m) (d.ageOut max) := by
  rw [h.size_eq, h.maxSize_eq]
  rcases Nat.lt_or_ge d.order.length max with hlt | hfull
  · rwa [if_neg (Nat.not_le_of_lt hlt), FifoDict.ageOut_of_lt hlt]
  · rw [if_pos hfull]
    match hm : m.history with
    | [] =>
      rw [← h.order_eq, hm] at hfull
      exact absurd hfull (Nat.not_le_of_lt hmax)
    | (n, oldest) :: history =>
      have horder : d.order = oldest :: history.map Prod.snd := by rw [← h.order_eq, hm]; rfl
      rw [h.consistent.ageOut_eq hm, FifoDict.ageOut_of_full horder hfull]
      exact h.erase

theorem Refines.push (h : Refines max m d) (hk : k ∉ d.order)
    (hlen : d.order.length < max) : Refines max (m.push k v) (d.push k v hk) where
  consistent := by
    have hitems : k ∉ m.items := by
      rwa [← h.consistent.mem_history, h.order_eq]
    refine h.consistent.push hitems ?_
    rw [h.maxSize_eq, ← h.consistent.size_eq, h.size_eq]
    omega
  maxSize_eq := h.maxSize_eq
  order_eq := by
    rw [SizeAgeBoundMap.push, List.map_append, h.order_eq, FifoDict.order_push]
    rfl
  find_eq := by
    funext k'
    rw [FifoDict.find_push, Function.update_apply, ← h.find_eq]
    by_cases hk' : k' = k
    · rw [if_pos hk', hk']
      exact AList.lookup_insert m.items
    · rw [if_neg hk']
      exact AList.lookup_insert_ne hk'

theorem Refines.length_le (hmax : 0 < max) (h : Refines max m d) : d.order.length ≤ max := by
  have hle := h.consistent.length_le
  rw [h.maxSize_eq, ← h.consistent.size_eq, h.size_eq] at hle
  omega

/-- The step lemma of the refinement. -/
theorem Refines.apply (hmax : 0 < max) (h : Refines max m d) (op : DictOp κ ν) :
    Refines max (m.apply op).1 (d.apply max op).1 ∧ (m.apply op).2 = (d.apply max op).2 := by
  cases op with
  | insert k v =>
    rw [SizeAgeBoundMap.apply, FifoDict.apply, SizeAgeBoundMap.insert]
    by_cases hk : k ∈ d.order
    · rw [if_pos (h.count_iff.2 hk), FifoDict.insert_of_mem hk]
      exact ⟨h, rfl⟩
    · rw [if_neg fun hc => hk (h.count_iff.1 hc), FifoDict.insert_of_not_mem hk]
      -- Ageing out brings no key back, so that the new one is still out.
      have hout : k ∉ (d.ageOut max).order := fun hmem => hk (FifoDict.order_ageOut_subset hmem)
      exact ⟨(h.ageOut hmax).push hout (FifoDict.length_order_ageOut hmax (h.length_le hmax)), rfl⟩
  | erase k => exact ⟨h.erase, rfl⟩
  | «at» k f =>
    refine ⟨h.modify, ?_⟩
    rw [SizeAgeBoundMap.apply, FifoDict.apply, h.find_eq]
  | count k =>
    refine ⟨h, ?_⟩
    rw [SizeAgeBoundMap.apply, FifoDict.apply]
    simp only [h.count_iff]

/-! ## Runs -/

/-- Whatever is done to a map, erasing only keys that are there, it answers as a dictionary
    with the same items in the same order, which is that of their insertion, it is never larger
    than its maximum, and its containers are in step. -/
theorem fifo_run (hmax : 1 ≤ max) (ops : List (DictOp κ ν))
    (h : Guarded (fun m op => (m.apply op).1) ErasesPresent (new max) ops) :
    let m := transduce apply (new max) ops
    let d := transduce (FifoDict.apply max) .empty ops
    m.2 = d.2 ∧ m.1.find? = d.1.find ∧ m.1.history.map Prod.snd = d.1.order ∧
      d.1.order = d.1.byLastInsertion (FifoDict.insertedKeys ops d.2) ∧ m.1.size ≤ max ∧
      m.1.InStep := by
  have hnew : Refines max (new max) (.empty : FifoDict κ ν) := refines_new
  obtain ⟨hrefines, hresults⟩ := transduce_of_simulation hnew
    (fun _ _ op hR _ => hR.apply hmax op) h
  refine ⟨hresults, hrefines.find_eq, hrefines.order_eq, FifoDict.order_eq, ?_,
    hrefines.consistent.inStep⟩
  rw [hrefines.size_eq]
  exact FifoDict.length_order_le hmax

/-- A key that is erased from the middle and inserted again is the youngest one. -/
theorem fifo_run_reinserted :
    let ops : List (DictOp Nat Nat) := [.insert 5 6, .insert 8 9, .insert 1 1, .erase 8,
      .insert 8 7, .insert 2 2, .insert 5 5, .count 1, .at 8 id]
    let m := transduce apply (new 3) ops
    let d := transduce (FifoDict.apply 3) .empty ops
    m.2 = d.2 ∧ m.1.find? = d.1.find ∧ m.1.history.map Prod.snd = d.1.order ∧
      d.1.order = d.1.byLastInsertion (FifoDict.insertedKeys ops d.2) ∧ m.1.size ≤ 3 ∧
      m.1.InStep :=
  fifo_run (by decide) _ (by decide)

end SizeAgeBoundMap

end SysAdmin
