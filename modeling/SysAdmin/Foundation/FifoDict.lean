import Mathlib.Data.List.Dedup
import Mathlib.Data.List.Nodup
import Mathlib.Logic.Function.Basic
import SysAdmin.Foundation.Transducers

/-!
# First-in-first-out dictionaries

A dictionary that holds a bounded number of items. A new key in a full dictionary takes the
place of the key that has been inserted longest ago.

* `FifoDict`: what is found under each key, and the keys in the order of their insertion;
* `FifoDict.apply`: an operation on a dictionary and its result;
* `FifoDict.length_order_le`: it never holds more than the maximum;
* `FifoDict.order_eq`: its order is that of the last insertions of the keys that it holds, so
  that the first one of them is the one inserted longest ago.
-/

namespace SysAdmin

open Machine

/-- A dictionary with its keys in the order of their insertion, the oldest first. -/
structure FifoDict (κ ν : Type*) where
  find : κ → Option ν
  order : List κ
  nodup : order.Nodup
  mem_order : ∀ k, k ∈ order ↔ find k ≠ none

/-- An operation. Looking an item up, one may change it. -/
inductive DictOp (κ ν : Type*)
  | insert (key : κ) (value : ν)
  | erase (key : κ)
  | at (key : κ) (f : ν → ν)
  | count (key : κ)

/-- What an operation returns. A key that is not there has no item. -/
inductive DictResult (ν : Type*)
  | inserted (b : Bool)
  | erased
  | item (value : Option ν)
  | count (n : ℕ)
  deriving DecidableEq

namespace FifoDict

variable {κ ν : Type*} [DecidableEq κ]

/-- The dictionary without items. -/
def empty : FifoDict κ ν := ⟨fun _ => none, [], List.nodup_nil, by simp⟩

/-- Removes a key. -/
def erase (d : FifoDict κ ν) (k : κ) : FifoDict κ ν where
  find := Function.update d.find k none
  order := d.order.erase k
  nodup := d.nodup.erase k
  mem_order k' := by
    rw [d.nodup.mem_erase_iff, d.mem_order]
    by_cases h : k' = k
    · simp [h]
    · simp [h]

/-- Changes the item of a key, if there is one. -/
def modify (d : FifoDict κ ν) (k : κ) (f : ν → ν) : FifoDict κ ν where
  find := Function.update d.find k ((d.find k).map f)
  order := d.order
  nodup := d.nodup
  mem_order k' := by
    rw [d.mem_order]
    by_cases h : k' = k
    · simp [h]
    · simp [h]

/-- Adds an item under a new key. -/
def push (d : FifoDict κ ν) (k : κ) (v : ν) (h : k ∉ d.order) : FifoDict κ ν where
  find := Function.update d.find k (some v)
  order := d.order ++ [k]
  nodup := by
    rw [List.nodup_append]
    refine ⟨d.nodup, List.nodup_singleton k, fun a ha b hb hab => h ?_⟩
    rwa [← List.mem_singleton.1 hb, ← hab]
  mem_order k' := by
    rw [List.mem_append, d.mem_order, List.mem_singleton]
    by_cases h : k' = k
    · simp [h]
    · simp [h]

@[simp] theorem order_erase (d : FifoDict κ ν) (k : κ) :
    (d.erase k).order = d.order.erase k := rfl

@[simp] theorem find_erase (d : FifoDict κ ν) (k : κ) :
    (d.erase k).find = Function.update d.find k none := rfl

@[simp] theorem order_modify (d : FifoDict κ ν) (k : κ) (f : ν → ν) :
    (d.modify k f).order = d.order := rfl

@[simp] theorem find_modify (d : FifoDict κ ν) (k : κ) (f : ν → ν) :
    (d.modify k f).find = Function.update d.find k ((d.find k).map f) := rfl

@[simp] theorem order_push (d : FifoDict κ ν) (k : κ) (v : ν) (h : k ∉ d.order) :
    (d.push k v h).order = d.order ++ [k] := rfl

@[simp] theorem find_push (d : FifoDict κ ν) (k : κ) (v : ν) (h : k ∉ d.order) :
    (d.push k v h).find = Function.update d.find k (some v) := rfl

/-- Removes the oldest key, if there are as many as there may be. -/
def ageOut (d : FifoDict κ ν) (max : ℕ) : FifoDict κ ν :=
  match d.order with
  | [] => d
  | oldest :: _ => if d.order.length ≥ max then d.erase oldest else d

/-- A full dictionary loses its oldest key. -/
theorem ageOut_of_full {d : FifoDict κ ν} {max : ℕ} {oldest : κ} {rest : List κ}
    (h : d.order = oldest :: rest) (hfull : max ≤ d.order.length) :
    d.ageOut max = d.erase oldest := by
  rw [ageOut]
  split
  · next hnil =>
    rw [hnil] at h
    cases h
  · next oldest' _ hcons =>
    obtain ⟨rfl, _⟩ := List.cons.inj (hcons.symm.trans h)
    exact if_pos hfull

/-- While there is room, nothing is lost. -/
theorem ageOut_of_lt {d : FifoDict κ ν} {max : ℕ} (h : d.order.length < max) :
    d.ageOut max = d := by
  rw [ageOut]
  split
  · rfl
  · exact if_neg (Nat.not_le_of_lt h)

theorem order_ageOut_subset {d : FifoDict κ ν} {max : ℕ} : (d.ageOut max).order ⊆ d.order := by
  rw [ageOut]
  split
  · exact List.Subset.refl _
  · split
    · exact List.erase_subset
    · exact List.Subset.refl _

/-- Adds an item, unless the key is there, in the place of the oldest one of a full
    dictionary. -/
def insert (d : FifoDict κ ν) (max : ℕ) (k : κ) (v : ν) : FifoDict κ ν × Bool :=
  if h : k ∈ d.order then (d, false)
  else ((d.ageOut max).push k v fun hk => h (order_ageOut_subset hk), true)

/-- Does an operation. -/
def apply (max : ℕ) (d : FifoDict κ ν) : DictOp κ ν → FifoDict κ ν × DictResult ν
  | .insert k v => ((d.insert max k v).1, .inserted (d.insert max k v).2)
  | .erase k => (d.erase k, .erased)
  | .at k f => (d.modify k f, .item (d.find k))
  | .count k => (d, .count (if k ∈ d.order then 1 else 0))

variable {d : FifoDict κ ν} {max : ℕ} {k : κ} {v : ν} {op : DictOp κ ν} {ops : List (DictOp κ ν)}

theorem insert_of_mem (h : k ∈ d.order) : d.insert max k v = (d, false) := dif_pos h

theorem insert_of_not_mem (h : k ∉ d.order) : d.insert max k v =
    ((d.ageOut max).push k v fun hk => h (order_ageOut_subset hk), true) := dif_neg h

/-! ## The bound -/

/-- After that, there is room for one more key. -/
theorem length_order_ageOut (hmax : 0 < max) (h : d.order.length ≤ max) :
    (d.ageOut max).order.length < max := by
  rcases Nat.lt_or_ge d.order.length max with hlt | hfull
  · rwa [ageOut_of_lt hlt]
  · obtain ⟨oldest, rest, hcons⟩ := List.exists_cons_of_length_pos (hmax.trans_le hfull)
    have hmem : oldest ∈ d.order := by rw [hcons]; exact List.mem_cons_self
    rw [ageOut_of_full hcons hfull, order_erase, List.length_erase_of_mem hmem]
    omega

/-- The step lemma of the bound. -/
theorem length_order_apply (hmax : 0 < max) (h : d.order.length ≤ max) :
    (d.apply max op).1.order.length ≤ max := by
  cases op with
  | insert k v =>
    rw [apply]
    by_cases hk : k ∈ d.order
    · rwa [insert_of_mem hk]
    · rw [insert_of_not_mem hk, order_push, List.length_append]
      exact length_order_ageOut hmax h
  | erase k => exact d.order.length_erase_le.trans h
  | «at» | count => exact h

/-- A dictionary never holds more than the maximum. -/
theorem length_order_le (hmax : 0 < max) :
    (transduce (apply max) (empty : FifoDict κ ν) ops).1.order.length ≤ max := by
  rw [transduce_fst]
  have hempty : (empty : FifoDict κ ν).order.length ≤ max := Nat.zero_le max
  exact (Always.of_step _ (I := fun d : FifoDict κ ν => d.order.length ≤ max)
    (G := fun _ _ => True) hempty (fun _ _ h _ => length_order_apply hmax h)
    (guarded_of_forall fun _ _ => trivial)).last

/-! ## The order -/

/-- The key that an operation has inserted. -/
def insertedKey : DictOp κ ν → DictResult ν → Option κ
  | .insert k _, .inserted true => some k
  | _, _ => none

/-- The keys that have been inserted by some operations, in order. -/
def insertedKeys (ops : List (DictOp κ ν)) (results : List (DictResult ν)) : List κ :=
  (ops.zip results).filterMap fun e => insertedKey e.1 e.2

/-- The keys that the dictionary holds, in the order of their last insertions. -/
def byLastInsertion (d : FifoDict κ ν) (inserted : List κ) : List κ :=
  inserted.dedup.filter fun k => (d.find k).isSome

/-- Of a key that comes again, the last place counts. -/
theorem dedup_append_singleton (l : List κ) (k : κ) :
    (l ++ [k]).dedup = l.dedup.filter (fun a => a ≠ k) ++ [k] := by
  induction l with
  | nil => rfl
  | cons a l ih =>
    rw [List.cons_append]
    by_cases ha : a ∈ l
    · rw [List.dedup_cons_of_mem (List.mem_append_left _ ha), List.dedup_cons_of_mem ha, ih]
    · by_cases hak : a = k
      · rw [List.dedup_cons_of_mem (by simp [hak]), List.dedup_cons_of_notMem ha, ih,
          List.filter_cons_of_neg (by simpa using hak)]
      · rw [List.dedup_cons_of_notMem (by simp [ha, hak]), List.dedup_cons_of_notMem ha, ih,
          List.filter_cons_of_pos (by simpa using hak), List.cons_append]

/-- Erasing a key leaves the others in the order of their insertions. -/
theorem byLastInsertion_erase {inserted : List κ} (h : d.order = d.byLastInsertion inserted) :
    (d.erase k).order = (d.erase k).byLastInsertion inserted := by
  rw [order_erase, d.nodup.erase_eq_filter, h, byLastInsertion, byLastInsertion,
    List.filter_filter]
  refine List.filter_congr fun a _ => ?_
  by_cases ha : a = k
  · simp [ha]
  · simp [ha]

theorem byLastInsertion_ageOut {inserted : List κ} (h : d.order = d.byLastInsertion inserted) :
    (d.ageOut max).order = (d.ageOut max).byLastInsertion inserted := by
  rw [ageOut]
  split
  · exact h
  · split
    · exact byLastInsertion_erase h
    · exact h

/-- A key that is inserted is the youngest. -/
theorem byLastInsertion_push {inserted : List κ} (hk : k ∉ d.order)
    (h : d.order = d.byLastInsertion inserted) :
    (d.push k v hk).order = (d.push k v hk).byLastInsertion (inserted ++ [k]) := by
  have hnone : d.find k = none := by
    rwa [d.mem_order, not_not] at hk
  rw [order_push, byLastInsertion, dedup_append_singleton, List.filter_append,
    List.filter_filter, List.filter_cons_of_pos (by simp), List.filter_nil, h, byLastInsertion]
  refine congrArg (· ++ [k]) (List.filter_congr fun a _ => ?_)
  by_cases ha : a = k
  · simp [ha, hnone]
  · simp [ha]

/-- The step lemma of the order. -/
theorem order_apply {inserted : List κ} (h : d.order = d.byLastInsertion inserted) :
    (d.apply max op).1.order = (d.apply max op).1.byLastInsertion
      (inserted ++ (insertedKey op (d.apply max op).2).toList) := by
  cases op with
  | insert k v =>
    rw [apply]
    by_cases hk : k ∈ d.order
    · rw [insert_of_mem hk]
      simpa [insertedKey] using h
    · rw [insert_of_not_mem hk]
      -- A new key comes behind all others, and has been inserted last.
      have hout : k ∉ (d.ageOut max).order := fun hmem => hk (order_ageOut_subset hmem)
      exact byLastInsertion_push hout (byLastInsertion_ageOut h)
  | erase k => simpa [apply, insertedKey] using byLastInsertion_erase h
  | «at» k f =>
    have hkept : (d.modify k f).order = (d.modify k f).byLastInsertion inserted := by
      rw [order_modify, h, byLastInsertion, byLastInsertion]
      refine List.filter_congr fun a _ => ?_
      by_cases ha : a = k
      · simp [ha]
      · simp [ha]
    simpa [apply, insertedKey] using hkept
  | count k => simpa [apply, insertedKey] using h

/-- Over a run, the order is that of the last insertions that have been made. -/
theorem order_transduce {inserted : List κ} (h : d.order = d.byLastInsertion inserted) :
    (transduce (apply max) d ops).1.order = (transduce (apply max) d ops).1.byLastInsertion
      (inserted ++ insertedKeys ops (transduce (apply max) d ops).2) := by
  induction ops generalizing d inserted with
  | nil => simpa [insertedKeys] using h
  | cons op ops ih =>
    have hcons : insertedKeys (op :: ops) (transduce (apply max) d (op :: ops)).2 =
        (insertedKey op (d.apply max op).2).toList ++
          insertedKeys ops (transduce (apply max) (d.apply max op).1 ops).2 := by
      rw [transduce_cons, insertedKeys, List.zip_cons_cons, List.filterMap_cons]
      cases insertedKey op (d.apply max op).2 <;> rfl
    rw [hcons, ← List.append_assoc]
    exact ih (order_apply h)

/-- The keys are in the order in which they have been inserted last. -/
theorem order_eq : (transduce (apply max) (empty : FifoDict κ ν) ops).1.order =
    (transduce (apply max) (empty : FifoDict κ ν) ops).1.byLastInsertion
      (insertedKeys ops (transduce (apply max) (empty : FifoDict κ ν) ops).2) :=
  @order_transduce _ _ _ .empty max ops [] rfl

end FifoDict

end SysAdmin
