import Mathlib.Data.List.Find
import Mathlib.Data.Set.Basic
import SysAdmin.Foundation.Transducers

/-!
# Maps that tell keys apart by a test

A map need not compare its keys by equality: two keys have one entry if they pass a test, be it
that neither is before the other in an order or that they are found equal in one bucket.

* `KeyedMap`: a map with its test, so that no two of its entries pass it;
* `KeyedMap.apply`: an operation on a map, and what is found under its key;
* `KeyedMap.agreeOn_iff`: maps with two tests are the same, along all runs of operations on some
  keys, if and only if the tests agree on these keys.
-/

namespace SysAdmin

open Machine

/-- A map, as a list of entries whose keys are told apart by `same`. -/
structure KeyedMap {κ : Type*} (same : κ → κ → Bool) (ν : Type*) where
  entries : List (κ × ν)
  distinct : entries.Pairwise fun e e' => same e.1 e'.1 = false

/-- An operation. To emplace a value leaves the one that is there, to assign it does not. -/
inductive MapOp (κ ν : Type*)
  | find (key : κ)
  | emplace (key : κ) (value : ν)
  | assign (key : κ) (value : ν)
  | erase (key : κ)

/-- The key of an operation. -/
def MapOp.key {κ ν : Type*} : MapOp κ ν → κ
  | .find k | .emplace k _ | .assign k _ | .erase k => k

namespace KeyedMap

variable {κ ν : Type*} {same same' : κ → κ → Bool}

/-- The map without entries. -/
def empty : KeyedMap same ν := ⟨[], List.Pairwise.nil⟩

/-- The value under a key. -/
def find? (m : KeyedMap same ν) (k : κ) : Option ν :=
  (m.entries.find? fun e => same e.1 k).map Prod.snd

/-- Changes the value under a key. -/
def modify (m : KeyedMap same ν) (k : κ) (v : ν) : KeyedMap same ν where
  entries := m.entries.map fun e => if same e.1 k then (e.1, v) else e
  distinct := by
    rw [List.pairwise_map]
    refine m.distinct.imp fun h => ?_
    split <;> split <;> exact h

/-- Adds a value under a key that has none. -/
def push (m : KeyedMap same ν) (k : κ) (v : ν) (h : m.find? k = none) : KeyedMap same ν where
  entries := m.entries ++ [(k, v)]
  distinct := by
    rw [find?, Option.map_eq_none_iff, List.find?_eq_none] at h
    rw [List.pairwise_append]
    refine ⟨m.distinct, List.pairwise_singleton _ _, fun e he e' he' => ?_⟩
    rw [List.mem_singleton.1 he']
    exact Bool.eq_false_of_not_eq_true (h e he)

/-- Removes the value under a key. -/
def erase (m : KeyedMap same ν) (k : κ) : KeyedMap same ν where
  entries := m.entries.filter fun e => !same e.1 k
  distinct := m.distinct.filter _

/-- Adds a value, unless there is one under the key. -/
def emplace (m : KeyedMap same ν) (k : κ) (v : ν) : KeyedMap same ν :=
  if h : m.find? k = none then m.push k v h else m

/-- Adds a value, in the place of the one under the key. -/
def assign (m : KeyedMap same ν) (k : κ) (v : ν) : KeyedMap same ν :=
  if h : m.find? k = none then m.push k v h else m.modify k v

/-- Does an operation, and returns what has been under its key before it. -/
def apply (m : KeyedMap same ν) (op : MapOp κ ν) : KeyedMap same ν × Option ν :=
  (match op with
    | .find _ => m
    | .emplace k v => m.emplace k v
    | .assign k v => m.assign k v
    | .erase k => m.erase k,
  m.find? op.key)

@[simp] theorem entries_modify (m : KeyedMap same ν) (k : κ) (v : ν) :
    (m.modify k v).entries = m.entries.map fun e => if same e.1 k then (e.1, v) else e := rfl

@[simp] theorem entries_push (m : KeyedMap same ν) (k : κ) (v : ν) (h : m.find? k = none) :
    (m.push k v h).entries = m.entries ++ [(k, v)] := rfl

@[simp] theorem entries_erase (m : KeyedMap same ν) (k : κ) :
    (m.erase k).entries = m.entries.filter fun e => !same e.1 k := rfl

/-! ## Maps with two tests -/

/-- Two maps have the same entries, and only keys of `K`. -/
structure Alike (K : Set κ) (m : KeyedMap same ν) (m' : KeyedMap same' ν) : Prop where
  entries_eq : m.entries = m'.entries
  mem_keys : ∀ e ∈ m.entries, e.1 ∈ K

namespace Alike

variable {K : Set κ} {m : KeyedMap same ν} {m' : KeyedMap same' ν} {k : κ} {v : ν}

theorem empty : Alike K (empty : KeyedMap same ν) (empty : KeyedMap same' ν) :=
  ⟨rfl, fun _ he => absurd he List.not_mem_nil⟩

theorem push (h : Alike K m m') (hk : k ∈ K) (hm : m.find? k = none) (hm' : m'.find? k = none) :
    Alike K (m.push k v hm) (m'.push k v hm') where
  entries_eq := by rw [entries_push, entries_push, h.entries_eq]
  mem_keys e he := by
    rcases List.mem_append.1 he with he | he
    · exact h.mem_keys e he
    · rwa [List.mem_singleton.1 he]

variable (hsame : ∀ k ∈ K, ∀ l ∈ K, same k l = same' k l)

include hsame

theorem find? (h : Alike K m m') (hk : k ∈ K) : m.find? k = m'.find? k := by
  rw [KeyedMap.find?, KeyedMap.find?, ← h.entries_eq]
  rw [List.find?_congr fun e he => hsame e.1 (h.mem_keys e he) k hk]

theorem modify (h : Alike K m m') (hk : k ∈ K) : Alike K (m.modify k v) (m'.modify k v) where
  entries_eq := by
    rw [entries_modify, entries_modify, ← h.entries_eq]
    exact List.map_congr_left fun e he => by rw [hsame e.1 (h.mem_keys e he) k hk]
  mem_keys e he := by
    obtain ⟨e', he', rfl⟩ := List.mem_map.1 he
    split
    · exact h.mem_keys e' he'
    · exact h.mem_keys e' he'

theorem erase (h : Alike K m m') (hk : k ∈ K) : Alike K (m.erase k) (m'.erase k) where
  entries_eq := by
    rw [entries_erase, entries_erase, ← h.entries_eq]
    exact List.filter_congr fun e he => by rw [hsame e.1 (h.mem_keys e he) k hk]
  mem_keys e he := h.mem_keys e (List.mem_of_mem_filter he)

/-- Both maps add the value, or none does. -/
theorem push_or (h : Alike K m m') (hk : k ∈ K) {r : KeyedMap same ν} {r' : KeyedMap same' ν}
    (hr : Alike K r r') : Alike K (if hm : m.find? k = none then m.push k v hm else r)
      (if hm' : m'.find? k = none then m'.push k v hm' else r') := by
  have hfind := h.find? hsame hk
  split
  · next hm =>
    rw [dif_pos (hfind.symm.trans hm)]
    exact h.push hk hm _
  · next hm =>
    rw [dif_neg (hfind ▸ hm)]
    exact hr

/-- The step lemma: an operation on a key of `K` keeps two maps alike and returns the same. -/
theorem apply (h : Alike K m m') {op : MapOp κ ν} (hop : op.key ∈ K) :
    Alike K (m.apply op).1 (m'.apply op).1 ∧ (m.apply op).2 = (m'.apply op).2 := by
  refine ⟨?_, h.find? hsame hop⟩
  cases op with
  | find k => exact h
  | emplace k v => exact h.push_or hsame hop h
  | assign k v => exact h.push_or hsame hop (h.modify hsame hop)
  | erase k => exact h.erase hsame hop

end Alike

/-- The maps with two tests are the same for the keys of `K`: runs of operations on these keys
    lead to the same entries and return the same. -/
def AgreeOn (same same' : κ → κ → Bool) (K : Set κ) : Prop :=
  ∀ {ν : Type} (ops : List (MapOp κ ν)), (∀ op ∈ ops, op.key ∈ K) →
    (transduce apply (empty : KeyedMap same ν) ops).1.entries =
        (transduce apply (empty : KeyedMap same' ν) ops).1.entries ∧
      (transduce apply (empty : KeyedMap same ν) ops).2 =
        (transduce apply (empty : KeyedMap same' ν) ops).2

variable {K : Set κ}

theorem agreeOn_of_forall (hsame : ∀ k ∈ K, ∀ l ∈ K, same k l = same' k l) :
    AgreeOn same same' K := by
  intro ν ops hops
  have hempty : Alike K (empty : KeyedMap same ν) (empty : KeyedMap same' ν) := .empty
  have hstep (m : KeyedMap same ν) (m' : KeyedMap same' ν) (op : MapOp κ ν) (h : Alike K m m')
      (hop : op.key ∈ K) := h.apply hsame hop
  obtain ⟨halike, hresults⟩ := transduce_of_simulation hempty hstep (guarded_iff_forall_mem.2 hops)
  exact ⟨halike.entries_eq, hresults⟩

/-- The run that shows the test: what has been added under a key is looked for under another
    one. -/
theorem results_assign_find (k l : κ) :
    (transduce apply (empty : KeyedMap same Unit) [.assign k (), .find l]).2 =
      [none, if same k l then some () else none] := by
  have hentries : ((empty : KeyedMap same Unit).assign k ()).entries = [(k, ())] := rfl
  have hfind : ((empty : KeyedMap same Unit).assign k ()).find? l =
      if same k l then some () else none := by
    rw [find?, hentries, List.find?_singleton]
    split <;> rfl
  rw [transduce_cons, transduce_cons, transduce_nil]
  exact congrArg (fun o => [none, o]) hfind

/-- Maps with two tests are the same for some keys if and only if the tests are. -/
theorem agreeOn_iff :
    AgreeOn same same' K ↔ ∀ k ∈ K, ∀ l ∈ K, same k l = same' k l := by
  refine ⟨fun h k hk l hl => ?_, agreeOn_of_forall⟩
  have hresults := (h [.assign k (), .find l] (by simp [MapOp.key, hk, hl])).2
  rw [results_assign_find, results_assign_find] at hresults
  cases hkl : same k l <;> cases hkl' : same' k l <;> simp [hkl, hkl'] at hresults ⊢

end KeyedMap

end SysAdmin
