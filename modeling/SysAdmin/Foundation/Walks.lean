import Mathlib.Data.List.Nodup
import Mathlib.Data.List.Perm.Subperm
import Mathlib.Logic.Relation

/-!
# Walks along links

Each element has a link to at most one next element (`next`). A *walk* follows the links
from an element until there is none any more; it may go on forever.

* `walk`: the elements of a walk of so many turns at most, `none` if it has not come to its
  end by then;
* `mem_walk_iff`: a walk that ends goes through all elements that can be reached;
* `exists_walk_isSome_iff`: a walk among finitely many elements ends exactly if no element
  that can be reached can be reached again from itself, and then (`walk_length_isSome`) it
  ends after no more turns than there are elements.
-/

namespace SysAdmin.Walks

open Relation

variable {α : Type*} (next : α → Option α)

/-- There is a link from `a` to `b`. -/
def Link (a b : α) : Prop := next a = some b

/-- The elements of a walk, if it ends after so many turns. -/
def walk : Nat → Option α → Option (List α)
  | _, none => some []
  | 0, some _ => none
  | n + 1, some a => (walk n (next a)).map (a :: ·)

variable {next} {a b c : α} {n m : Nat} {start : Option α} {visited elements : List α}

/-- The walk goes on from every element it comes to. -/
theorem walk_isSome_of_reflTransGen (hab : ReflTransGen (Link next) a b)
    (h : (walk next n (some a)).isSome) : ∃ m, (walk next m (some b)).isSome := by
  induction hab using ReflTransGen.head_induction_on generalizing n with
  | refl => exact ⟨n, h⟩
  | head hlink _ ih =>
    cases n with
    | zero => cases h
    | succ n =>
      rw [walk, Option.isSome_map, show next _ = some _ from hlink] at h
      exact ih h

/-- An element with a walk that ends is not met again. -/
theorem not_transGen_of_walk_isSome (h : (walk next n (some a)).isSome) :
    ¬TransGen (Link next) a a := by
  induction n generalizing a with
  | zero => cases h
  | succ n ih =>
    intro hcycle
    -- The element after `a` is on the cycle as well, and its walk is shorter.
    obtain ⟨b, hlink, hback⟩ := TransGen.head'_iff.1 hcycle
    rw [walk, Option.isSome_map, show next a = some b from hlink] at h
    exact ih h (TransGen.tail' hback hlink)

/-- A walk that ends comes to no cycle. -/
theorem acyclic_of_walk_isSome (h : (walk next n start).isSome) :
    ∀ a ∈ start, ∀ b, ReflTransGen (Link next) a b → ¬TransGen (Link next) b b := by
  rintro a rfl b hab
  obtain ⟨m, hm⟩ := walk_isSome_of_reflTransGen hab h
  exact not_transGen_of_walk_isSome hm

theorem mem_of_link (hstart : ∀ a ∈ start, a ∈ elements)
    (hnext : ∀ a b, Link next a b → b ∈ elements) (ha : a ∈ start)
    (hab : ReflTransGen (Link next) a b) : b ∈ elements := by
  cases ReflTransGen.cases_tail hab with
  | inl heq => exact heq ▸ hstart a ha
  | inr hlast =>
    obtain ⟨c, _, hlink⟩ := hlast
    exact hnext c b hlink

/-- A walk that has not ended, and does not come back to an element, has met one more
    element than it has taken turns. -/
theorem exists_path_of_walk_eq_none (h : walk next n (some a) = none)
    (hacyclic : ∀ b, ReflTransGen (Link next) a b → ¬TransGen (Link next) b b) :
    ∃ path : List α, path.length = n + 1 ∧ path.Nodup ∧
      ∀ b ∈ path, ReflTransGen (Link next) a b := by
  induction n generalizing a with
  | zero =>
    refine ⟨[a], rfl, List.nodup_singleton a, fun b hb => ?_⟩
    rw [List.mem_singleton.1 hb]
  | succ n ih =>
    rw [walk, Option.map_eq_none_iff] at h
    cases hnext : next a with
    | none =>
      rw [hnext, walk] at h
      cases h
    | some c =>
      have hlink : Link next a c := hnext
      rw [hnext] at h
      obtain ⟨path, hlength, hnodup, hpath⟩ := ih h fun b hcb => hacyclic b (.head hlink hcb)
      refine ⟨a :: path, by rw [List.length_cons, hlength], List.nodup_cons.2 ⟨?_, hnodup⟩, ?_⟩
      · -- Meeting `a` again would close a circle.
        intro ha
        exact hacyclic a .refl (TransGen.head' hlink (hpath a ha))
      · intro b hb
        rcases List.mem_cons.1 hb with rfl | hb
        · exact .refl
        · exact .head hlink (hpath b hb)

/-- Among finitely many elements, a walk that does not come back to one ends after so
    many turns. -/
theorem walk_length_isSome (hstart : ∀ a ∈ start, a ∈ elements)
    (hnext : ∀ a b, Link next a b → b ∈ elements)
    (hacyclic : ∀ a ∈ start, ∀ b, ReflTransGen (Link next) a b → ¬TransGen (Link next) b b) :
    (walk next elements.length start).isSome := by
  cases start with
  | none => cases elements.length <;> rfl
  | some a =>
    by_contra hnone
    rw [Option.not_isSome_iff_eq_none] at hnone
    obtain ⟨path, hlength, hnodup, hpath⟩ := exists_path_of_walk_eq_none hnone (hacyclic a rfl)
    have hsubset : path ⊆ elements := fun b hb => mem_of_link hstart hnext rfl (hpath b hb)
    have := (hnodup.subperm hsubset).length_le
    omega

/-- A walk which ends does so after no more turns than there are elements. -/
theorem exists_walk_isSome_iff_length (hstart : ∀ a ∈ start, a ∈ elements)
    (hnext : ∀ a b, Link next a b → b ∈ elements) :
    (∃ n, (walk next n start).isSome) ↔ (walk next elements.length start).isSome :=
  ⟨fun ⟨_, h⟩ => walk_length_isSome hstart hnext (acyclic_of_walk_isSome h), fun h => ⟨_, h⟩⟩

/-- Among finitely many elements, a walk ends exactly if it does not come to a cycle. -/
theorem exists_walk_isSome_iff (hstart : ∀ a ∈ start, a ∈ elements)
    (hnext : ∀ a b, Link next a b → b ∈ elements) :
    (∃ n, (walk next n start).isSome) ↔
      ∀ a ∈ start, ∀ b, ReflTransGen (Link next) a b → ¬TransGen (Link next) b b := by
  constructor
  · rintro ⟨n, h⟩
    exact acyclic_of_walk_isSome h
  · exact fun hacyclic => ⟨elements.length, walk_length_isSome hstart hnext hacyclic⟩

/-- A walk that ends goes through all that can be reached. -/
theorem mem_walk_iff (h : walk next n (some a) = some visited) :
    b ∈ visited ↔ ReflTransGen (Link next) a b := by
  induction n generalizing a visited with
  | zero => cases h
  | succ n ih =>
    obtain ⟨rest, hrest, rfl⟩ := Option.map_eq_some_iff.1 h
    rw [List.mem_cons, ReflTransGen.cases_head_iff, eq_comm]
    refine or_congr_right ?_
    cases hnext : next a with
    | none =>
      rw [hnext, walk] at hrest
      obtain rfl := Option.some.inj hrest
      simp [Link, hnext]
    | some c =>
      rw [hnext] at hrest
      rw [ih hrest]
      simp [Link, hnext]

end SysAdmin.Walks
