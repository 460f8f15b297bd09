import Mathlib.Data.List.Basic
import Mathlib.Data.List.Infix
import Mathlib.Data.List.TakeDrop

/-!
# Slices of slices

A list is cut again and again: its first element goes, or its last one, or all others
(`Cut`).

* `cutAll_of_not_mem`: cuts at the ends leave a slice of the list;
* `cutAll_eq_singleton_iff`: which cuts leave a single element, and which one it is.
-/

namespace SysAdmin.Slices

/-- A cut: to the elements behind the first one, to those before the last one or to the
    last one. -/
inductive Cut
  | tail
  | init
  | last
  deriving DecidableEq

variable {α : Type*}

/-- A list after a cut. -/
def Cut.apply (l : List α) : Cut → List α
  | tail => l.tail
  | init => l.dropLast
  | last => l.getLast?.toList

/-- A list after some cuts. -/
def cutAll (cuts : List Cut) (l : List α) : List α := cuts.foldl Cut.apply l

variable {cuts ends : List Cut} {l : List α} {a x : α} {n : ℕ}

theorem cutAll_cons {c : Cut} : cutAll (c :: cuts) l = cutAll cuts (c.apply l) := rfl

theorem cutAll_append : cutAll (ends ++ cuts) l = cutAll cuts (cutAll ends l) :=
  List.foldl_append

@[simp] theorem cutAll_nil : cutAll cuts ([] : List α) = [] := by
  induction cuts with
  | nil => rfl
  | cons c cuts ih => cases c <;> exact ih

theorem mem_of_mem_apply {c : Cut} (h : a ∈ c.apply l) : a ∈ l := by
  cases c with
  | tail => exact List.mem_of_mem_tail h
  | init => exact List.mem_of_mem_dropLast h
  | last => exact List.mem_of_getLast? (Option.mem_toList.1 h)

/-- From one element at most, only cuts to the last one leave an element. -/
theorem cutAll_toList_eq_singleton_iff {o : Option α} :
    cutAll cuts o.toList = [a] ↔ o = some a ∧ ∀ c ∈ cuts, c = .last := by
  cases o with
  | none => simp
  | some x =>
    induction cuts with
    | nil => simp [cutAll]
    | cons c cuts ih =>
      rw [cutAll_cons]
      cases c with
      | tail | init => simp [Cut.apply]
      | last => simpa [Cut.apply] using ih

/-! ## Cuts at the ends -/

/-- Cuts at the ends leave a slice. -/
theorem cutAll_of_not_mem (h : Cut.last ∉ ends) :
    cutAll ends l = (l.drop (ends.count .tail)).take (l.length - ends.length) := by
  induction ends generalizing l with
  | nil => simp [cutAll]
  | cons c ends ih =>
    rw [List.mem_cons, not_or] at h
    have hcount : ends.count .tail ≤ ends.length := List.count_le_length
    rw [cutAll_cons, ih h.2]
    cases c with
    | tail =>
      have hlength : l.length - 1 - ends.length = l.length - (ends.length + 1) := by omega
      rw [Cut.apply, List.count_cons_self, List.length_tail, List.length_cons, hlength,
        ← List.drop_one, List.drop_drop, Nat.add_comm 1]
    | init =>
      have hmin : min (l.length - 1 - ends.length) (l.length - 1 - ends.count .tail) =
          l.length - (ends.length + 1) := by omega
      rw [Cut.apply, List.count_cons_of_ne (by decide), List.length_dropLast, List.length_cons,
        List.dropLast_eq_take, List.drop_take, List.take_take, hmin]
    | last => exact absurd rfl h.1

theorem length_eq_count_add_count (h : Cut.last ∉ ends) :
    ends.length = ends.count .tail + ends.count .init := by
  induction ends with
  | nil => rfl
  | cons c ends ih =>
    rw [List.mem_cons, not_or] at h
    rw [List.length_cons, ih h.2]
    cases c with
    | tail => rw [List.count_cons_self, List.count_cons_of_ne (by decide)]; omega
    | init => rw [List.count_cons_self, List.count_cons_of_ne (by decide)]; omega
    | last => exact absurd rfl h.1

theorem length_cutAll (h : Cut.last ∉ ends) :
    (cutAll ends l).length = l.length - ends.length := by
  have hcount : ends.count .tail ≤ ends.length := List.count_le_length
  rw [cutAll_of_not_mem h, List.length_take, List.length_drop]
  omega

/-- The last element left is the one before those cut off at the end. -/
theorem getLast?_cutAll_eq_some_iff (h : Cut.last ∉ ends) :
    (cutAll ends l).getLast? = some a ↔
      ends.length < l.length ∧ l[l.length - 1 - ends.count .init]? = some a := by
  have hcount := length_eq_count_add_count h
  rw [List.getLast?_eq_getElem?, length_cutAll h, cutAll_of_not_mem h]
  by_cases hlt : ends.length < l.length
  · have hindex : ends.count .tail + (l.length - ends.length - 1) =
        l.length - 1 - ends.count .init := by omega
    rw [List.getElem?_take_of_lt (by omega), List.getElem?_drop, hindex]
    exact (and_iff_right hlt).symm
  · have hnil : l.length - ends.length = 0 := by omega
    simp [hnil, hlt]

/-! ## Single elements -/

/-- Cuts that leave the single element `a`: after cuts at the ends, either no other element is
    left, or the last one is picked, perhaps repeatedly. -/
def Leaves (a : α) (cuts : List Cut) (l : List α) : Prop :=
  ∃ ends n, cuts = ends ++ List.replicate n .last ∧ .last ∉ ends ∧
    ends.length < l.length ∧ (n = 0 → ends.length + 1 = l.length) ∧
    l[l.length - 1 - ends.count .init]? = some a

theorem eq_singleton_iff_getLast? : l = [a] ↔ l.length = 1 ∧ l.getLast? = some a := by
  constructor
  · rintro rfl
    exact ⟨rfl, rfl⟩
  · rintro ⟨hlength, ha⟩
    obtain ⟨x, rfl⟩ := List.length_eq_one_iff.1 hlength
    have hx : x = a := Option.some.inj ha
    rw [hx]

/-- Which cuts leave a single element. -/
theorem cutAll_eq_singleton_iff : cutAll cuts l = [a] ↔ Leaves a cuts l := by
  constructor
  · intro h
    by_cases hmem : Cut.last ∈ cuts
    · -- From the first cut to the last element on, there is one element at most.
      obtain ⟨ends, rest, rfl, hends⟩ := List.eq_append_cons_of_mem hmem
      rw [cutAll_append, cutAll_cons, Cut.apply, cutAll_toList_eq_singleton_iff,
        getLast?_cutAll_eq_some_iff hends] at h
      obtain ⟨⟨hlt, ha⟩, hrest⟩ := h
      refine ⟨ends, rest.length + 1, ?_, hends, hlt, fun h0 => absurd h0 (by simp), ha⟩
      rw [List.replicate_succ, ← List.eq_replicate_of_mem hrest]
    · rw [eq_singleton_iff_getLast?, length_cutAll hmem, getLast?_cutAll_eq_some_iff hmem] at h
      obtain ⟨hlength, hlt, ha⟩ := h
      exact ⟨cuts, 0, (List.append_nil cuts).symm, hmem, hlt, fun _ => by omega, ha⟩
  · rintro ⟨ends, n, rfl, hends, hlt, hlength, ha⟩
    have hlast := (getLast?_cutAll_eq_some_iff hends).2 ⟨hlt, ha⟩
    rw [cutAll_append]
    -- Without cuts down to the last element, the ends alone must leave one.
    cases n with
    | zero =>
      have hone : l.length - ends.length = 1 := by rw [← hlength rfl]; omega
      exact eq_singleton_iff_getLast?.2 ⟨(length_cutAll hends).trans hone, hlast⟩
    | succ n =>
      rw [List.replicate_succ, cutAll_cons, Cut.apply, cutAll_toList_eq_singleton_iff]
      exact ⟨hlast, fun c hc => List.eq_of_mem_replicate hc⟩

/-- Which cuts leave a single element does not depend on how the elements are written. -/
theorem leaves_map_iff {β : Type*} {f : α → β} (hf : Function.Injective f) :
    Leaves (f a) cuts (l.map f) ↔ Leaves a cuts l := by
  simp [Leaves, List.getElem?_map, Option.map_eq_some_iff, hf.eq_iff]

end SysAdmin.Slices
