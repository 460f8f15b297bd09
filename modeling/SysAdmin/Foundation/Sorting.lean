import Mathlib.Data.List.Sort

/-!
# Sorting by keys that may fail

Elements are sorted by keys (`sortBy`), and finding out the key of an element may fail. Each
comparison asks for the keys of both elements.

* `sortBy_eq_ok`: where all elements have keys, this is sorting by them;
* `exists_sortBy_eq_ok_iff`: otherwise sorting fails, unless there is nothing to compare;
* `sortBy_spec`: what has been sorted is in the order of the keys.
-/

namespace SysAdmin.Sorting

variable {α κ ε : Type} [LinearOrder κ] (key : α → Except ε κ)

/-- Whether the key of `a` is less than the one of `b`. -/
def less (a b : α) : Except ε Bool := do
  let k ← key a
  let k' ← key b
  return decide (k < k')

/-- Puts an element before the first one that has not a lower key. -/
def insertBy (a : α) : List α → Except ε (List α)
  | [] => .ok [a]
  | b :: l => do
    if ← less key b a then
      let rest ← insertBy a l
      return b :: rest
    else return a :: b :: l

/-- Puts the elements in the order of their keys. -/
def sortBy : List α → Except ε (List α)
  | [] => .ok []
  | a :: l => do
    let sorted ← sortBy l
    insertBy key a sorted

/-- A computation that goes on after another one succeeds if both do. -/
theorem bind_eq_ok {β γ : Type} {x : Except ε β} {f : β → Except ε γ} {c : γ} :
    x >>= f = .ok c ↔ ∃ b, x = .ok b ∧ f b = .ok c := by
  cases x with
  | error e =>
    refine iff_of_false nofun ?_
    rintro ⟨b, hb, _⟩
    cases hb
  | ok b =>
    refine ⟨fun h => ⟨b, rfl, h⟩, ?_⟩
    rintro ⟨b', hb, h⟩
    cases hb
    exact h

variable {key} {a b : α} {l sorted : List α} {k : α → κ}

theorem less_eq_ok (ha : key a = .ok (k a)) (hb : key b = .ok (k b)) :
    less key a b = .ok (decide (k a < k b)) := by
  rw [less, ha, hb]
  rfl

theorem exists_keys_of_less {r : Bool} (h : less key a b = .ok r) :
    (∃ k, key a = .ok k) ∧ ∃ k, key b = .ok k := by
  obtain ⟨k, hk, h⟩ := bind_eq_ok.1 h
  obtain ⟨k', hk', _⟩ := bind_eq_ok.1 h
  exact ⟨⟨k, hk⟩, k', hk'⟩

theorem insertBy_eq_ok (ha : key a = .ok (k a)) (hl : ∀ b ∈ l, key b = .ok (k b)) :
    insertBy key a l = .ok (l.orderedInsert (fun b c => k b ≤ k c) a) := by
  induction l with
  | nil => rfl
  | cons b l ih =>
    rw [insertBy, less_eq_ok (hl b List.mem_cons_self) ha, List.orderedInsert_cons]
    by_cases hlt : k b < k a
    · rw [if_neg hlt.not_ge]
      simp only [hlt, decide_true, bind, Except.bind, if_true,
        ih fun c hc => hl c (List.mem_cons_of_mem _ hc)]
      rfl
    · rw [if_pos (not_lt.1 hlt)]
      simp only [hlt, decide_false, bind, Except.bind]
      rfl

/-- Where all keys are known, the elements are sorted by them. -/
theorem sortBy_eq_ok (hl : ∀ a ∈ l, key a = .ok (k a)) :
    sortBy key l = .ok (l.insertionSort fun a b => k a ≤ k b) := by
  induction l with
  | nil => rfl
  | cons a l ih =>
    rw [sortBy, ih fun b hb => hl b (List.mem_cons_of_mem _ hb), List.insertionSort_cons]
    refine insertBy_eq_ok (hl a List.mem_cons_self) fun b hb => hl b (List.mem_cons_of_mem _ ?_)
    exact (List.perm_insertionSort _ l).mem_iff.1 hb

/-- What is inserted is compared, if there is something to compare it with. -/
theorem exists_keys_of_insertBy (h : insertBy key a (b :: l) = .ok sorted) :
    (∃ k, key a = .ok k) ∧ ∃ k, key b = .ok k := by
  obtain ⟨r, hless, _⟩ := bind_eq_ok.1 h
  exact (exists_keys_of_less hless).symm

theorem length_insertBy (h : insertBy key a l = .ok sorted) : sorted.length = l.length + 1 := by
  induction l generalizing sorted with
  | nil =>
    obtain rfl := Except.ok.inj h
    rfl
  | cons b l ih =>
    obtain ⟨r, _, h⟩ := bind_eq_ok.1 h
    split at h
    · obtain ⟨rest, hrest, h⟩ := bind_eq_ok.1 h
      rw [← Except.ok.inj h, List.length_cons, ih hrest, List.length_cons]
    · rw [← Except.ok.inj h, List.length_cons]

theorem length_sortBy (h : sortBy key l = .ok sorted) : sorted.length = l.length := by
  induction l generalizing sorted with
  | nil =>
    obtain rfl := Except.ok.inj h
    rfl
  | cons a l ih =>
    obtain ⟨rest, hrest, h⟩ := bind_eq_ok.1 h
    rw [length_insertBy h, ih hrest, List.length_cons]

/-- Of several elements each is compared. -/
theorem exists_keys_of_sortBy (h : sortBy key l = .ok sorted) (hl : 2 ≤ l.length) :
    ∀ a ∈ l, ∃ k, key a = .ok k := by
  induction l generalizing sorted with
  | nil => exact fun a ha => absurd ha List.not_mem_nil
  | cons a l ih =>
    obtain ⟨rest, hrest, h⟩ := bind_eq_ok.1 h
    have hlength := length_sortBy hrest
    rcases rest with _ | ⟨b, rest⟩
    · rw [List.length_cons, ← hlength] at hl
      simp at hl
    obtain ⟨ha, hb⟩ := exists_keys_of_insertBy h
    rcases l with _ | ⟨c, _ | ⟨d, l⟩⟩
    · cases hlength
    · -- Two elements, compared with each other.
      obtain ⟨rfl, rfl⟩ : c = b ∧ rest = [] := by
        simpa [sortBy, insertBy, bind, Except.bind] using hrest
      intro x hx
      rcases List.mem_cons.1 hx with rfl | hx
      · exact ha
      · rw [List.mem_singleton.1 hx]
        exact hb
    · -- At least two of the others are left, and these are compared among themselves.
      intro x hx
      rcases List.mem_cons.1 hx with rfl | hx
      · exact ha
      · exact ih hrest (by simp) x hx

/-- Sorting fails exactly if there are several elements and the key of one of them is not
    known. -/
theorem exists_sortBy_eq_ok_iff :
    (∃ sorted, sortBy key l = .ok sorted) ↔ l.length ≤ 1 ∨ ∀ a ∈ l, ∃ k, key a = .ok k := by
  constructor
  · rintro ⟨sorted, h⟩
    rcases Nat.lt_or_ge 1 l.length with hl | hl
    · exact .inr (exists_keys_of_sortBy h hl)
    · exact .inl hl
  · intro hl
    rcases l with _ | ⟨a, _ | ⟨b, l⟩⟩
    · exact ⟨[], rfl⟩
    · exact ⟨[a], rfl⟩
    · have hkeys := hl.resolve_left (by simp)
      have : Nonempty κ := (hkeys a List.mem_cons_self).nonempty
      choose! k hk using hkeys
      exact ⟨_, sortBy_eq_ok hk⟩

/-- What has been sorted is in the order of the keys. -/
theorem sortBy_spec (h : sortBy key l = .ok sorted) : sorted.Perm l ∧
    sorted.Pairwise fun a b => ∀ k k', key a = .ok k → key b = .ok k' → k ≤ k' := by
  rcases l with _ | ⟨a, _ | ⟨b, l⟩⟩
  · obtain rfl := Except.ok.inj h
    exact ⟨.refl _, .nil⟩
  · obtain rfl := Except.ok.inj h
    exact ⟨.refl _, List.pairwise_singleton _ _⟩
  · have hkeys := exists_keys_of_sortBy h (by simp)
    have : Nonempty κ := (hkeys a List.mem_cons_self).nonempty
    choose! k hk using hkeys
    rw [sortBy_eq_ok hk] at h
    obtain rfl := Except.ok.inj h
    have hperm := List.perm_insertionSort (fun a b => k a ≤ k b) (a :: b :: l)
    refine ⟨hperm, (List.pairwise_insertionSort (fun a b => k a ≤ k b) _).imp_of_mem ?_⟩
    intro x y hx hy hle i j hi hj
    rw [hk x (hperm.mem_iff.1 hx), Except.ok.injEq] at hi
    rw [hk y (hperm.mem_iff.1 hy), Except.ok.injEq] at hj
    rwa [← hi, ← hj]

end SysAdmin.Sorting
