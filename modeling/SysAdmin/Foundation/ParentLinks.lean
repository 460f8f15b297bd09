import Mathlib.Data.List.Chain
import Mathlib.Data.List.Nodup

/-!
# Records linked to their parents

Records have an id and the id of a parent. A *lineage* (`Lineage`) lists records with
different ids from oldest to youngest: the parent of each is the record just before it,
and the parent of the oldest is none of them.

The records of a lineage may be looked for in any order. Searching for the parent of a
record finds the one before it (`Lineage.foldl_parent`), searching for a child finds the
one after it (`Lineage.foldl_child`), so that only the youngest has none
(`Lineage.foldl_youngest`).
-/

namespace SysAdmin.ParentLinks

/-! ## Looking for the last one -/

section

variable {α : Type*} {a : α} {l : List α} {P : α → Prop} [DecidablePred P]

/-- The last one that meets a condition, if it is met by one only. -/
theorem foldl_eq_some (ha : a ∈ l) (hP : P a) (hu : ∀ b ∈ l, P b → b = a) :
    l.foldl (fun found b => if P b then some b else found) none = some a := by
  induction l using List.reverseRecOn with
  | nil => exact absurd ha List.not_mem_nil
  | append_singleton l last ih =>
    rw [List.foldl_append, List.foldl_cons, List.foldl_nil]
    by_cases hlast : P last
    · rw [if_pos hlast, hu last (by simp) hlast]
    · rw [if_neg hlast]
      refine ih ?_ fun b hb => hu b (List.mem_append_left _ hb)
      rcases List.mem_append.1 ha with ha | ha
      · exact ha
      · rw [List.mem_singleton.1 ha] at hP
        exact absurd hP hlast

theorem foldl_eq_none (h : ∀ b ∈ l, ¬P b) :
    l.foldl (fun found b => if P b then some b else found) none = none := by
  induction l using List.reverseRecOn with
  | nil => rfl
  | append_singleton l last ih =>
    rw [List.foldl_append, List.foldl_cons, List.foldl_nil, if_neg (h last (by simp))]
    exact ih fun b hb => h b (List.mem_append_left _ hb)

/-- What is found is in the list, and meets the condition. -/
theorem of_foldl_eq_some
    (h : l.foldl (fun found b => if P b then some b else found) none = some a) :
    a ∈ l ∧ P a := by
  induction l using List.reverseRecOn with
  | nil => cases h
  | append_singleton l last ih =>
    rw [List.foldl_append, List.foldl_cons, List.foldl_nil] at h
    split at h
    · next hlast =>
      obtain rfl := Option.some.inj h
      exact ⟨by simp, hlast⟩
    · exact ⟨List.mem_append_left _ (ih h).1, (ih h).2⟩

end

/-! ## Lineages -/

variable {α ι : Type*}

/-- From oldest to youngest, each record has the one before it as its parent. -/
structure Lineage (id parent : α → ι) (l : List α) : Prop where
  nodup : (l.map id).Nodup
  linked : l.IsChain fun a b => parent b = id a
  /-- The parent of the oldest record is none of them. -/
  rooted : ∀ a ∈ l.head?, ∀ b ∈ l, id b ≠ parent a

namespace Lineage

variable {id parent : α → ι} {l pre post records : List α} {a b : α}

theorem eq_of_id_eq (h : Lineage id parent l) (ha : a ∈ l) (hb : b ∈ l) (hid : id a = id b) :
    a = b :=
  List.inj_on_of_nodup_map h.nodup ha hb hid

/-- A record is in one place only. -/
theorem split_unique {pre' post' : List α} (h : Lineage id parent (pre ++ a :: post))
    (hsplit : pre ++ a :: post = pre' ++ b :: post') (hid : id b = id a) :
    pre = pre' ∧ a = b ∧ post = post' := by
  obtain rfl : b = a := h.eq_of_id_eq (by rw [hsplit]; simp) (by simp) hid
  have hnodup := h.nodup.of_map
  rw [List.nodup_append, List.nodup_cons] at hnodup
  have hpre : b ∉ pre := fun hb => hnodup.2.2 b hb b List.mem_cons_self rfl
  exact (List.append_cons_inj_of_notMem hpre hnodup.2.1.1).1 hsplit

/-- The record with the parent of another one is just before it. -/
theorem getLast?_eq_some_iff (h : Lineage id parent (pre ++ a :: post))
    (hb : b ∈ pre ++ a :: post) : pre.getLast? = some b ↔ id b = parent a := by
  rcases List.eq_nil_or_concat' pre with rfl | ⟨pre, last, rfl⟩
  · simpa using h.rooted a (by simp) b hb
  · have hparent : parent a = id last := by
      have hlinked := h.linked
      rw [List.append_assoc, List.singleton_append, List.isChain_append_cons_cons] at hlinked
      exact hlinked.2.1
    rw [List.getLast?_concat, Option.some.injEq, hparent]
    constructor
    · rintro rfl
      rfl
    · exact fun hid => h.eq_of_id_eq (by simp) hb hid.symm

/-- A record whose parent is another one is just after it. -/
theorem head?_eq_some_iff (h : Lineage id parent (pre ++ a :: post))
    (hb : b ∈ pre ++ a :: post) : post.head? = some b ↔ parent b = id a := by
  constructor
  · intro hhead
    obtain ⟨post, rfl⟩ := List.head?_eq_some_iff.1 hhead
    exact (List.isChain_append_cons_cons.1 h.linked).2.1
  · intro hparent
    -- The record before `b` has the id of `a`, so it is `a`, which is in one place only.
    obtain ⟨pre', post', hsplit⟩ := List.append_of_mem hb
    have hbefore : pre'.getLast? = some a := by
      have ha : a ∈ pre' ++ b :: post' := by
        rw [← hsplit]
        simp
      refine (getLast?_eq_some_iff ?_ ha).2 hparent.symm
      rwa [← hsplit]
    obtain ⟨pre', rfl⟩ := List.getLast?_eq_some_iff.1 hbefore
    rw [List.append_assoc, List.singleton_append] at hsplit
    rw [(h.split_unique hsplit rfl).2.2, List.head?_cons]

variable [DecidableEq ι]

/-- Of the records in any order, the parent of one is the one before it. -/
theorem foldl_parent (h : Lineage id parent (pre ++ a :: post))
    (hp : records.Perm (pre ++ a :: post)) :
    records.foldl (fun found b => if id b = parent a then some b else found) none =
      pre.getLast? := by
  cases hlast : pre.getLast? with
  | none =>
    refine foldl_eq_none fun b hb hid => ?_
    rw [(h.getLast?_eq_some_iff (hp.subset hb)).2 hid] at hlast
    cases hlast
  | some last =>
    have hmem : last ∈ pre ++ a :: post := List.mem_append_left _ (List.mem_of_getLast? hlast)
    refine foldl_eq_some (hp.mem_iff.2 hmem) ((h.getLast?_eq_some_iff hmem).1 hlast)
      fun b hb hid => ?_
    rw [(h.getLast?_eq_some_iff (hp.subset hb)).2 hid] at hlast
    exact Option.some.inj hlast

/-- Of the records in any order, the child of one is the one after it. -/
theorem foldl_child (h : Lineage id parent (pre ++ a :: post))
    (hp : records.Perm (pre ++ a :: post)) :
    records.foldl (fun found b => if parent b = id a then some b else found) none =
      post.head? := by
  cases hhead : post.head? with
  | none =>
    refine foldl_eq_none fun b hb hid => ?_
    rw [(h.head?_eq_some_iff (hp.subset hb)).2 hid] at hhead
    cases hhead
  | some first =>
    have hmem : first ∈ pre ++ a :: post :=
      List.mem_append_right _ (List.mem_cons_of_mem _ (List.mem_of_head? hhead))
    refine foldl_eq_some (hp.mem_iff.2 hmem) ((h.head?_eq_some_iff hmem).1 hhead)
      fun b hb hid => ?_
    rw [(h.head?_eq_some_iff (hp.subset hb)).2 hid] at hhead
    exact Option.some.inj hhead

/-- The only record without a child is the youngest one. -/
theorem foldl_youngest (h : Lineage id parent l) (hp : records.Perm l) :
    records.foldl (fun found a =>
      if (records.foldl (fun found b => if parent b = id a then some b else found) none).isNone
        then some a else found) none = l.getLast? := by
  rcases List.eq_nil_or_concat' l with rfl | ⟨pre, last, rfl⟩
  · rw [List.perm_nil.1 hp]
    rfl
  · rw [List.getLast?_concat]
    refine foldl_eq_some (hp.mem_iff.2 (by simp)) ?_ fun a ha hchild => ?_
    · rw [h.foldl_child hp]
      rfl
    · obtain ⟨pre', post', hsplit⟩ := List.append_of_mem (hp.subset ha)
      rw [hsplit] at h hp
      rw [h.foldl_child hp, Option.isNone_iff_eq_none, List.head?_eq_none_iff] at hchild
      rw [hchild] at hsplit
      exact (List.append_singleton_inj.1 hsplit).2.symm

end Lineage

end SysAdmin.ParentLinks
