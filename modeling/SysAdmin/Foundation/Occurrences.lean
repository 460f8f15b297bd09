import Mathlib.Data.List.Infix

/-!
# Deleting all occurrences of a word

The occurrences of a word in another one are deleted from left to right, those that overlap with
one before left out.

* `deleteAll_append_self`: an occurrence at the start goes;
* `deleteAll_eq_self`: nothing goes if there is no occurrence. Otherwise the rest is shorter
  (`length_deleteAll_lt`).
-/

namespace SysAdmin.Occurrences

variable {α : Type*} [DecidableEq α]

/-- Deletes the occurrences of a word behind some letters that are skipped. -/
def deleteFrom (word : List α) : ℕ → List α → List α
  | _, [] => []
  | skip + 1, _ :: s => deleteFrom word skip s
  | 0, a :: s =>
    if word <+: a :: s then deleteFrom word (word.length - 1) s else a :: deleteFrom word 0 s

/-- Deletes the occurrences of a word. -/
def deleteAll (word s : List α) : List α := deleteFrom word 0 s

variable {word s : List α} {a : α}

theorem deleteFrom_eq (word : List α) (skip : ℕ) (s : List α) :
    deleteFrom word skip s = deleteAll word (s.drop skip) := by
  induction s generalizing skip with
  | nil => rcases skip with _ | skip <;> simp [deleteFrom, deleteAll]
  | cons a s ih =>
    rcases skip with _ | skip
    · rfl
    · rw [deleteFrom, ih, List.drop_succ_cons]

theorem deleteAll_cons : deleteAll word (a :: s) =
    if word <+: a :: s then deleteAll word (s.drop (word.length - 1))
    else a :: deleteAll word s := by
  rw [deleteAll, deleteFrom, deleteFrom_eq]
  rfl

/-- An occurrence at the start is deleted. -/
theorem deleteAll_append_self (hword : word ≠ []) :
    deleteAll word (word ++ s) = deleteAll word s := by
  obtain ⟨a, word, rfl⟩ := List.exists_cons_of_ne_nil hword
  have hpre : a :: word <+: a :: (word ++ s) := List.prefix_append (a :: word) s
  rw [List.cons_append, deleteAll_cons, if_pos hpre, List.length_cons, Nat.add_sub_cancel,
    List.drop_left]

theorem length_deleteAll_le (word s : List α) : (deleteAll word s).length ≤ s.length := by
  induction hn : s.length using Nat.strong_induction_on generalizing s with
  | _ n ih =>
    rcases s with _ | ⟨a, s⟩
    · simp [deleteAll, deleteFrom]
    · rw [deleteAll_cons, List.length_cons] at *
      split
      · have := ih _ (by simp; omega) (s.drop (word.length - 1)) rfl
        simp at this
        omega
      · have := ih s.length (by omega) s rfl
        simp
        omega

theorem deleteAll_eq_self (h : ¬word <:+: s) : deleteAll word s = s := by
  induction s with
  | nil => rfl
  | cons a s ih =>
    rw [List.infix_cons_iff, not_or] at h
    rw [deleteAll_cons, if_neg h.1, ih h.2]

/-- With an occurrence, the rest is shorter. -/
theorem length_deleteAll_lt (hword : word ≠ []) (h : word <:+: s) :
    (deleteAll word s).length < s.length := by
  induction s with
  | nil => exact absurd (List.infix_nil.1 h) hword
  | cons a s ih =>
    rw [deleteAll_cons]
    split
    · have hle := length_deleteAll_le word (s.drop (word.length - 1))
      rw [List.length_drop] at hle
      rw [List.length_cons]
      omega
    · next hpre => exact Nat.succ_lt_succ (ih ((List.infix_cons_iff.1 h).resolve_left hpre))

end SysAdmin.Occurrences
