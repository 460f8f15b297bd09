import Mathlib.Data.List.Basic
import Mathlib.Data.List.Nodup
import Mathlib.Logic.Function.Basic

/-!
# Lists of writes

A write is a key with what it gets, and a list of writes is applied in order, so
that of the writes to a key only the last one counts:

* `lastWrite k ws`: what the writes `ws` leave at `k`, if they touch it;
* `overlay ws σ`: the store `σ` after the writes `ws`. A store over the keys `κ` is
  a partial map `κ → Option ν`, and writing `none` to a key removes it.

`overlay_append_eq_iff` says when writes made before others, which may rewrite
some of the same keys, leave no trace of their own.
-/

namespace SysAdmin.Writes

variable {κ β ν : Type*} [DecidableEq κ]

/-- The last write to `k`, if there is one. -/
def lastWrite (k : κ) : List (κ × β) → Option β
  | [] => none
  | w :: ws => (lastWrite k ws).or (if w.1 = k then some w.2 else none)

/-- The store after the writes. -/
def overlay (ws : List (κ × Option ν)) (σ : κ → Option ν) : κ → Option ν :=
  fun k => (lastWrite k ws).getD (σ k)

section lastWrite

variable {k : κ} {v : β} {ws ws' : List (κ × β)}

@[simp] theorem lastWrite_nil : lastWrite k ([] : List (κ × β)) = none := rfl

/-- Later writes count. -/
theorem lastWrite_append : lastWrite k (ws ++ ws') = (lastWrite k ws').or (lastWrite k ws) := by
  induction ws with
  | nil => simp
  | cons w ws ih => simp [lastWrite, ih, Option.or_assoc]

theorem lastWrite_eq_none_iff : lastWrite k ws = none ↔ ∀ w ∈ ws, w.1 ≠ k := by
  induction ws with
  | nil => simp
  | cons w ws ih =>
    by_cases hk : w.1 = k <;> simp [lastWrite, hk, ih]

theorem mem_of_lastWrite_eq_some (h : lastWrite k ws = some v) : (k, v) ∈ ws := by
  induction ws with
  | nil => cases h
  | cons w ws ih =>
    rw [lastWrite, Option.or_eq_some_iff] at h
    rcases h with h | ⟨_, h⟩
    · exact List.mem_cons_of_mem _ (ih h)
    · split at h
      · next hk => cases h; subst hk; exact List.mem_cons_self
      · cases h

/-- Where every key is written once, each write is the last one. -/
theorem lastWrite_of_mem (hn : (ws.map Prod.fst).Nodup) (h : (k, v) ∈ ws) :
    lastWrite k ws = some v := by
  induction ws with
  | nil => cases h
  | cons w ws ih =>
    rw [List.map_cons, List.nodup_cons] at hn
    rcases List.mem_cons.1 h with rfl | h
    · have : lastWrite k ws = none :=
        lastWrite_eq_none_iff.2 fun w hw hk => hn.1 (List.mem_map.2 ⟨w, hw, hk⟩)
      simp [lastWrite, this]
    · simp [lastWrite, ih hn.2 h]

/-- Where no key is written twice, each write is the last one. -/
theorem lastWrite_eq_some_iff (hn : (ws.map Prod.fst).Nodup) :
    lastWrite k ws = some v ↔ (k, v) ∈ ws :=
  ⟨mem_of_lastWrite_eq_some, lastWrite_of_mem hn⟩

/-- Changing what is written, whatever the key, changes what is left. -/
theorem lastWrite_map {γ : Type*} (f : β → γ) :
    lastWrite k (ws.map fun w => (w.1, f w.2)) = (lastWrite k ws).map f := by
  induction ws with
  | nil => rfl
  | cons w ws ih =>
    by_cases hk : w.1 = k <;> simp [lastWrite, ih, hk]

end lastWrite

section overlay

variable {k : κ} {v : Option ν} {ws ws' : List (κ × Option ν)} {σ τ : κ → Option ν}

@[simp] theorem overlay_nil : overlay [] σ = σ := rfl

theorem overlay_apply : overlay ws σ k = (lastWrite k ws).getD (σ k) := rfl

/-- Writing in two steps is writing at once. -/
theorem overlay_append : overlay (ws ++ ws') σ = overlay ws' (overlay ws σ) := by
  funext k
  simp only [overlay, lastWrite_append]
  cases lastWrite k ws' <;> simp

theorem overlay_cons (w : κ × Option ν) :
    overlay (w :: ws) σ = overlay ws (Function.update σ w.1 w.2) := by
  funext k
  by_cases hk : w.1 = k
  · subst hk
    cases h : lastWrite w.1 ws <;> simp [overlay, lastWrite, h]
  · cases h : lastWrite k ws <;>
      simp [overlay, lastWrite, h, hk, Function.update_of_ne (Ne.symm hk)]

/-- Earlier writes leave no trace under later ones exactly when the store already
    holds what they write to the keys the later ones do not rewrite. -/
theorem overlay_append_eq_iff : overlay (ws ++ ws') σ = overlay ws' σ ↔
    ∀ k v, lastWrite k ws' = none → lastWrite k ws = some v → σ k = v := by
  constructor
  · intro h k v hw' hw
    have := congrFun h k
    simpa [overlay, lastWrite_append, hw, hw'] using this.symm
  · intro h
    funext k
    rw [overlay, lastWrite_append, overlay]
    cases hw' : lastWrite k ws' with
    | some v => simp
    | none =>
      cases hw : lastWrite k ws with
      | none => simp
      | some v => simp [h k v hw' hw]

end overlay

end SysAdmin.Writes
