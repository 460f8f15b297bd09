import SysAdmin.ClientCalls
import SysAdmin.StagedWrites

/-!
# Types of stored values

A value is type checked when it is set, against the store of that moment, and written
when it is committed. In between, another client may have given the key a value of
another type.

* `Daemon.TypesKept`: where a key has values of different types in two states of a run,
  some event between them erases it;
* `Daemon.typesKept_iff`: types are kept exactly if the values also pass the type check
  at the commit (`Daemon.TypesMatch`).
-/

namespace SysAdmin

open Machine Writes Configurator

/-- Having the same type is an equivalence of values. -/
theorem ConfigValue.typeCheck_iff {v w : ConfigValue} :
    v.typeCheck w = true ↔ v.value.which = w.value.which := by simp [typeCheck]

namespace Daemon

variable {s : Daemon} {e : Event} {es : List Event} {k : ConfigKey} {v w : ConfigValue}

/-- The items an event writes to the store, those of a commit with the pairs of
    `last.*` behind them. -/
def applies (s : Daemon) : Event → ConfigPairList
  | .commit env clientId _ =>
    if s.conf.Committable clientId ∧ (s.conf.logged env clientId).2 ≠ none then
      s.conf.toApply clientId
    else []
  | .set .. | .erase .. | .drop _ | .complete .. => []

theorem store_step : (s.step e).conf.store = overlay (s.applies e).writes s.conf.store := by
  cases e with
  | set item clientId => rw [step, set_fst]; rfl
  | erase key clientId => rfl
  | drop clientId => rfl
  | commit env clientId configOpt =>
    rw [conf_commit, store_commit, applies]
    split <;> rfl
  | complete t result =>
    obtain hconf | ⟨clientId, hconf⟩ := s.conf_complete_cases t result
    · rw [hconf]; rfl
    · rw [hconf]; rfl

/-- What an event leaves at a key: the value of the last item it writes there. -/
theorem store_step_apply : (s.step e).conf.store k =
    ((lastItem k (s.applies e)).map fun p => p.value.toOption).getD (s.conf.store k) := by
  rw [store_step, overlay_apply, lastWrite_writes]

/-- The event erases the key. -/
def Erases (s : Daemon) (e : Event) (k : ConfigKey) : Prop :=
  ∃ p ∈ s.applies e, p.key = k ∧ p.value.empty = true

instance (s : Daemon) (e : Event) (k : ConfigKey) : Decidable (s.Erases e k) :=
  inferInstanceAs (Decidable (∃ p ∈ s.applies e, p.key = k ∧ p.value.empty = true))

/-- Types change by erasing only: where a key has values of different types in two
    states of the run, some event between them erases it. -/
def TypesKept (s : Daemon) (es : List Event) : Prop :=
  ∀ es₁ es₂, es₁ ++ es₂ <+: es → ∀ k v w, (run step s es₁).conf.store k = some v →
    (run step s (es₁ ++ es₂)).conf.store k = some w → v.typeCheck w = false →
      ∃ es₃ e, es₃ ++ [e] <+: es₂ ∧ (run step s (es₁ ++ es₃)).Erases e k

/-- The values an event writes pass the type check when they are written, save where
    the event erases the key before. Of the items for a key, the last one counts. -/
def TypesMatch (s : Daemon) (e : Event) : Prop :=
  ∀ p, lastItem p.key (s.applies e) = some p → p.value.empty = false →
    s.conf.systemStore.typeCheck p = true ∨ s.Erases e p.key

theorem plain_of_mem_applies (h : s.conf.WellKeyed) {p : ConfigPair} (hp : p ∈ s.applies e) :
    p.key.Plain := by
  cases e with
  | commit env clientId configOpt =>
    rw [applies] at hp
    split at hp
    · exact h.mem_toApply p hp
    · exact absurd hp List.not_mem_nil
  | set | erase | drop | complete => exact absurd hp List.not_mem_nil

/-- With matching types, a value that is not erased is followed by one of its type. -/
theorem TypesMatch.step (hm : s.TypesMatch e) (hw : s.conf.WellKeyed) (hv : s.conf.store k = some v)
    (he : ¬s.Erases e k) : ∃ u, (s.step e).conf.store k = some u ∧ v.typeCheck u = true := by
  rw [store_step_apply]
  rcases hl : lastItem k (s.applies e) with _ | p
  · exact ⟨v, by simp [hv], by simp [ConfigValue.typeCheck_iff]⟩
  · obtain ⟨hp, rfl⟩ := mem_of_lastItem hl
    have hne : p.value.empty = false := by
      by_contra hempty
      exact he ⟨p, hp, rfl, by simpa using hempty⟩
    refine ⟨p.value, by simp [ConfigValue.toOption_of_not_empty hne], ?_⟩
    have ht := (hm p hl hne).resolve_right he
    exact (MemoryCache.typeCheck_iff (plain_of_mem_applies hw hp).not_wildcard).1 ht v hv

/-- Without matching types, some value is followed by one of another type. -/
theorem exists_of_not_typesMatch (hm : ¬s.TypesMatch e) (hw : s.conf.WellKeyed) :
    ∃ k v w, s.conf.store k = some v ∧ (s.step e).conf.store k = some w ∧
      v.typeCheck w = false ∧ ¬s.Erases e k := by
  unfold TypesMatch at hm
  push Not at hm
  obtain ⟨p, hl, hne, ht, he⟩ := hm
  have hp := (mem_of_lastItem hl).1
  rw [ne_eq, MemoryCache.typeCheck_iff (plain_of_mem_applies hw hp).not_wildcard] at ht
  push Not at ht
  obtain ⟨v, hv, hvt⟩ := ht
  refine ⟨p.key, v, p.value, hv, ?_, by simpa using hvt, he⟩
  rw [store_step_apply, hl]
  simp [ConfigValue.toOption_of_not_empty hne]

/-- Along events with matching types, a value is erased, or followed by values of its type. -/
theorem erases_or_typeCheck (hw : s.conf.WellKeyed) (ha : ∀ e ∈ es, e.Admissible)
    (hg : Guarded step TypesMatch s es) (hv : s.conf.store k = some v) :
    (∃ es₃ e, es₃ ++ [e] <+: es ∧ (run step s es₃).Erases e k) ∨
      ∃ u, (run step s es).conf.store k = some u ∧ v.typeCheck u = true := by
  induction es generalizing s v with
  | nil => exact .inr ⟨v, hv, by simp [ConfigValue.typeCheck_iff]⟩
  | cons e es ih =>
    rw [List.forall_mem_cons] at ha
    by_cases he : s.Erases e k
    · exact .inl ⟨[], e, by simp, he⟩
    · obtain ⟨u, hu, hvu⟩ := hg.1.step hw hv he
      rcases ih (wellKeyed_step hw ha.1) ha.2 hg.2 hu with ⟨es₃, e', hp, he'⟩ | ⟨u', hu', huu'⟩
      · exact .inl ⟨e :: es₃, e', List.cons_prefix_cons.2 ⟨rfl, hp⟩, he'⟩
      · rw [ConfigValue.typeCheck_iff] at hvu huu'
        exact .inr ⟨u', hu', ConfigValue.typeCheck_iff.2 (hvu.trans huu')⟩

theorem typesKept_iff_guarded (hw : s.conf.WellKeyed) (ha : ∀ e ∈ es, e.Admissible) :
    TypesKept s es ↔ Guarded step TypesMatch s es := by
  rw [guarded_iff_forall_prefixes]
  constructor
  · intro h es₁ e hp
    have hw₁ : (run step s es₁).conf.WellKeyed :=
      wellKeyed_run hw fun e' he' => ha e' (hp.subset (List.mem_append_left _ he'))
    by_contra hm
    obtain ⟨k, v, w, hv, hvw, ht, he⟩ := exists_of_not_typesMatch hm hw₁
    -- The one event between the two states is the one whose types do not match.
    obtain ⟨es₃, e', hp', he'⟩ := h es₁ [e] hp k v w hv (by rw [run_append]; exact hvw) ht
    have hlen := hp'.length_le
    simp only [List.length_append, List.length_cons, List.length_nil] at hlen
    obtain rfl : es₃ = [] := List.length_eq_zero_iff.1 (by omega)
    obtain ⟨rfl, _⟩ := List.cons_prefix_cons.1 hp'
    rw [List.append_nil] at he'
    exact he he'
  · intro h es₁ es₂ hp k v w hv hvw ht
    have ha₁ : ∀ e ∈ es₁ ++ es₂, e.Admissible := fun e he => ha e (hp.subset he)
    have hw₁ : (run step s es₁).conf.WellKeyed :=
      wellKeyed_run hw fun e he => ha₁ e (List.mem_append_left _ he)
    have hg : Guarded step TypesMatch (run step s es₁) es₂ := by
      rw [guarded_iff_forall_prefixes]
      intro es₃ e hp₃
      rw [← run_append]
      refine h (es₁ ++ es₃) e ?_
      rw [List.append_assoc]
      exact ((List.prefix_append_right_inj es₁).2 hp₃).trans hp
    rcases erases_or_typeCheck hw₁ (fun e he => ha₁ e (List.mem_append_right _ he)) hg hv with
      ⟨es₃, e, hp₃, he⟩ | ⟨u, hu, hvu⟩
    · exact ⟨es₃, e, hp₃, by rwa [run_append]⟩
    · rw [run_append, hu] at hvw
      rw [Option.some.inj hvw, ht] at hvu
      cases hvu

/-- Along the commands of clients, types change by erasing only, exactly if all values pass
    the type check when they are written, too. -/
theorem typesKept_iff {cs : List Command} (hs : s.Reached) (hcs : ∀ c ∈ cs, c.Admissible) :
    TypesKept s (trace s cs) ↔ Guarded step TypesMatch s (trace s cs) :=
  typesKept_iff_guarded hs.wellKeyed (admissible_trace hs.wellKeyed hcs)

/-- A key changes its type by way of an erase. -/
def eraseAndSet : List Command :=
  [.event (.set (.ofInt32 "net.mtu" 1) 1), .event (.commit ⟨0, true⟩ 1 .noHooks),
    .event (.erase (.ofString "net.mtu") 1), .event (.commit ⟨0, true⟩ 1 .noHooks),
    .event (.set ⟨.ofString "net.mtu", .ofType (.string "auto")⟩ 1),
    .event (.commit ⟨0, true⟩ 1 .noHooks)]

theorem typesKept_iff_eraseAndSet : TypesKept (onEmpty 100) (trace (onEmpty 100) eraseAndSet) ↔
    Guarded step TypesMatch (onEmpty 100) (trace (onEmpty 100) eraseAndSet) :=
  typesKept_iff reached_onEmpty (by decide)

/-- Two clients set a new key to values of different types, and then commit them. -/
def setTwice : List Command :=
  [.event (.set (.ofInt32 "net.mtu" 1) 1),
    .event (.set ⟨.ofString "net.mtu", .ofType (.string "auto")⟩ 2),
    .event (.commit ⟨0, true⟩ 1 .noHooks), .event (.commit ⟨0, true⟩ 2 .noHooks)]

theorem not_forall_typesKept : ¬∀ (s : Daemon) (cs : List Command), s.Reached →
    (∀ c ∈ cs, c.Admissible) → TypesKept s (trace s cs) := by
  intro h
  have hkept := h (onEmpty 100) setTwice reached_onEmpty (by decide)
  -- The second commit overwrites the first one's value, without an erase.
  obtain ⟨es₃, e, hp, he⟩ := hkept
    [.set (.ofInt32 "net.mtu" 1) 1, .set ⟨.ofString "net.mtu", .ofType (.string "auto")⟩ 2,
      .commit ⟨0, true⟩ 1 .noHooks]
    [.commit ⟨0, true⟩ 2 .noHooks] List.prefix_rfl (.ofString "net.mtu") (.ofType (.int32 1))
    (.ofType (.string "auto")) (by decide) (by decide) (by decide)
  have hlen := hp.length_le
  simp only [List.length_append, List.length_cons, List.length_nil] at hlen
  obtain rfl : es₃ = [] := List.length_eq_zero_iff.1 (by omega)
  obtain ⟨rfl, _⟩ := List.cons_prefix_cons.1 hp
  exact absurd he (by decide)

end Daemon

end SysAdmin
