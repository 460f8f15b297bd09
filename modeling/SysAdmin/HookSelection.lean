import SysAdmin.EmptyKeys

/-!
# The hooks of a commit

Which hooks `GetHooksToRun` selects for the committed pairs, whatever hooks have been
inserted into the table.

A hook with a `*` is a pattern. The keys it covers are at least as long and have its
subkeys, but for the `*` of it (`ConfigKey.Covers`). `SubkeyMatches` does not ask which
of two keys is the pattern: a `*` of the committed key is any subkey as well, and at its
end any number of them (`ConfigKey.Meets`).

* `HookManager.selects_getHooksToRun`: the templates and services with a hook that is a
  committed key or meets one, and no other ones;
* `HookManager.selects_covers`: where no committed key has a `*`, those with a hook that
  is or covers one.
-/

namespace SysAdmin

/-- Whether a hook of the user is the key, or a pattern that covers it. -/
def HookUser.RunsFor (covers : ConfigKey → ConfigKey → Prop) (h : HookUser) (key : ConfigKey) :
    Prop :=
  ∃ hook ∈ h.hooks, key = hook.key ∨ (hook.key.isWildcard = true ∧ covers hook.key key)

theorem HookUser.hasHook_iff {h : HookUser} {key : ConfigKey} :
    h.hasHook key = true ↔ h.RunsFor ConfigKey.Meets key := by
  simp [hasHook, RunsFor, ConfigKey.subkeyMatches_iff_meets]

/-! ## The table -/

namespace HookTable

/-- No hooks. -/
def empty : HookTable := ⟨[], List.nodup_nil⟩

/-- The table into which the hooks have been inserted, one after the other. -/
def ofInserted (inserted : List HookUser) : HookTable := inserted.foldl insert empty

variable {t : HookTable} {h hook : HookUser} {name : String} {inserted : List HookUser}

theorem mem_hooks_iff : h ∈ t.hooks ↔ t.byName h.name = some h := by
  constructor
  · intro hmem
    obtain ⟨before, behind, heq⟩ := List.append_of_mem hmem
    have hnodup := t.nodup_names
    rw [heq, List.map_append, List.nodup_append] at hnodup
    have hbefore : ∀ h' ∈ before, ¬ decide (h'.name = h.name) = true := by
      intro h' hh' hname
      exact hnodup.2.2 h'.name (List.mem_map_of_mem hh') h.name (by simp) (of_decide_eq_true hname)
    rw [byName, heq, List.find?_append, List.find?_eq_none.2 hbefore, Option.none_or]
    exact List.find?_cons_of_pos (decide_eq_true rfl)
  · exact List.mem_of_find?_eq_some

/-- Inserting a hook changes what its name stands for only if that was nothing. -/
theorem byName_insert :
    (t.insert hook).byName name = (t.byName name).or ([hook].find? (·.name = name)) := by
  rw [insert]
  split
  · next hin =>
    rw [List.find?_singleton]
    split
    · next hname =>
      have hsome : (t.byName name).isSome = true := by
        rw [byName, List.find?_isSome]
        obtain ⟨h, hh, heq⟩ := List.mem_map.1 hin
        exact ⟨h, hh, decide_eq_true (heq.trans (of_decide_eq_true hname))⟩
      rw [Option.or_of_isSome hsome]
    · rw [Option.or_none]
  · exact List.find?_append

/-- The table holds, for each name, the first hook that was inserted under it. -/
theorem byName_ofInserted (inserted : List HookUser) (name : String) :
    (ofInserted inserted).byName name = inserted.find? (·.name = name) := by
  induction inserted using List.reverseRecOn with
  | nil => rfl
  | append_singleton inserted hook ih =>
    rw [ofInserted, List.foldl_concat, byName_insert, List.find?_append, ← ih, ofInserted]

theorem mem_byType {type : HookType} : h ∈ t.byType type ↔ h ∈ t.hooks ∧ h.type = type := by
  rw [byType, List.mem_filter, decide_eq_true_iff]

theorem mem_runLevelOrder {type : HookType} :
    h ∈ t.runLevelOrder type ↔ h ∈ t.hooks ∧ h.type = type := by
  rw [runLevelOrder, List.mem_insertionSort, mem_byType]

end HookTable

/-! ## Services by their run levels -/

namespace RunLevelServicesMap

variable {α : Type}

/-- The services of a run level. -/
def under (m : RunLevelServicesMap α) (rl : Nat) : List α := (m.entries.lookup rl).getD []

theorem lookup_cons {rl r : Nat} {services : List α} {entries : List (Nat × List α)} :
    ((r, services) :: entries).lookup rl =
      if rl = r then some services else entries.lookup rl := by
  rw [List.lookup_cons]
  split_ifs with h
  · rw [beq_iff_eq.2 h]
  · rw [beq_eq_false_iff_ne.2 h]

theorem lookup_eq_none {rl : Nat} {entries : List (Nat × List α)} (h : ∀ e ∈ entries, rl < e.1) :
    entries.lookup rl = none :=
  List.lookup_eq_none_iff.2 fun e he => by simpa using (h e he).ne

variable [DecidableEq α]

theorem lookup_addEntry {rl rl' : Nat} {service : α} {entries : List (Nat × List α)}
    (h : entries.Pairwise fun a b => a.1 < b.1) :
    ((addEntry rl service entries).lookup rl').getD [] =
      if rl' = rl then
        if service ∈ (entries.lookup rl).getD [] then (entries.lookup rl).getD []
        else (entries.lookup rl).getD [] ++ [service]
      else (entries.lookup rl').getD [] := by
  induction entries with
  | nil =>
    rw [addEntry, lookup_cons]
    by_cases hrl : rl' = rl <;> simp [hrl]
  | cons entry entries ih =>
    obtain ⟨r, services⟩ := entry
    obtain ⟨hlt, hentries⟩ := List.pairwise_cons.1 h
    rw [addEntry]
    split
    · next hrl =>
      -- The entries are in order, so that the run level is not among them.
      have hnone : ((r, services) :: entries).lookup rl = none :=
        lookup_eq_none (List.forall_mem_cons.2 ⟨hrl, fun e he => hrl.trans (hlt e he)⟩)
      rw [hnone, lookup_cons]
      by_cases heq : rl' = rl <;> simp [heq]
    · split
      · next heq =>
        subst heq
        by_cases hrl : rl' = rl <;> simp [lookup_cons, hrl]
      · next hne =>
        by_cases hr : rl' = r
        · subst hr
          simp [Ne.symm hne]
        · rw [lookup_cons, if_neg hr, ih hentries, lookup_cons, if_neg hne, lookup_cons, if_neg hr]

/-- A service is added to those of its run level, unless it is there. -/
theorem under_add {m : RunLevelServicesMap α} {rl rl' : Nat} {service : α} :
    (m.add rl service).under rl' =
      if rl' = rl then if service ∈ m.under rl then m.under rl else m.under rl ++ [service]
      else m.under rl' :=
  lookup_addEntry m.sorted

theorem mem_under_add {m : RunLevelServicesMap α} {rl rl' : Nat} {service s : α} :
    s ∈ (m.add rl service).under rl' ↔ s ∈ m.under rl' ∨ (rl' = rl ∧ s = service) := by
  rw [under_add]
  split_ifs with hrl hin
  · subst hrl
    refine ⟨.inl, fun h => h.elim id ?_⟩
    rintro ⟨-, rfl⟩
    exact hin
  · simp [hrl]
  · simp [hrl]

theorem nodup_under_add {m : RunLevelServicesMap α} {rl rl' : Nat} {service : α}
    (h : ∀ rl, (m.under rl).Nodup) : ((m.add rl service).under rl').Nodup := by
  rw [under_add]
  split_ifs with hrl hin
  · exact h rl
  · rw [← List.concat_eq_append]
    exact (h rl).concat hin
  · exact h rl'

end RunLevelServicesMap

/-! ## Selected hooks -/

/-- If each step adds what it is to, nothing is lost on the way. -/
theorem foldl_iff {σ α : Type*} (P : σ → Prop) {Q : α → Prop} {f : σ → α → σ}
    (hf : ∀ s a, P (f s a) ↔ P s ∨ Q a) (l : List α) (s : σ) :
    P (l.foldl f s) ↔ P s ∨ ∃ a ∈ l, Q a := by
  induction l generalizing s with
  | nil => simp
  | cons a l ih =>
    rw [List.foldl_cons, ih, hf, or_assoc]
    simp

/-- The pipeline is that of the hooks of the table that run for some committed key: all of
    its templates, and its services, if these are to run, under their run levels. -/
structure HookPipeline.Selects (covers : ConfigKey → ConfigKey → Prop) (table : HookTable)
    (committed : ConfigPairList) (runServices : Bool) (hooks : HookPipeline HookUser) :
    Prop where
  templates : ∀ t, t ∈ hooks.templates.list ↔
    t ∈ table.hooks ∧ t.type = .templater ∧ ∃ pair ∈ committed, t.RunsFor covers pair.key
  services : ∀ rl s, s ∈ hooks.services.under rl ↔
    runServices = true ∧ s ∈ table.hooks ∧ s.type = .service ∧ s.runLevel = rl ∧
      ∃ pair ∈ committed, s.RunsFor covers pair.key
  nodup : ∀ rl, (hooks.services.under rl).Nodup

namespace HookManager

variable {m : HookManager} {committed : ConfigPairList} {runServices : Bool}

theorem mem_templates_getHooksToRun {t : HookUser} :
    t ∈ (m.getHooksToRun committed runServices).templates.list ↔
      t ∈ m.table.hooks ∧ t.type = .templater ∧
        ∃ pair ∈ committed, t.RunsFor ConfigKey.Meets pair.key := by
  have hstep (pair : ConfigPair) (templates : TemplatesSet HookUser) (templater : HookUser) :
      t ∈ (if templater.hasHook pair.key then templates.emplace templater else templates).list ↔
        t ∈ templates.list ∨ (t = templater ∧ templater.RunsFor ConfigKey.Meets pair.key) := by
    rw [← HookUser.hasHook_iff]
    split_ifs with h
    · rw [TemplatesSet.emplace, List.mem_insert_iff, or_comm, and_iff_left h]
    · simp [h]
  -- Along both loops: it is there if some turn has put it there.
  let Has (templates : TemplatesSet HookUser) : Prop := t ∈ templates.list
  refine (foldl_iff Has (fun templates pair => foldl_iff Has (hstep pair) _ templates)
    committed .empty).trans ?_
  constructor
  · rintro (h | ⟨pair, hpair, t, ht, rfl, h⟩)
    · exact absurd h List.not_mem_nil
    · obtain ⟨hmem, htype⟩ := HookTable.mem_byType.1 ht
      exact ⟨hmem, htype, pair, hpair, h⟩
  · rintro ⟨hmem, htype, pair, hpair, h⟩
    exact .inr ⟨pair, hpair, t, HookTable.mem_byType.2 ⟨hmem, htype⟩, rfl, h⟩

theorem mem_under_getHooksToRun {rl : Nat} {s : HookUser} :
    s ∈ (m.getHooksToRun committed runServices).services.under rl ↔
      runServices = true ∧ s ∈ m.table.hooks ∧ s.type = .service ∧ s.runLevel = rl ∧
        ∃ pair ∈ committed, s.RunsFor ConfigKey.Meets pair.key := by
  let Has (services : RunLevelServicesMap HookUser) : Prop := s ∈ services.under rl
  have hstep (pair : ConfigPair) (services : RunLevelServicesMap HookUser) (service : HookUser) :
      s ∈ (if service.hasHook pair.key then services.add service.runLevel service
          else services).under rl ↔
        s ∈ services.under rl ∨ ((rl = service.runLevel ∧ s = service) ∧
          service.RunsFor ConfigKey.Meets pair.key) := by
    rw [← HookUser.hasHook_iff]
    split_ifs with h
    · rw [RunLevelServicesMap.mem_under_add, and_iff_left h]
    · simp [h]
  have hservices (services : RunLevelServicesMap HookUser) (pair : ConfigPair) :
      s ∈ (if runServices then
          (m.table.runLevelOrder .service).foldl (fun services service =>
            if service.hasHook pair.key then services.add service.runLevel service
            else services) services
        else services).under rl ↔
        s ∈ services.under rl ∨ (runServices = true ∧ ∃ service ∈ m.table.runLevelOrder .service,
          (rl = service.runLevel ∧ s = service) ∧ service.RunsFor ConfigKey.Meets pair.key) := by
    split_ifs with h
    · rw [and_iff_right h]
      exact foldl_iff Has (hstep pair) _ services
    · simp [h]
  refine (foldl_iff Has hservices committed .empty).trans ?_
  constructor
  · rintro (h | ⟨pair, hpair, hrun, s, hs, ⟨rfl, rfl⟩, h⟩)
    · exact absurd h List.not_mem_nil
    · obtain ⟨hmem, htype⟩ := HookTable.mem_runLevelOrder.1 hs
      exact ⟨hrun, hmem, htype, rfl, pair, hpair, h⟩
  · rintro ⟨hrun, hmem, htype, rfl, pair, hpair, h⟩
    exact .inr ⟨pair, hpair, hrun, s, HookTable.mem_runLevelOrder.2 ⟨hmem, htype⟩, ⟨rfl, rfl⟩, h⟩

theorem nodup_under_getHooksToRun :
    ∀ rl, ((m.getHooksToRun committed runServices).services.under rl).Nodup := by
  let Once (services : RunLevelServicesMap HookUser) : Prop := ∀ rl, (services.under rl).Nodup
  refine List.foldlRecOn (motive := Once) _ _ (fun _ => List.nodup_nil) fun _ hservices _ _ => ?_
  split
  · refine List.foldlRecOn (motive := Once) _ _ hservices fun _ hservices _ _ => ?_
    split
    · exact fun _ => RunLevelServicesMap.nodup_under_add hservices
    · exact hservices
  · exact hservices

/-- What is selected for the committed pairs, with patterns on either side. -/
theorem selects (m : HookManager) (committed : ConfigPairList) (runServices : Bool) :
    HookPipeline.Selects ConfigKey.Meets m.table committed runServices
      (m.getHooksToRun committed runServices) where
  templates _ := mem_templates_getHooksToRun
  services _ _ := mem_under_getHooksToRun
  nodup := nodup_under_getHooksToRun

/-- Where no committed key has a `*`, only the hooks are patterns. -/
theorem selects_covers (m : HookManager) (runServices : Bool)
    (h : ∀ pair ∈ committed, pair.key.isWildcard = false) :
    HookPipeline.Selects ConfigKey.Covers m.table committed runServices
      (m.getHooksToRun committed runServices) := by
  have hruns (hook : HookUser) : (∃ pair ∈ committed, hook.RunsFor ConfigKey.Covers pair.key) ↔
      ∃ pair ∈ committed, hook.RunsFor ConfigKey.Meets pair.key :=
    exists_congr fun pair => and_congr_right fun hpair => exists_congr fun _ =>
      and_congr_right fun _ => or_congr_right (and_congr_right fun _ =>
        (ConfigKey.meets_iff_covers (h pair hpair)).symm)
  have hselects := m.selects committed runServices
  refine ⟨fun t => ?_, fun rl s => ?_, hselects.nodup⟩
  · rw [hruns, hselects.templates]
  · rw [hruns, hselects.services]

/-- Whatever hooks have been inserted, the table holds the first one of each name, and
    those of them are selected that run for some committed key; on the way, the keys are
    such as `SubkeyMatches` asserts them to be. -/
theorem selects_getHooksToRun (inserted : List HookUser) (parallelHooks : Nat)
    {committed : ConfigPairList} (runServices : Bool)
    (h : ∀ pair ∈ committed, pair.key.subKeys ≠ []) :
    let m : HookManager := ⟨.ofInserted inserted, parallelHooks⟩
    (∀ hook, hook ∈ m.table.hooks ↔ inserted.find? (·.name = hook.name) = some hook) ∧
      (∀ name, m.table.byName name = inserted.find? (·.name = name)) ∧
      (∀ call ∈ m.getHooksToRunCalls committed runServices, call.Allowed) ∧
      HookPipeline.Selects ConfigKey.Meets m.table committed runServices
        (m.getHooksToRun committed runServices) := by
  refine ⟨fun hook => ?_, HookTable.byName_ofInserted inserted, allowed_getHooksToRunCalls h,
    selects _ committed runServices⟩
  rw [HookTable.mem_hooks_iff, HookTable.byName_ofInserted]

/-- A service for all keys of a namespace, and a second one of its name. -/
theorem selects_getHooksToRun_sameName :
    let service : HookUser := ⟨"service1", .service, [⟨.ofString "net.*", false⟩], 1⟩
    let template : HookUser := ⟨"service1", .templater, [⟨.ofString "net.mtu", false⟩], 1⟩
    let committed : ConfigPairList := [⟨.ofString "net.mtu", .ofType (.int32 1500)⟩]
    let m : HookManager := ⟨.ofInserted [service, template], 1⟩
    (∀ hook, hook ∈ m.table.hooks ↔
        [service, template].find? (·.name = hook.name) = some hook) ∧
      (∀ name, m.table.byName name = [service, template].find? (·.name = name)) ∧
      (∀ call ∈ m.getHooksToRunCalls committed true, call.Allowed) ∧
      HookPipeline.Selects ConfigKey.Meets m.table committed true
        (m.getHooksToRun committed true) :=
  selects_getHooksToRun _ 1 true (by decide)

/-- A committed key `*.mtu` runs the hook `net.*`, which does not cover it. -/
theorem not_selects_covers :
    let service : HookUser := ⟨"service1", .service, [⟨.ofString "net.*", false⟩], 1⟩
    let committed : ConfigPairList := [⟨.ofString "*.mtu", .ofType (.int32 1500)⟩]
    let m : HookManager := ⟨.ofInserted [service], 1⟩
    ¬ HookPipeline.Selects ConfigKey.Covers m.table committed true
      (m.getHooksToRun committed true) := by
  intro service committed m h
  obtain ⟨-, -, -, -, pair, hpair, hook, hhook, hruns⟩ :=
    (h.services 1 service).1 (by decide)
  obtain rfl := List.mem_singleton.1 hpair
  obtain rfl := List.mem_singleton.1 hhook
  rcases hruns with heq | ⟨-, -, hcovers⟩
  · exact absurd heq (by decide)
  · exact absurd (hcovers 0 "net" (by decide) (by decide)) (by decide)

end HookManager

end SysAdmin
