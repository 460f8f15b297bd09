import Mathlib.Data.List.Sort
import SysAdmin.ConfigTypes
import SysAdmin.Foundation.Batches

/-!
# Hooks

After a commit, the daemon runs external processes, the *hooks* of the changed keys:
first the templates, and then the services, in the order of their run levels.

`HookManager` makes batches of them (`splitSubprocessesAcrossCores`) and puts these one
behind the other: a chain of futures, each of which starts the hooks of a batch and is
ready when all of them are. To go on with a chain after another one is to put its
batches behind; which hooks are running and which have succeeded is a matter of
`Batches.Progress`.

* `HookTable`: the hooks by their names, with the pipelines made of them;
* `HookPipeline.scheduled`: what is started when, for all pipelines and all orders and
  outcomes in which the hooks complete.
-/

namespace SysAdmin

open Machine Batches

/-! ## Hooks and their table -/

/-- The kinds of hooks. -/
inductive HookType
  | templater
  | service
  deriving DecidableEq

/-- A key, or pattern, of a hook. -/
structure HookConfig where
  key : ConfigKey
  isOptional : Bool
  deriving DecidableEq

/-- A hook: the keys whose changes it runs for, and its run level. -/
structure HookUser where
  name : String
  type : HookType
  hooks : List HookConfig
  runLevel : Nat
  deriving DecidableEq

/-- Whether a change of the key runs the hook. -/
def HookUser.hasHook (h : HookUser) (key : ConfigKey) : Bool :=
  h.hooks.any fun hook => key == hook.key || (hook.key.isWildcard && key.subkeyMatches hook.key)

/-- Services by their run levels, in ascending order. -/
structure RunLevelServicesMap (α : Type) where
  entries : List (Nat × List α)
  sorted : entries.Pairwise fun a b => a.1 < b.1

namespace RunLevelServicesMap

variable {α : Type} [DecidableEq α]

/-- No services. -/
def empty : RunLevelServicesMap α := ⟨[], List.Pairwise.nil⟩

/-- Adds a service to those of its run level, unless it is one of them already. -/
def addEntry (rl : Nat) (service : α) : List (Nat × List α) → List (Nat × List α)
  | [] => [(rl, [service])]
  | (r, services) :: entries =>
    if rl < r then (rl, [service]) :: (r, services) :: entries
    else if rl = r then
      (r, if service ∈ services then services else services ++ [service]) :: entries
    else (r, services) :: addEntry rl service entries

/-- The entries are those from before; only that of the run level may be new, or have got
    the service. -/
theorem mem_addEntry {rl : Nat} {service : α} {entries : List (Nat × List α)}
    {e : Nat × List α} (he : e ∈ addEntry rl service entries) :
    e = (rl, [service]) ∨ e ∈ entries ∨
      ∃ services, (rl, services) ∈ entries ∧ service ∉ services ∧
        e = (rl, services ++ [service]) := by
  induction entries with
  | nil => exact .inl (List.mem_singleton.1 he)
  | cons entry entries ih =>
    obtain ⟨r, services⟩ := entry
    rw [addEntry] at he
    split_ifs at he with hlt heq hin
    · rcases List.mem_cons.1 he with rfl | he
      · exact .inl rfl
      · exact .inr (.inl he)
    · exact .inr (.inl he)
    · rcases List.mem_cons.1 he with rfl | he
      · exact .inr (.inr ⟨services, by simp [heq], hin, by rw [heq]⟩)
      · exact .inr (.inl (List.mem_cons_of_mem _ he))
    · rcases List.mem_cons.1 he with rfl | he
      · exact .inr (.inl List.mem_cons_self)
      · rcases ih he with h | h | ⟨services', h, hin, rfl⟩
        · exact .inl h
        · exact .inr (.inl (List.mem_cons_of_mem _ h))
        · exact .inr (.inr ⟨services', List.mem_cons_of_mem _ h, hin, rfl⟩)

theorem fst_mem_addEntry {rl : Nat} {service : α} {entries : List (Nat × List α)}
    {e : Nat × List α} (he : e ∈ addEntry rl service entries) :
    e.1 = rl ∨ ∃ e' ∈ entries, e'.1 = e.1 := by
  rcases mem_addEntry he with rfl | h | ⟨services, _, _, rfl⟩
  · exact .inl rfl
  · exact .inr ⟨e, h, rfl⟩
  · exact .inl rfl

theorem sorted_addEntry {rl : Nat} {service : α} {entries : List (Nat × List α)}
    (h : entries.Pairwise fun a b => a.1 < b.1) :
    (addEntry rl service entries).Pairwise fun a b => a.1 < b.1 := by
  induction entries with
  | nil => exact List.pairwise_singleton _ _
  | cons entry entries ih =>
    obtain ⟨r, services⟩ := entry
    obtain ⟨hlt, hentries⟩ := List.pairwise_cons.1 h
    rw [addEntry]
    split
    · next hrl =>
      refine List.pairwise_cons.2 ⟨fun e he => ?_, h⟩
      rcases List.mem_cons.1 he with rfl | he
      · exact hrl
      · exact hrl.trans (hlt e he)
    · split
      · exact List.pairwise_cons.2 ⟨hlt, hentries⟩
      · next hrl hne =>
        refine List.pairwise_cons.2 ⟨fun e he => ?_, ih hentries⟩
        rcases fst_mem_addEntry he with h | ⟨e', he', h⟩
        · rw [h]
          exact lt_of_le_of_ne (not_lt.1 hrl) (Ne.symm hne)
        · rw [← h]
          exact hlt e' he'

/-- Adds a service. -/
def add (m : RunLevelServicesMap α) (rl : Nat) (service : α) : RunLevelServicesMap α :=
  ⟨addEntry rl service m.entries, sorted_addEntry m.sorted⟩

end RunLevelServicesMap

/-- A set of templates, in the order in which it is iterated. -/
structure TemplatesSet (α : Type) where
  list : List α
  nodup : list.Nodup

namespace TemplatesSet

/-- No templates. -/
def empty {α : Type} : TemplatesSet α := ⟨[], List.nodup_nil⟩

/-- Adds a template, unless it is there already. -/
def emplace {α : Type} [DecidableEq α] (s : TemplatesSet α) (template : α) : TemplatesSet α :=
  ⟨s.list.insert template, s.nodup.insert⟩

end TemplatesSet

/-- The templates and the services to run. -/
structure HookPipeline (α : Type) where
  templates : TemplatesSet α
  services : RunLevelServicesMap α

/-- The hooks, with different names. -/
structure HookTable where
  hooks : List HookUser
  nodup_names : (hooks.map HookUser.name).Nodup

namespace HookTable

/-- Inserts a hook, unless there is one with its name. -/
def insert (t : HookTable) (hook : HookUser) : HookTable :=
  if h : hook.name ∈ t.hooks.map HookUser.name then t
  else ⟨t.hooks ++ [hook], by
    rw [List.map_append, List.map_singleton, List.nodup_append]
    refine ⟨t.nodup_names, List.nodup_singleton _, fun a ha b hb => ?_⟩
    rw [List.mem_singleton.1 hb]
    exact fun hab => h (hab ▸ ha)⟩

/-- The hook of a name. -/
def byName (t : HookTable) (name : String) : Option HookUser :=
  t.hooks.find? fun hook => hook.name = name

/-- The hooks of a kind. -/
def byType (t : HookTable) (type : HookType) : List HookUser :=
  t.hooks.filter fun hook => hook.type = type

/-- The hooks of a kind by their run levels, and else as they were inserted. -/
def runLevelOrder (t : HookTable) (type : HookType) : List HookUser :=
  (t.byType type).insertionSort fun a b => a.runLevel ≤ b.runLevel

/-- All services. -/
def getOrderedServices (t : HookTable) : RunLevelServicesMap HookUser :=
  (t.runLevelOrder .service).foldl (fun s service => s.add service.runLevel service) .empty

end HookTable

/-! ## Batches of hooks -/

section batches

variable {α : Type}

/-- The loop of `splitSubprocessesAcrossCores`, from the `j`-th hook on. Asking for a
    bucket that is not there throws. -/
def fillBuckets (cores : Nat) : Nat → List α → List (List α) → Option (List (List α))
  | _, [], coreBuckets => some coreBuckets
  | j, s :: subprocs, coreBuckets =>
    if j / cores < coreBuckets.length then
      fillBuckets cores (j + 1) subprocs (coreBuckets.modify (j / cores) (· ++ [s]))
    else none

/-- The hooks in batches of as many as there are cores; more batches than needed, if
    this does not come out even. -/
def splitSubprocessesAcrossCores (subprocs : List α) (cores : Nat) : Option (List (List α)) :=
  fillBuckets cores 0 subprocs
    (List.replicate (subprocs.length / cores + subprocs.length % cores) [])

variable {cores j : Nat} {coreBuckets : List (List α)} {subprocs : List α} {s : α}

/-- After `j` hooks, the buckets are full up to the one that is being filled. -/
def Filled (cores j : Nat) (coreBuckets : List (List α)) : Prop :=
  ∀ i b, coreBuckets[i]? = some b → b.length = min cores (j - i * cores)

theorem Filled.modify (hc : 1 ≤ cores) (h : Filled cores j coreBuckets) :
    Filled cores (j + 1) (coreBuckets.modify (j / cores) (· ++ [s])) := by
  intro i b hb
  have hdiv := Nat.div_add_mod j cores
  have hmod := Nat.mod_lt j hc
  rw [Nat.mul_comm] at hdiv
  rw [List.getElem?_modify] at hb
  obtain ⟨b', hb', rfl⟩ := Option.map_eq_some_iff.1 hb
  have hlen := h i b' hb'
  rcases Nat.lt_trichotomy i (j / cores) with hi | rfl | hi
  · -- A full bucket stays full, and one that is not reached yet stays empty.
    have hmul : (i + 1) * cores ≤ j / cores * cores := Nat.mul_le_mul_right cores hi
    rw [Nat.succ_mul] at hmul
    rw [if_neg (by omega), hlen]
    omega
  · rw [if_pos rfl, List.length_append, List.length_singleton, hlen]
    omega
  · have hmul : (j / cores + 1) * cores ≤ i * cores := Nat.mul_le_mul_right cores hi
    rw [Nat.succ_mul] at hmul
    rw [if_neg (by omega), hlen]
    omega

/-- Where the buckets behind are empty, what is added to one comes last. -/
theorem flatten_modify_append {c : Nat} (hlt : c < coreBuckets.length)
    (h : ∀ i b, c < i → coreBuckets[i]? = some b → b = []) :
    (coreBuckets.modify c (· ++ [s])).flatten = coreBuckets.flatten ++ [s] := by
  induction coreBuckets generalizing c with
  | nil => exact absurd hlt (Nat.not_lt_zero c)
  | cons b bs ih =>
    cases c with
    | zero =>
      have hnil : bs.flatten = [] := by
        refine List.flatten_eq_nil_iff.2 fun b' hb' => ?_
        obtain ⟨i, hi⟩ := List.mem_iff_getElem?.1 hb'
        exact h (i + 1) b' (Nat.succ_pos i) (by simpa using hi)
      simp [hnil]
    | succ c =>
      have htail := ih (c := c) (by simpa using hlt) fun i b' hi hb' =>
        h (i + 1) b' (Nat.succ_lt_succ hi) (by simpa using hb')
      simp [htail]

theorem fillBuckets_eq (hc : 1 ≤ cores) (hf : Filled cores j coreBuckets)
    (hlen : j + subprocs.length ≤ coreBuckets.length * cores) :
    ∃ bs, fillBuckets cores j subprocs coreBuckets = some bs ∧
      bs.flatten = coreBuckets.flatten ++ subprocs ∧ ∀ b ∈ bs, b.length ≤ cores := by
  induction subprocs generalizing j coreBuckets with
  | nil =>
    refine ⟨coreBuckets, rfl, by simp, fun b hb => ?_⟩
    obtain ⟨i, hi⟩ := List.mem_iff_getElem?.1 hb
    rw [hf i b hi]
    exact min_le_left _ _
  | cons s subprocs ih =>
    rw [List.length_cons] at hlen
    have hlt : j / cores < coreBuckets.length := (Nat.div_lt_iff_lt_mul hc).2 (by omega)
    -- The buckets behind the one that is filled now have nothing yet.
    have hempty : ∀ i b, j / cores < i → coreBuckets[i]? = some b → b = [] := by
      intro i b hi hb
      have hle : j < i * cores := (Nat.div_lt_iff_lt_mul hc).1 hi
      have hb := hf i b hb
      exact List.length_eq_zero_iff.1 (by omega)
    obtain ⟨bs, hbs, hflat, hle⟩ := @ih (j + 1) (coreBuckets.modify (j / cores) (· ++ [s]))
      (hf.modify hc) (by rw [List.length_modify]; omega)
    refine ⟨bs, by rw [fillBuckets, if_pos hlt, hbs], ?_, hle⟩
    rw [hflat, flatten_modify_append hlt hempty]
    simp

/-- Splitting hooks never throws, keeps their order, and makes no batch too large. -/
theorem splitSubprocessesAcrossCores_eq (hc : 1 ≤ cores) (subprocs : List α) :
    ∃ bs, splitSubprocessesAcrossCores subprocs cores = some bs ∧ bs.flatten = subprocs ∧
      ∀ b ∈ bs, b.length ≤ cores := by
  have hfilled : Filled cores 0 (List.replicate
      (subprocs.length / cores + subprocs.length % cores) ([] : List α)) := by
    intro i b hb
    rw [List.getElem?_replicate] at hb
    split at hb
    · rw [← Option.some.inj hb]
      simp
    · cases hb
  -- There are at least as many buckets as needed: one for each hook of the remainder.
  have hlen : subprocs.length ≤
      (subprocs.length / cores + subprocs.length % cores) * cores := by
    have hdiv := Nat.div_add_mod subprocs.length cores
    have hmod := Nat.le_mul_of_pos_right (subprocs.length % cores) hc
    rw [Nat.add_mul]
    rw [Nat.mul_comm] at hdiv
    omega
  obtain ⟨bs, hbs, hflat, hle⟩ := @fillBuckets_eq _ _ _ _ subprocs hc hfilled
    (by rw [List.length_replicate, Nat.zero_add]; exact hlen)
  refine ⟨bs, hbs, ?_, hle⟩
  rw [hflat]
  simp

end batches

/-! ## The hook manager -/

namespace HookPipeline

section running

variable {α : Type}

/-- All hooks of a pipeline, in the order in which they are to be run. -/
def all (hooks : HookPipeline α) : List α :=
  hooks.templates.list ++ (hooks.services.entries.map Prod.snd).flatten

/-- What has to be done before the services of a run level: the templates, and the
    services of the lower run levels. -/
def before (hooks : HookPipeline α) (rl : Nat) : List α :=
  hooks.templates.list ++
    ((hooks.services.entries.filter fun e => e.1 < rl).map Prod.snd).flatten

/-- The batches of the chain that `RunHooks` makes: those of the templates, and behind
    them those of each run level. -/
def batches (hooks : HookPipeline α) (parallelHooks : Nat) : Option (List (List α)) := do
  let templates ← splitSubprocessesAcrossCores hooks.templates.list parallelHooks
  let services ← hooks.services.entries.mapM fun e =>
    splitSubprocessesAcrossCores e.2 parallelHooks
  return templates ++ services.flatten

/-- Where the hooks are after the given ones have completed, each with success or not.

    Hooks that complete while their batch is still being started are looked at when all
    of it has been. -/
def runHooks [DecidableEq α] (hooks : HookPipeline α) (parallelHooks : Nat)
    (completed : List (α × Bool)) : Option (Progress α) := do
  let batches ← hooks.batches parallelHooks
  return run step (start batches) completed

/-- What is promised of a state of the pipeline: hooks are started in order, with no more
    of them running than allowed while none has failed; either only hooks that come before
    a run level have been started, or these have all succeeded; and all succeeds only
    when every hook has. -/
structure Scheduled (hooks : HookPipeline α) (parallelHooks : Nat) (p : Progress α) : Prop where
  inOrder : p.started <+: hooks.all
  outstanding : p.outcome ≠ .failed → p.running.length ≤ parallelHooks
  lowerFirst : ∀ rl services, (rl, services) ∈ hooks.services.entries →
    p.started <+: hooks.before rl ∨ (hooks.before rl).Subperm p.succeeded
  succeeded : p.outcome = .succeeded → p.started = hooks.all ∧ p.succeeded.Perm hooks.all

variable {hooks : HookPipeline α} {parallelHooks rl : Nat} {services : List α}

/-- The services of the lower run levels come first. -/
theorem exists_lower (h : (rl, services) ∈ hooks.services.entries) :
    ∃ higher, hooks.services.entries =
      (hooks.services.entries.filter fun e => e.1 < rl) ++ (rl, services) :: higher := by
  obtain ⟨lower, higher, heq⟩ := List.append_of_mem h
  have hsorted := hooks.services.sorted
  rw [heq, List.pairwise_append, List.pairwise_cons] at hsorted
  obtain ⟨_, ⟨hhigher, _⟩, hlower⟩ := hsorted
  refine ⟨higher, ?_⟩
  have hfilter : (lower ++ (rl, services) :: higher).filter (fun e => e.1 < rl) = lower := by
    rw [List.filter_append, List.filter_cons_of_neg (by simp), List.filter_eq_self.2,
      List.filter_eq_nil_iff.2, List.append_nil]
    · intro e he
      simpa using (hhigher e he).le
    · intro e he
      simpa using hlower e he (rl, services) List.mem_cons_self
  rw [heq, hfilter]

/-- The hooks of a pipeline: those before a run level, those of the run level, and those
    behind it. -/
theorem exists_all_eq (h : (rl, services) ∈ hooks.services.entries) :
    ∃ behind, hooks.all = hooks.before rl ++ (services ++ behind) := by
  obtain ⟨higher, heq⟩ := exists_lower h
  refine ⟨(higher.map Prod.snd).flatten, ?_⟩
  rw [all, heq, List.map_append, List.map_cons, List.flatten_append, List.flatten_cons, before,
    List.append_assoc]

/-- The batches of a pipeline are those of its parts. -/
theorem exists_batches (α : Type) {parallelHooks : Nat} (hc : 1 ≤ parallelHooks) :
    ∃ split : List α → List (List α),
      (∀ l, (split l).flatten = l ∧ ∀ b ∈ split l, b.length ≤ parallelHooks) ∧
      ∀ hooks : HookPipeline α, hooks.batches parallelHooks = some
        (split hooks.templates.list ++
          (hooks.services.entries.map fun e => split e.2).flatten) := by
  choose split hsplit hprop using splitSubprocessesAcrossCores_eq (α := α) hc
  refine ⟨split, hprop, fun hooks => ?_⟩
  have hmapM : hooks.services.entries.mapM (fun e =>
      splitSubprocessesAcrossCores e.2 parallelHooks) =
        some (hooks.services.entries.map fun e => split e.2) := by
    rw [funext fun e : Nat × List α => hsplit e.2]
    exact List.mapM_pure
  rw [batches, hsplit, hmapM]
  rfl

theorem scheduled_of_sound {split : List α → List (List α)} {p : Progress α}
    (hsplit : ∀ l, (split l).flatten = l ∧ ∀ b ∈ split l, b.length ≤ parallelHooks)
    (hsound : Sound (split hooks.templates.list ++
      (hooks.services.entries.map fun e => split e.2).flatten) p) :
    hooks.Scheduled parallelHooks p := by
  have hflat : ∀ es : List (Nat × List α),
      (es.map fun e => split e.2).flatten.flatten = (es.map Prod.snd).flatten := by
    intro es
    rw [List.flatten_flatten, List.map_map]
    exact congrArg List.flatten (List.map_congr_left fun e _ => (hsplit e.2).1)
  have hall : (split hooks.templates.list ++
      (hooks.services.entries.map fun e => split e.2).flatten).flatten = hooks.all := by
    rw [List.flatten_append, (hsplit _).1, hflat, all]
  have hstarted : p.started <+: hooks.all := hall ▸ hsound.prefix_started
  refine ⟨hstarted, fun ho => hsound.length_running_le ho fun b hb => ?_,
    fun rl services h => ?_, fun ho => hall ▸ hsound.perm_of_succeeded ho⟩
  · rcases List.mem_append.1 hb with hb | hb
    · exact (hsplit _).2 b hb
    · obtain ⟨bs, hbs, hb⟩ := List.mem_flatten.1 hb
      obtain ⟨e, _, rfl⟩ := List.mem_map.1 hbs
      exact (hsplit _).2 b hb
  · obtain ⟨higher, heq⟩ := exists_lower h
    obtain ⟨behind, hbehind⟩ := exists_all_eq h
    have hbefore : (split hooks.templates.list ++ ((hooks.services.entries.filter
        fun e => e.1 < rl).map fun e => split e.2).flatten).flatten = hooks.before rl := by
      rw [List.flatten_append, (hsplit _).1, hflat, before]
    -- As long as no more has been started than comes before the level, it is only that.
    rcases Nat.lt_or_ge (hooks.before rl).length p.started.length with hlt | hle
    · refine .inr ?_
      rw [← hbefore] at hlt ⊢
      have hbatches : split hooks.templates.list ++
          (hooks.services.entries.map fun e => split e.2).flatten =
            (split hooks.templates.list ++ ((hooks.services.entries.filter
              fun e => e.1 < rl).map fun e => split e.2).flatten) ++
                (split services ++ (higher.map fun e => split e.2).flatten) := by
        conv_lhs => rw [heq]
        rw [List.map_append, List.map_cons, List.flatten_append, List.flatten_cons,
          List.append_assoc]
      exact hsound.subperm_succeeded hbatches hlt
    · refine .inl (List.prefix_of_prefix_length_le hstarted ?_ hle)
      rw [hbehind]
      exact List.prefix_append _ _

/-- Whatever happens, the hooks run as scheduled. -/
theorem scheduled_runHooks [DecidableEq α] (hooks : HookPipeline α) (hc : 1 ≤ parallelHooks)
    (completed : List (α × Bool)) :
    ∃ p, hooks.runHooks parallelHooks completed = some p ∧ hooks.Scheduled parallelHooks p := by
  obtain ⟨split, hsplit, hbatches⟩ := exists_batches α hc
  exact ⟨_, by rw [runHooks, hbatches]; rfl, scheduled_of_sound hsplit (sound_run _ completed)⟩

/-- After a failure, nothing is started. -/
theorem started_of_failed [DecidableEq α] {completed : List (α × Bool)} {p : Progress α}
    (h : hooks.runHooks parallelHooks completed = some p) (ho : p.outcome = .failed)
    (later : List (α × Bool)) :
    ∃ p', hooks.runHooks parallelHooks (completed ++ later) = some p' ∧
      p'.started = p.started := by
  rw [runHooks] at h ⊢
  cases hb : hooks.batches parallelHooks with
  | none => rw [hb] at h; cases h
  | some batches =>
    rw [hb] at h
    obtain rfl := Option.some.inj h
    exact ⟨_, rfl, by rw [run_append, started_run_of_failed ho]⟩

end running

end HookPipeline

/-- The hooks, and how many of them may run at once. -/
structure HookManager where
  table : HookTable
  parallelHooks : Nat

namespace HookManager

/-- The pipeline of all hooks. -/
def getAllHooks (m : HookManager) : HookPipeline HookUser where
  templates := (m.table.byType .templater).foldl .emplace .empty
  services := m.table.getOrderedServices

/-- The pipeline of the hooks of the changed keys. -/
def getHooksToRun (m : HookManager) (committed : ConfigPairList) (runServices : Bool) :
    HookPipeline HookUser where
  templates := committed.foldl (fun templates pair =>
    (m.table.byType .templater).foldl (fun templates templater =>
      if templater.hasHook pair.key then templates.emplace templater else templates)
      templates) .empty
  services := committed.foldl (fun services pair =>
    if runServices then
      (m.table.runLevelOrder .service).foldl (fun services service =>
        if service.hasHook pair.key then services.add service.runLevel service else services)
        services
    else services) .empty

/-- The pipeline of the hook of a name, if there is one. -/
def hookToTrigger (m : HookManager) (name : String) : Option (HookPipeline HookUser) :=
  (m.table.byName name).map fun hook =>
    match hook.type with
    | .templater => ⟨TemplatesSet.empty.emplace hook, .empty⟩
    -- The run level does not matter for a single service.
    | .service => ⟨.empty, RunLevelServicesMap.empty.add 1 hook⟩

/-- The pipelines that the hook manager runs. -/
inductive Runs (m : HookManager) : HookPipeline HookUser → Prop
  | all : Runs m m.getAllHooks
  | committed (committed : ConfigPairList) (runServices : Bool) :
    Runs m (m.getHooksToRun committed runServices)
  | trigger {name : String} {hooks : HookPipeline HookUser} :
    m.hookToTrigger name = some hooks → Runs m hooks

/-- What holds of the services of pipelines: each is listed once, at its run level. -/
def ServicesListed (services : RunLevelServicesMap HookUser) : Prop :=
  ∀ e ∈ services.entries, e.2.Nodup ∧ ∀ s ∈ e.2, s.type = .service ∧ s.runLevel = e.1

/-- What holds of the templates of pipelines. -/
def TemplatesListed (templates : TemplatesSet HookUser) : Prop :=
  ∀ t ∈ templates.list, t.type = .templater

variable {templates : TemplatesSet HookUser} {services : RunLevelServicesMap HookUser}
  {template service : HookUser}

theorem templatesListed_empty : TemplatesListed .empty := fun _ ht => absurd ht List.not_mem_nil

theorem servicesListed_empty : ServicesListed .empty := fun _ he => absurd he List.not_mem_nil

theorem TemplatesListed.emplace (h : TemplatesListed templates)
    (htemplate : template.type = .templater) : TemplatesListed (templates.emplace template) := by
  intro t ht
  rcases List.mem_insert_iff.1 ht with rfl | ht
  · exact htemplate
  · exact h t ht

theorem ServicesListed.add (h : ServicesListed services) (hservice : service.type = .service) :
    ServicesListed (services.add service.runLevel service) := by
  intro e he
  rcases RunLevelServicesMap.mem_addEntry he with rfl | he | ⟨hooks, hmem, hnew, rfl⟩
  · refine ⟨List.nodup_singleton _, fun s hs => ?_⟩
    rw [List.mem_singleton.1 hs]
    exact ⟨hservice, rfl⟩
  · exact h e he
  · obtain ⟨hnodup, hprop⟩ := h _ hmem
    refine ⟨?_, fun s hs => ?_⟩
    · exact List.nodup_append.2 ⟨hnodup, List.nodup_singleton _, fun a ha b hb hab =>
        hnew (by rw [← List.mem_singleton.1 hb, ← hab]; exact ha)⟩
    · rcases List.mem_append.1 hs with hs | hs
      · exact hprop s hs
      · rw [List.mem_singleton.1 hs]
        exact ⟨hservice, rfl⟩

theorem ServicesListed.nodup (h : ServicesListed services) :
    (services.entries.map Prod.snd).flatten.Nodup := by
  refine List.nodup_flatten.2 ⟨fun l hl => ?_, ?_⟩
  · obtain ⟨e, he, rfl⟩ := List.mem_map.1 hl
    exact (h e he).1
  · rw [List.pairwise_map]
    refine services.sorted.imp_of_mem fun {a b} ha hb hlt s hsa hsb => ?_
    rw [← ((h a ha).2 s hsa).2, ← ((h b hb).2 s hsb).2] at hlt
    exact absurd hlt (lt_irrefl _)

/-- A pipeline lists each hook once when it lists templates as such, and services by
    their run levels. -/
theorem nodup_all {hooks : HookPipeline HookUser} (htemplates : TemplatesListed hooks.templates)
    (hservices : ServicesListed hooks.services) : hooks.all.Nodup := by
  refine List.nodup_append.2 ⟨hooks.templates.nodup, hservices.nodup, fun t ht s hs hts => ?_⟩
  obtain ⟨l, hl, hs⟩ := List.mem_flatten.1 hs
  obtain ⟨e, he, rfl⟩ := List.mem_map.1 hl
  have htype := htemplates t ht
  rw [hts, ((hservices e he).2 s hs).1] at htype
  cases htype

theorem type_of_mem_runLevelOrder {t : HookTable} {type : HookType}
    (h : service ∈ t.runLevelOrder type) : service.type = type := by
  rw [HookTable.runLevelOrder, List.mem_insertionSort, HookTable.byType, List.mem_filter] at h
  exact of_decide_eq_true h.2

theorem type_of_mem_byType {t : HookTable} {type : HookType} (h : service ∈ t.byType type) :
    service.type = type :=
  of_decide_eq_true (List.mem_filter.1 h).2

/-- The pipelines of the hook manager list each hook once. -/
theorem Runs.nodup_all {m : HookManager} {hooks : HookPipeline HookUser} (h : m.Runs hooks) :
    hooks.all.Nodup := by
  cases h with
  | all =>
    refine HookManager.nodup_all ?_ ?_
    · exact List.foldlRecOn (motive := TemplatesListed) _ _ templatesListed_empty
        fun _ htemplates _ ht => htemplates.emplace (type_of_mem_byType ht)
    · exact List.foldlRecOn (motive := ServicesListed) _ _ servicesListed_empty
        fun _ hservices _ hs => hservices.add (type_of_mem_runLevelOrder hs)
  | committed committed runServices =>
    -- Along the pairs, and for each pair along the hooks: adding a hook again adds nothing.
    refine HookManager.nodup_all ?_ ?_
    · refine List.foldlRecOn (motive := TemplatesListed) _ _ templatesListed_empty
        fun _ htemplates _ _ => List.foldlRecOn (motive := TemplatesListed) _ _ htemplates
          fun _ htemplates _ ht => ?_
      split
      · exact htemplates.emplace (type_of_mem_byType ht)
      · exact htemplates
    · refine List.foldlRecOn (motive := ServicesListed) _ _ servicesListed_empty
        fun _ hservices _ _ => ?_
      split
      · refine List.foldlRecOn (motive := ServicesListed) _ _ hservices
          fun _ hservices _ hs => ?_
        split
        · exact hservices.add (type_of_mem_runLevelOrder hs)
        · exact hservices
      · exact hservices
  | trigger h =>
    obtain ⟨hook, _, rfl⟩ := Option.map_eq_some_iff.1 h
    cases hook.type with
    | templater => exact List.nodup_singleton hook
    | service => exact List.nodup_singleton hook

/-- Whatever the pipeline is, and in whatever order and with whatever outcomes the hooks
    complete, they run as scheduled, and nothing is started after a failure. Those of the
    pipelines that the hook manager makes are started at most once. -/
theorem scheduled (hooks : HookPipeline HookUser) {parallelHooks : Nat} (hc : 1 ≤ parallelHooks)
    (completed : List (HookUser × Bool)) :
    ∃ p, hooks.runHooks parallelHooks completed = some p ∧ hooks.Scheduled parallelHooks p ∧
      (∀ m : HookManager, m.Runs hooks → p.started.Nodup) ∧
      (p.outcome = .failed → ∀ later, ∃ p',
        hooks.runHooks parallelHooks (completed ++ later) = some p' ∧ p'.started = p.started) := by
  obtain ⟨p, hp, hscheduled⟩ := hooks.scheduled_runHooks hc completed
  exact ⟨p, hp, hscheduled, fun m hm => hm.nodup_all.sublist hscheduled.inOrder.sublist,
    fun ho later => HookPipeline.started_of_failed hp ho later⟩

/-- A template and services of two run levels; the template has failed. -/
theorem scheduled_templateFailed :
    let template : HookUser := ⟨"template1", .templater, [⟨.ofString "hook2", false⟩], 1⟩
    let service1 : HookUser := ⟨"service1", .service, [⟨.ofString "hook2", false⟩], 1⟩
    let service3 : HookUser := ⟨"service3", .service, [⟨.ofString "hook3", false⟩], 2⟩
    let hooks : HookPipeline HookUser :=
      ⟨TemplatesSet.empty.emplace template,
        (RunLevelServicesMap.empty.add 2 service3).add 1 service1⟩
    ∃ p, hooks.runHooks 1 [(template, false)] = some p ∧ hooks.Scheduled 1 p ∧
      (∀ m : HookManager, m.Runs hooks → p.started.Nodup) ∧
      (p.outcome = .failed → ∀ later, ∃ p',
        hooks.runHooks 1 ([(template, false)] ++ later) = some p' ∧ p'.started = p.started) :=
  scheduled _ (by decide) _

/-- A service that a pipeline lists twice is started twice. -/
theorem runHooks_listedTwice (service : HookUser) :
    HookPipeline.runHooks ⟨.empty, ⟨[(1, [service, service])], List.pairwise_singleton _ _⟩⟩ 2 [] =
      some ⟨[], [service, service], [service, service], [], .pending⟩ := by
  simp [HookPipeline.runHooks, HookPipeline.batches, splitSubprocessesAcrossCores, fillBuckets,
    TemplatesSet.empty, start, launch]

theorem not_forall_nodup_started :
    ¬ ∀ (hooks : HookPipeline HookUser) (parallelHooks : Nat)
      (completed : List (HookUser × Bool)) (p : Progress HookUser), 1 ≤ parallelHooks →
      hooks.runHooks parallelHooks completed = some p → p.started.Nodup := by
  intro h
  have hstarted := h _ 2 [] _ (by decide)
    (runHooks_listedTwice ⟨"service1", .service, [⟨.ofString "hook2", false⟩], 1⟩)
  exact absurd hstarted (by decide)

end HookManager

end SysAdmin
