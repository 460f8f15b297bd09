import Mathlib.Tactic.Ring
import SysAdmin.Configurator
import SysAdmin.ExternalRunner
import SysAdmin.Foundation.Chains
import SysAdmin.HookSelection
import SysAdmin.KeyPaths

/-!
# Processes of hooks

A file names the templates and the services, each with the keys that it is for. From the file come
the hooks of the hook manager (`hookManagerFactory`), each of which runs a process. This is started
only if all of these keys are there, but for patterns and those marked as optional
(`fulfillHooks`).

A hook is done at once if a key is missing, or if its process is detached; otherwise the hook
manager waits for the process (`jobs`). So a pipeline is a chain of futures, whose batches are
started in the states in which the daemon is then.

* `FullHooksConfig.decode_document`: what is read from a file;
* `HookSetup.mem_hooks_iff`: the hooks of the manager are the first ones of their names;
* `HookSetup.ranHooks_run`: in all states of a pipeline, its hooks run as scheduled, and what is
  known of a hook that has succeeded or failed is what has become of its process.
-/

namespace SysAdmin

open Futures Machine

/-! ## Hook files -/

/-- A node of a hook file. Scalars are texts. -/
inductive HooksNode
  | null
  | scalar (text : String)
  | sequence (items : List HooksNode)
  | map (entries : List (String × HooksNode))

namespace HooksNode

variable {α : Type}

/-- The node under a key, if there is one. Asking a scalar throws. -/
def get : HooksNode → String → Option (Option HooksNode)
  | map entries, key => some ((entries.find? fun e => e.1 = key).map Prod.snd)
  | null, _ | sequence _, _ => some none
  | scalar _, _ => none

def asString : HooksNode → Option String
  | scalar text => some text
  | null | sequence _ | map _ => none

/-- A required field (`DECODE_REQUIRED`). -/
def decodeRequired (as : HooksNode → Option α) (node : HooksNode) (key : String) : Option α := do
  match ← node.get key with
  | some field => as field
  | none => none

/-- A field with a default (`DECODE_OPTIONAL`). -/
def decodeOptional (as : HooksNode → Option α) (default : α) (node : HooksNode) (key : String) :
    Option α := do
  match ← node.get key with
  | some field => as field
  | none => some default

/-- A required field with a sequence (`DECODE_REQUIRED_SEQUENCE`). -/
def decodeRequiredSequence (as : HooksNode → Option α) (node : HooksNode) (key : String) :
    Option (List α) := do
  match ← node.get key with
  | some (sequence items) => items.mapM as
  | some null | some (scalar _) | some (map _) | none => none

/-- A field that is left empty if it is not a sequence (`DECODE_OPTIONAL_SEQUENCE`). -/
def decodeOptionalSequence (as : HooksNode → Option α) (node : HooksNode) (key : String) :
    Option (List α) := do
  match ← node.get key with
  | some (sequence items) => items.mapM as
  | some null | some (scalar _) | some (map _) | none => some []

variable {as : HooksNode → Option α} {node field : HooksNode} {key : String}
  {items : List HooksNode}

theorem decodeRequired_eq (h : node.get key = some (some field)) :
    decodeRequired as node key = as field := by
  rw [decodeRequired, h]
  rfl

theorem decodeOptional_eq {default : α} (h : node.get key = some (some field)) :
    decodeOptional as default node key = as field := by
  rw [decodeOptional, h]
  rfl

theorem decodeRequiredSequence_eq (h : node.get key = some (some (sequence items))) :
    decodeRequiredSequence as node key = items.mapM as := by
  rw [decodeRequiredSequence, h]
  rfl

theorem decodeOptionalSequence_eq (h : node.get key = some (some (sequence items))) :
    decodeOptionalSequence as node key = items.mapM as := by
  rw [decodeOptionalSequence, h]
  rfl

/-- What is in a sequence has been read from some node. -/
theorem exists_of_mem_mapM {as : HooksNode → Option α} {l : List α} (h : items.mapM as = some l)
    {a : α} (ha : a ∈ l) : ∃ item, as item = some a := by
  have hall := mapM_eq_some_iff.1 h
  clear h
  induction hall with
  | nil => cases ha
  | cons hitem _ ih =>
    rcases List.mem_cons.1 ha with rfl | ha
    · exact ⟨_, hitem⟩
    · exact ih ha

/-- What is decoded has been decoded from the items, one by one. -/
theorem exists_of_decodeRequiredSequence {l : List α}
    (h : decodeRequiredSequence as node key = some l) : ∀ a ∈ l, ∃ item, as item = some a := by
  obtain ⟨field, -, h⟩ := Option.bind_eq_some_iff.1 h
  split at h
  · exact fun a ha => exists_of_mem_mapM h ha
  · cases h
  · cases h
  · cases h
  · cases h

theorem exists_of_decodeOptionalSequence {l : List α}
    (h : decodeOptionalSequence as node key = some l) : ∀ a ∈ l, ∃ item, as item = some a := by
  obtain ⟨field, -, h⟩ := Option.bind_eq_some_iff.1 h
  split at h
  · exact fun a ha => exists_of_mem_mapM h ha
  all_goals
    rw [← Option.some.inj h]
    exact fun a ha => absurd ha List.not_mem_nil

end HooksNode

open HooksNode

structure TemplateConfig where
  name : String
  path : String
  destination : String
  arguments : List String
  hooks : List HookConfig
  deriving DecidableEq

structure ServiceConfig where
  name : String
  path : String
  hooks : List HookConfig
  runLevel : ℕ
  arguments : List String
  runOptions : RunOptions
  deriving DecidableEq

structure FullHooksConfig where
  services : List ServiceConfig
  templaterPath : String
  templates : List TemplateConfig
  deriving DecidableEq

/-- A key, or a map whose first key is one that may be missing. -/
def HookConfig.decode (node : HooksNode) : Option HookConfig :=
  match node.asString with
  | some key => some ⟨.ofString key, false⟩
  | none =>
    match node with
    | .map ((key, _) :: _) => some ⟨.ofString key, true⟩
    | .map [] | .null | .scalar _ | .sequence _ => none

def TemplateConfig.decode (node : HooksNode) : Option TemplateConfig := do
  let name ← decodeRequired asString node "name"
  let path ← decodeRequired asString node "template_location"
  let destination ← decodeRequired asString node "destination"
  let hooks ← decodeRequiredSequence HookConfig.decode node "hooks"
  let arguments ← decodeOptionalSequence asString node "arguments"
  return { name, path, destination, arguments, hooks }

def decodeRunOptions (optionstr : String) : RunOptions :=
  if optionstr = "detach" then .detach
  else if optionstr = "default" then .default
  else if optionstr = "ignore" then .ignore
  else .invalid

/-- The options of a service, which must be known. -/
def decodeOptions (node : HooksNode) : Option RunOptions := do
  match ← node.get "options" with
  | some field => (field.asString.map decodeRunOptions).filter (· ≠ .invalid)
  | none => some (decodeRunOptions "default")

section decode

-- `asSizeT` reads a text as a `size_t`
variable (asSizeT : String → Option ℕ)

def ServiceConfig.decode (node : HooksNode) : Option ServiceConfig := do
  let name ← decodeRequired asString node "name"
  let path ← decodeRequired asString node "script"
  let hooks ← decodeRequiredSequence HookConfig.decode node "hooks"
  let runLevel ← decodeOptional (fun field => field.asString.bind asSizeT) 1 node "runlevel"
  let arguments ← decodeOptionalSequence asString node "arguments"
  let runOptions ← decodeOptions node
  return { name, path, hooks, runLevel, arguments, runOptions }

def FullHooksConfig.decode (node : HooksNode) : Option FullHooksConfig := do
  let services ← decodeOptionalSequence (ServiceConfig.decode asSizeT) node "services"
  let templates ← decodeOptionalSequence TemplateConfig.decode node "templates"
  let templaterPath ← decodeRequired asString node "templater_path"
  return { services, templaterPath, templates }

end decode

/-! ### What is read -/

/-- The node of a key of a hook. -/
def HookConfig.document (h : HookConfig) : HooksNode :=
  if h.isOptional then .map [(h.key.toString, .scalar "optional")] else .scalar h.key.toString

def TemplateConfig.document (t : TemplateConfig) : HooksNode :=
  .map [("name", .scalar t.name), ("template_location", .scalar t.path),
    ("destination", .scalar t.destination), ("hooks", .sequence (t.hooks.map HookConfig.document)),
    ("arguments", .sequence (t.arguments.map .scalar))]

/-- The text of an option. -/
def RunOptions.text : RunOptions → String
  | .default => "default"
  | .detach => "detach"
  | .ignore => "ignore"
  | .invalid => "invalid"

def ServiceConfig.document (s : ServiceConfig) : HooksNode :=
  .map [("name", .scalar s.name), ("script", .scalar s.path),
    ("hooks", .sequence (s.hooks.map HookConfig.document)),
    ("runlevel", .scalar (toString s.runLevel)),
    ("arguments", .sequence (s.arguments.map .scalar)), ("options", .scalar s.runOptions.text)]

/-- The document of a file with the given hooks. -/
def FullHooksConfig.document (c : FullHooksConfig) : HooksNode :=
  .map [("templater_path", .scalar c.templaterPath),
    ("templates", .sequence (c.templates.map TemplateConfig.document)),
    ("services", .sequence (c.services.map ServiceConfig.document))]

/-- All keys are those of texts, and all options are known. -/
structure FullHooksConfig.WellFormed (c : FullHooksConfig) : Prop where
  template_keys : ∀ t ∈ c.templates, ∀ h ∈ t.hooks, ∃ text, h.key = .ofString text
  service_keys : ∀ s ∈ c.services, ∀ h ∈ s.hooks, ∃ text, h.key = .ofString text
  options : ∀ s ∈ c.services, s.runOptions ≠ .invalid

/-- The key of a hook is that of a text. -/
theorem HookConfig.key_of_decode {node : HooksNode} {h : HookConfig}
    (hdecode : HookConfig.decode node = some h) : ∃ text, h.key = .ofString text := by
  unfold HookConfig.decode at hdecode
  split at hdecode
  · next key _ => exact ⟨key, by rw [← Option.some.inj hdecode]⟩
  · split at hdecode
    · next key _ _ _ => exact ⟨key, by rw [← Option.some.inj hdecode]⟩
    all_goals cases hdecode

theorem TemplateConfig.keys_of_decode {node : HooksNode} {t : TemplateConfig}
    (hdecode : TemplateConfig.decode node = some t) :
    ∀ h ∈ t.hooks, ∃ text, h.key = .ofString text := by
  obtain ⟨name, -, hdecode⟩ := Option.bind_eq_some_iff.1 hdecode
  obtain ⟨path, -, hdecode⟩ := Option.bind_eq_some_iff.1 hdecode
  obtain ⟨destination, -, hdecode⟩ := Option.bind_eq_some_iff.1 hdecode
  obtain ⟨hooks, hhooks, hdecode⟩ := Option.bind_eq_some_iff.1 hdecode
  obtain ⟨arguments, -, hdecode⟩ := Option.bind_eq_some_iff.1 hdecode
  rw [← Option.some.inj hdecode]
  intro h hh
  obtain ⟨item, hitem⟩ := exists_of_decodeRequiredSequence hhooks h hh
  exact HookConfig.key_of_decode hitem

/-- Unknown options are no service, and the keys are those of texts. -/
theorem ServiceConfig.wellFormed_of_decode {asSizeT : String → Option ℕ} {node : HooksNode}
    {s : ServiceConfig} (hdecode : ServiceConfig.decode asSizeT node = some s) :
    (∀ h ∈ s.hooks, ∃ text, h.key = .ofString text) ∧ s.runOptions ≠ .invalid := by
  obtain ⟨name, -, hdecode⟩ := Option.bind_eq_some_iff.1 hdecode
  obtain ⟨path, -, hdecode⟩ := Option.bind_eq_some_iff.1 hdecode
  obtain ⟨hooks, hhooks, hdecode⟩ := Option.bind_eq_some_iff.1 hdecode
  obtain ⟨runLevel, -, hdecode⟩ := Option.bind_eq_some_iff.1 hdecode
  obtain ⟨arguments, -, hdecode⟩ := Option.bind_eq_some_iff.1 hdecode
  obtain ⟨runOptions, hoptions, hdecode⟩ := Option.bind_eq_some_iff.1 hdecode
  rw [← Option.some.inj hdecode]
  refine ⟨fun h hh => ?_, ?_⟩
  · obtain ⟨item, hitem⟩ := exists_of_decodeRequiredSequence hhooks h hh
    exact HookConfig.key_of_decode hitem
  · obtain ⟨field, -, hoptions⟩ := Option.bind_eq_some_iff.1 hoptions
    split at hoptions
    · simpa using (Option.filter_eq_some_iff.1 hoptions).2
    · rw [← Option.some.inj hoptions]
      exact (by decide : decodeRunOptions "default" ≠ .invalid)

/-- A hook is read back from its document. -/
theorem decode_document_hook {h : HookConfig} (hkey : ∃ text, h.key = .ofString text) :
    HookConfig.decode h.document = some h := by
  obtain ⟨key, isOptional⟩ := h
  obtain ⟨text, rfl⟩ := hkey
  cases isOptional with
  | false => simp [HookConfig.document, HookConfig.decode, asString, ConfigKey.toString_ofString]
  | true => simp [HookConfig.document, HookConfig.decode, asString, ConfigKey.toString_ofString]

/-- Reading the documents of some items. -/
theorem mapM_document {α : Type} {document : α → HooksNode} {decode : HooksNode → Option α}
    {l : List α} (h : ∀ a ∈ l, decode (document a) = some a) :
    (l.map document).mapM decode = some l :=
  mapM_eq_some_iff.2 (List.forall₂_map_left_iff.2 (List.forall₂_same.2 h))

theorem mapM_asString (l : List String) : (l.map .scalar).mapM asString = some l :=
  mapM_document fun _ _ => rfl

theorem decode_document_template {t : TemplateConfig}
    (hkeys : ∀ h ∈ t.hooks, ∃ text, h.key = .ofString text) :
    TemplateConfig.decode t.document = some t := by
  have hhooks : (t.hooks.map HookConfig.document).mapM HookConfig.decode = some t.hooks :=
    mapM_document fun h hh => decode_document_hook (hkeys h hh)
  rw [TemplateConfig.decode, TemplateConfig.document, decodeRequired_eq rfl, decodeRequired_eq rfl,
    decodeRequired_eq rfl, decodeRequiredSequence_eq rfl, decodeOptionalSequence_eq rfl, hhooks,
    mapM_asString]
  rfl

/-- Each option has a text, but for the unknown ones. -/
theorem decodeRunOptions_text (o : RunOptions) : decodeRunOptions o.text = o := by
  cases o <;> decide

variable {asSizeT : String → Option ℕ}

theorem decode_document_service {s : ServiceConfig}
    (hsize : asSizeT (toString s.runLevel) = some s.runLevel)
    (hkeys : ∀ h ∈ s.hooks, ∃ text, h.key = .ofString text) :
    ServiceConfig.decode asSizeT s.document = if s.runOptions = .invalid then none else some s := by
  have hhooks : (s.hooks.map HookConfig.document).mapM HookConfig.decode = some s.hooks :=
    mapM_document fun h hh => decode_document_hook (hkeys h hh)
  have hoptions : decodeOptions s.document =
      if s.runOptions = .invalid then none else some s.runOptions := by
    have hget : s.document.get "options" = some (some (.scalar s.runOptions.text)) := rfl
    rw [decodeOptions, hget]
    simp only [Option.bind_eq_bind, Option.bind_some, asString, Option.map_some,
      decodeRunOptions_text, Option.filter_some]
    simp
  rw [ServiceConfig.decode, hoptions, ServiceConfig.document, decodeRequired_eq rfl,
    decodeRequired_eq rfl, decodeRequiredSequence_eq rfl, decodeOptional_eq rfl,
    decodeOptionalSequence_eq rfl, hhooks, mapM_asString]
  simp only [asString, Option.bind_eq_bind, Option.bind_some, hsize]
  split <;> rfl

/-- What is read from a file is well formed, and whatever is so can be read. -/
theorem FullHooksConfig.decode_document (hsize : ∀ n < 2 ^ 64, asSizeT (toString n) = some n) :
    (∀ node config, FullHooksConfig.decode asSizeT node = some config → config.WellFormed) ∧
      ∀ config : FullHooksConfig, config.WellFormed →
        (∀ s ∈ config.services, s.runLevel < 2 ^ 64) →
          FullHooksConfig.decode asSizeT config.document = some config := by
  constructor
  · intro node config hdecode
    obtain ⟨services, hservices, hdecode⟩ := Option.bind_eq_some_iff.1 hdecode
    obtain ⟨templates, htemplates, hdecode⟩ := Option.bind_eq_some_iff.1 hdecode
    obtain ⟨templaterPath, -, hdecode⟩ := Option.bind_eq_some_iff.1 hdecode
    rw [← Option.some.inj hdecode]
    -- What has been read is well formed, service by service.
    have hservice : ∀ s ∈ services, (∀ h ∈ s.hooks, ∃ text, h.key = .ofString text) ∧
        s.runOptions ≠ .invalid := by
      intro s hs
      obtain ⟨item, hitem⟩ := exists_of_decodeOptionalSequence hservices s hs
      exact ServiceConfig.wellFormed_of_decode hitem
    refine ⟨fun t ht => ?_, fun s hs => (hservice s hs).1, fun s hs => (hservice s hs).2⟩
    obtain ⟨item, hitem⟩ := exists_of_decodeOptionalSequence htemplates t ht
    exact TemplateConfig.keys_of_decode hitem
  · intro config hconfig hlevels
    have htemplates : (config.templates.map TemplateConfig.document).mapM TemplateConfig.decode =
        some config.templates := mapM_document fun t ht =>
      decode_document_template (hconfig.template_keys t ht)
    have hservices : (config.services.map ServiceConfig.document).mapM
        (ServiceConfig.decode asSizeT) = some config.services := mapM_document fun s hs =>
      (decode_document_service (hsize _ (hlevels s hs)) (hconfig.service_keys s hs)).trans
        (if_neg (hconfig.options s hs))
    rw [FullHooksConfig.decode, FullHooksConfig.document, decodeOptionalSequence_eq rfl,
      decodeOptionalSequence_eq rfl, decodeRequired_eq rfl, hservices, htemplates]
    rfl

/-- Run levels in decimal digits. -/
theorem FullHooksConfig.decode_document_digits :
    let asSizeT (text : String) : Option ℕ := (lexicalCast text.toList).filter (· < 2 ^ 64)
    (∀ node config, FullHooksConfig.decode asSizeT node = some config → config.WellFormed) ∧
      ∀ config : FullHooksConfig, config.WellFormed →
        (∀ s ∈ config.services, s.runLevel < 2 ^ 64) →
          FullHooksConfig.decode asSizeT config.document = some config :=
  decode_document fun n hn => by
    have hdigits : lexicalCast (toString n).toList = some n := by
      rw [Nat.toString_eq_repr, Nat.toList_repr, lexicalCast, if_pos, Nat.ofDigitChars_ten_toDigits]
      exact ⟨Nat.toDigits_ne_nil, List.all_eq_true.2 fun c hc =>
        Nat.isDigit_of_mem_toDigits (by decide) (by decide) hc⟩
    rw [hdigits, Option.filter_some, if_pos (decide_eq_true hn)]

/-! ## The hooks of a file -/

/-- The order in which a set of hooks is gone through. -/
structure HookContainer where
  iterate : List HookConfig → List HookConfig
  mem_iterate : ∀ hooks h, h ∈ iterate hooks ↔ h ∈ hooks

/-- What a hook runs (`ExternalRunner`). -/
structure Runner where
  leadingArgs : List String
  options : RunOptions

/-- A hook with its runner. -/
structure ConfiguredHook where
  user : HookUser
  runner : Runner

def combineArguments (paths arguments : List String) : List String :=
  paths ++ (if arguments.length > 0 then "--template-args" :: arguments else []) ++ ["--committed"]

def TemplateConfig.hook (container : HookContainer) (templaterPath : String) (t : TemplateConfig) :
    ConfiguredHook :=
  ⟨⟨t.name, .templater, container.iterate t.hooks, 1⟩,
    ⟨combineArguments [templaterPath, t.path, t.destination] t.arguments, .default⟩⟩

def ServiceConfig.hook (container : HookContainer) (s : ServiceConfig) : ConfiguredHook :=
  ⟨⟨s.name, .service, container.iterate s.hooks, s.runLevel⟩, ⟨s.path :: s.arguments, s.runOptions⟩⟩

/-- The hooks, in the order in which they are inserted. -/
def FullHooksConfig.hooks (container : HookContainer) (config : FullHooksConfig) :
    List ConfiguredHook :=
  config.templates.map (TemplateConfig.hook container config.templaterPath) ++
    config.services.map (ServiceConfig.hook container)

def hookManagerFactory (container : HookContainer) (config : FullHooksConfig)
    (parallelHooks : ℕ) : HookManager :=
  ⟨.ofInserted ((config.hooks container).map ConfiguredHook.user), parallelHooks⟩

/-- What the daemon is started with. With no hooks in parallel, it divides by zero. -/
structure HookSetup where
  container : HookContainer
  config : FullHooksConfig
  parallelHooks : ℕ
  parallel_pos : 1 ≤ parallelHooks
  uv_strerror : Int32 → String

namespace HookSetup

variable (setup : HookSetup)

def hooks : List ConfiguredHook := setup.config.hooks setup.container

def manager : HookManager := hookManagerFactory setup.container setup.config setup.parallelHooks

/-- The runner of a hook of the manager. -/
def runner (hook : HookUser) : Runner :=
  ((setup.hooks.find? fun h => h.user.name = hook.name).map ConfiguredHook.runner).getD
    ⟨[], .default⟩

variable {setup} {hook : HookUser}

/-- The hooks of the manager are the first ones of their names, with their runners. -/
theorem mem_hooks_iff : hook ∈ setup.manager.table.hooks ↔
    ∃ before behind, setup.hooks = before ++ ⟨hook, setup.runner hook⟩ :: behind ∧
      ∀ h ∈ before, h.user.name ≠ hook.name := by
  have hmem : hook ∈ setup.manager.table.hooks ↔
      (setup.hooks.find? fun h => h.user.name = hook.name).map ConfiguredHook.user = some hook := by
    rw [HookTable.mem_hooks_iff, manager, hookManagerFactory, HookTable.byName_ofInserted,
      List.find?_map]
    rfl
  rw [hmem, Option.map_eq_some_iff]
  constructor
  · rintro ⟨h, hfind, rfl⟩
    obtain ⟨-, before, behind, heq, hbefore⟩ := List.find?_eq_some_iff_append.1 hfind
    refine ⟨before, behind, ?_, fun h' hh' => by simpa using hbefore h' hh'⟩
    rw [runner, hfind]
    exact heq
  · rintro ⟨before, behind, heq, hbefore⟩
    refine ⟨⟨hook, setup.runner hook⟩, List.find?_eq_some_iff_append.2 ⟨by simp, before, behind,
      heq, fun h hh => by simpa using hbefore h hh⟩, rfl⟩

end HookSetup

/-! ## Processes -/

/-- The keys of the hooks, unless one is missing. -/
def fulfillHooks (sysadmin : Configurator) : List HookConfig → Except String (List ConfigKey)
  | [] => .ok []
  | hook :: hooks =>
    if hook.key.isWildcard then (fulfillHooks sysadmin hooks).map (hook.key :: ·)
    else
      match unwrapSinglePair (sysadmin.get hook.key) with
      | some pair => (fulfillHooks sysadmin hooks).map (pair.key :: ·)
      | none =>
        if hook.isOptional then fulfillHooks sysadmin hooks
        else .error ("Couldn't satisfy hook: " ++ hook.key.toString)

/-- A key of a hook is missing. -/
def HookConfig.Missing (sysadmin : Configurator) (hook : HookConfig) : Prop :=
  hook.key.isWildcard = false ∧ hook.isOptional = false ∧ sysadmin.store hook.key = none

section fulfill

variable {sysadmin : Configurator} {hook : HookConfig} {hooks : List HookConfig}

theorem fulfillHooks_cons_of_missing (h : hook.Missing sysadmin) :
    fulfillHooks sysadmin (hook :: hooks) =
      .error ("Couldn't satisfy hook: " ++ hook.key.toString) := by
  obtain ⟨hwild, hoptional, hstore⟩ := h
  have hget : unwrapSinglePair (sysadmin.get hook.key) = none := by
    rw [Configurator.get, MemoryCache.unwrapSinglePair_get hwild]
    exact congrArg (Option.map _) hstore
  simp [fulfillHooks, hwild, hget, hoptional]

/-- A key that is there, or need not be, leaves the outcome to the others. -/
theorem fulfillHooks_cons_of_not_missing (hooks : List HookConfig) (h : ¬ hook.Missing sysadmin) :
    ∃ f, fulfillHooks sysadmin (hook :: hooks) = (fulfillHooks sysadmin hooks).map f := by
  rw [fulfillHooks]
  cases hwild : hook.key.isWildcard with
  | true => exact ⟨_, rfl⟩
  | false =>
    simp only [Bool.false_eq_true, if_false]
    rcases hget : unwrapSinglePair (sysadmin.get hook.key) with _ | pair
    · cases hoptional : hook.isOptional with
      | true => exact ⟨id, by rcases fulfillHooks sysadmin hooks with _ | _ <;> rfl⟩
      | false =>
        rw [Configurator.get, MemoryCache.unwrapSinglePair_get hwild,
          Option.map_eq_none_iff] at hget
        exact absurd ⟨hwild, hoptional, hget⟩ h
    · exact ⟨_, rfl⟩

variable (sysadmin hooks) in
/-- The hooks are fulfilled, or one of the keys is missing. -/
theorem fulfillHooks_cases :
    (∃ keys, fulfillHooks sysadmin hooks = .ok keys) ∧ (∀ hook ∈ hooks, ¬ hook.Missing sysadmin) ∨
      ∃ hook ∈ hooks, hook.Missing sysadmin ∧
        fulfillHooks sysadmin hooks = .error ("Couldn't satisfy hook: " ++ hook.key.toString) := by
  induction hooks with
  | nil => exact .inl ⟨⟨[], rfl⟩, fun _ h => absurd h List.not_mem_nil⟩
  | cons hook hooks ih =>
    by_cases hmissing : hook.Missing sysadmin
    · exact .inr ⟨hook, List.mem_cons_self, hmissing, fulfillHooks_cons_of_missing hmissing⟩
    · obtain ⟨f, hf⟩ := fulfillHooks_cons_of_not_missing hooks hmissing
      rw [hf]
      rcases ih with ⟨⟨keys, hkeys⟩, hall⟩ | ⟨h, hh, hh', herror⟩
      · exact .inl ⟨⟨f keys, by rw [hkeys]; rfl⟩, List.forall_mem_cons.2 ⟨hmissing, hall⟩⟩
      · exact .inr ⟨h, List.mem_cons_of_mem _ hh, hh', by rw [herror]; rfl⟩

end fulfill

/-- How the process of a hook ends, as far as its runner hears of it: it exits, is killed by a
    signal, or another run of the hook takes its place. A process that ends without its runner
    hearing of it has no end here. -/
inductive ProcessEnd
  | exited (status : Int32)
  | killed (signal : Int32)
  | superseded
  deriving DecidableEq

/-- The exit status that is reported to the runner. For a process that is killed it is 0, and the
    runner does not look at the signal. -/
def ProcessEnd.status : ProcessEnd → Option Int32
  | exited status => some status
  | killed _ => some 0
  | superseded => none

namespace HookSetup

variable (setup : HookSetup)

/-- Executes the external process of a hook, if its keys are there. -/
def executeExternalProcess (sysadmin : Configurator) (hook : HookUser) :
    Option (Completion RunException Unit) :=
  match fulfillHooks sysadmin hook.hooks with
  | .ok _ => RunCall.start.outcome setup.uv_strerror (setup.runner hook).options
  | .error what => some (.exception (.externalRunnerError what))

/-- What the future of a run completes with when its process ends. -/
def finish (hook : HookUser) (how : ProcessEnd) : Completion RunException Unit :=
  match how.status with
  | some status => RunCall.outcomeOf setup.uv_strerror (setup.runner hook).options status
  | none => .exception .brokenPromise

/-- The hooks as jobs. -/
def jobs : Chains.Jobs Configurator HookUser ProcessEnd RunException where
  execute := setup.executeExternalProcess
  finish := setup.finish

end HookSetup

/-- The hooks of a pipeline as they run. -/
abbrev HookChain := Chains.Chain Configurator HookUser ProcessEnd RunException

/-- The end of a process, and the daemon then. -/
structure HookEvent where
  sysadmin : Configurator
  hook : HookUser
  how : ProcessEnd

/-- All keys of the hook are there. -/
def HookUser.Fulfilled (sysadmin : Configurator) (hook : HookUser) : Prop :=
  ∀ h ∈ hook.hooks, ¬ h.Missing sysadmin

namespace HookSetup

variable (setup : HookSetup)

/-- Starts the hooks of a pipeline. -/
def runHooks (sysadmin : Configurator) (hooks : HookPipeline HookUser) : HookChain :=
  Chains.start setup.jobs sysadmin ((hooks.batches setup.parallelHooks).getD [])

/-- A process ends. -/
def ends (c : HookChain) (e : HookEvent) : HookChain :=
  Chains.step setup.jobs e.sysadmin c e.hook e.how

/-- The keys of the hook were there when it was started, and its process has been detached, or has
    ended with the status 0, unless this does not matter. -/
def HasSucceeded (c : HookChain) (hook : HookUser) : Prop :=
  ∃ sysadmin, (sysadmin, hook) ∈ c.started ∧ hook.Fulfilled sysadmin ∧
    ((setup.runner hook).options = .detach ∨ ∃ how status, (hook, how) ∈ c.ended ∧
      how.status = some status ∧ (status = 0 ∨ (setup.runner hook).options = .ignore))

/-- A key of the hook was missing when it was started, or its process has exited with another
    status than 0, or another one has taken its place. -/
def HasFailed (c : HookChain) (hook : HookUser) (e : RunException) : Prop :=
  ∃ sysadmin, (sysadmin, hook) ∈ c.started ∧
    ((∃ h ∈ hook.hooks, h.Missing sysadmin ∧
        e = .externalRunnerError ("Couldn't satisfy hook: " ++ h.key.toString)) ∨
      hook.Fulfilled sysadmin ∧ (setup.runner hook).options ≠ .detach ∧
        ((∃ status, (hook, .exited status) ∈ c.ended ∧ status ≠ 0 ∧
            (setup.runner hook).options ≠ .ignore ∧
            e = .externalRunnerError (setup.uv_strerror status)) ∨
          (hook, .superseded) ∈ c.ended ∧ e = .brokenPromise))

/-- What holds of a pipeline at any time: its hooks run as scheduled, and those that have succeeded
    or failed have done so for a reason. As long as it is not done, it waits for the end of a
    process that has been started: either this runs, or its runner has not heard of the end. -/
structure RanHooks (hooks : HookPipeline HookUser) (c : HookChain) : Prop where
  scheduled : hooks.Scheduled setup.parallelHooks c.progress
  succeeded : ∀ hook ∈ c.succeeded, setup.HasSucceeded c hook
  failed : ∀ e, c.result = some (.exception e) → ∃ hook, setup.HasFailed c hook e
  waiting : c.result = none → ∃ sysadmin hook, (sysadmin, hook) ∈ c.started ∧
    hook.Fulfilled sysadmin ∧ (setup.runner hook).options ≠ .detach ∧
      ∀ how, (hook, how) ∉ c.ended

variable {setup} {sysadmin : Configurator} {hook : HookUser} {hooks : HookPipeline HookUser}
  {c : HookChain} {e : RunException}

/-- A hook is done at once if a key is missing, or its process is detached. -/
theorem executeExternalProcess_cases (setup : HookSetup) (sysadmin : Configurator)
    (hook : HookUser) :
    (∃ h ∈ hook.hooks, h.Missing sysadmin ∧ setup.executeExternalProcess sysadmin hook =
        some (.exception (.externalRunnerError ("Couldn't satisfy hook: " ++ h.key.toString)))) ∨
      hook.Fulfilled sysadmin ∧ (setup.runner hook).options = .detach ∧
        setup.executeExternalProcess sysadmin hook = some (.value ()) ∨
      hook.Fulfilled sysadmin ∧ (setup.runner hook).options ≠ .detach ∧
        setup.executeExternalProcess sysadmin hook = none := by
  rw [executeExternalProcess]
  rcases fulfillHooks_cases sysadmin hook.hooks with
    ⟨⟨keys, hkeys⟩, hall⟩ | ⟨h, hh, hmissing, herror⟩
  · rw [hkeys]
    by_cases hdetach : (setup.runner hook).options = .detach
    · exact .inr (.inl ⟨hall, hdetach, RunCall.outcome_of_detach hdetach⟩)
    · have hnone : RunCall.start.outcome setup.uv_strerror (setup.runner hook).options = none :=
        @RunCall.outcome_of_heard _ _ _ [] hdetach rfl
      exact .inr (.inr ⟨hall, hdetach, hnone⟩)
  · rw [herror]
    exact .inl ⟨h, hh, hmissing, rfl⟩

/-- A future that completes with a value tells of the status 0, or of a process whose status is
    ignored. -/
theorem finish_eq_value {how : ProcessEnd} (h : setup.finish hook how = .value ()) :
    ∃ status, how.status = some status ∧
      (status = 0 ∨ (setup.runner hook).options = .ignore) := by
  rw [finish] at h
  split at h
  · next status hstatus =>
    refine ⟨status, hstatus, ?_⟩
    by_contra hne
    push Not at hne
    rw [RunCall.outcomeOf, if_pos hne] at h
    cases h
  · cases h

/-- One that completes with an exception tells of another status, or of a promise that is gone. -/
theorem finish_eq_exception {how : ProcessEnd} (h : setup.finish hook how = .exception e) :
    (∃ status, how = .exited status ∧ status ≠ 0 ∧ (setup.runner hook).options ≠ .ignore ∧
        e = .externalRunnerError (setup.uv_strerror status)) ∨
      how = .superseded ∧ e = .brokenPromise := by
  cases how with
  | superseded => exact .inr ⟨rfl, (Completion.exception.inj h).symm⟩
  | killed signal =>
    rw [finish, ProcessEnd.status] at h
    dsimp only at h
    rw [RunCall.outcomeOf, if_neg fun hne => hne.1 rfl] at h
    cases h
  | exited status =>
    rw [finish, ProcessEnd.status] at h
    dsimp only at h
    rw [RunCall.outcomeOf] at h
    split at h
    · next hne => exact .inl ⟨status, rfl, hne.1, hne.2, (Completion.exception.inj h).symm⟩
    · cases h

theorem hasSucceeded_of_completed
    (h : Chains.Completed setup.jobs c.started c.ended hook (.value ())) :
    setup.HasSucceeded c hook := by
  obtain ⟨sysadmin, hmem, h⟩ := h
  rcases executeExternalProcess_cases setup sysadmin hook with
    ⟨_, _, _, hex⟩ | ⟨hall, hdetach, _⟩ | ⟨hall, _, hex⟩
  · rcases h with h | ⟨h, _⟩ <;> cases hex.symm.trans h
  · exact ⟨sysadmin, hmem, hall, .inl hdetach⟩
  · rcases h with h | ⟨_, how, hhow, hfinish⟩
    · cases hex.symm.trans h
    · obtain ⟨status, heq, hstatus⟩ := finish_eq_value hfinish
      exact ⟨sysadmin, hmem, hall, .inr ⟨how, status, hhow, heq, hstatus⟩⟩

theorem hasFailed_of_completed
    (h : Chains.Completed setup.jobs c.started c.ended hook (.exception e)) :
    setup.HasFailed c hook e := by
  obtain ⟨sysadmin, hmem, h⟩ := h
  rcases executeExternalProcess_cases setup sysadmin hook with
    ⟨k, hk, hmissing, hex⟩ | ⟨_, _, hex⟩ | ⟨hall, hdetach, hex⟩
  · rcases h with h | ⟨h, _⟩
    · refine ⟨sysadmin, hmem, .inl ⟨k, hk, hmissing, ?_⟩⟩
      exact (Completion.exception.inj (Option.some.inj (hex.symm.trans h))).symm
    · cases hex.symm.trans h
  · rcases h with h | ⟨h, _⟩ <;> cases hex.symm.trans h
  · rcases h with h | ⟨_, how, hhow, hfinish⟩
    · cases hex.symm.trans h
    · refine ⟨sysadmin, hmem, .inr ⟨hall, hdetach, ?_⟩⟩
      rcases finish_eq_exception hfinish with ⟨status, rfl, hne, hignore, he⟩ | ⟨rfl, he⟩
      · exact .inl ⟨status, hhow, hne, hignore, he⟩
      · exact .inr ⟨hhow, he⟩

/-- The chain is a run of the batches of the pipeline. -/
structure IsRunOf (setup : HookSetup) (hooks : HookPipeline HookUser) (c : HookChain) : Prop where
  sound : Chains.Sound setup.jobs c
  exists_completed : ∃ completed, hooks.runHooks setup.parallelHooks completed = some c.progress

/-- The start of a pipeline is a run of it. -/
theorem isRunOf_runHooks (setup : HookSetup) (sysadmin : Configurator)
    (hooks : HookPipeline HookUser) : setup.IsRunOf hooks (setup.runHooks sysadmin hooks) := by
  refine ⟨Chains.sound_launch (fun _ h => absurd h List.not_mem_nil) List.nil_subperm, ?_⟩
  obtain ⟨split, -, hbatches⟩ := HookPipeline.exists_batches HookUser setup.parallel_pos
  obtain ⟨es, hes⟩ := Chains.exists_run_launch setup.jobs sysadmin [] [] []
    (split hooks.templates.list ++ (hooks.services.entries.map fun e => split e.2).flatten)
  refine ⟨es, ?_⟩
  rw [HookPipeline.runHooks, hbatches, runHooks, hbatches, Option.getD_some, Chains.start, hes]
  rfl

/-- It stays one, whichever process ends. -/
theorem IsRunOf.ends (h : setup.IsRunOf hooks c) (e : HookEvent) :
    setup.IsRunOf hooks (setup.ends c e) := by
  refine ⟨h.sound.step, ?_⟩
  obtain ⟨completed, hrun⟩ := h.exists_completed
  obtain ⟨es, hes⟩ := Chains.exists_run_step setup.jobs e.sysadmin c e.hook e.how
  refine ⟨completed ++ es, ?_⟩
  obtain ⟨split, -, hbatches⟩ := HookPipeline.exists_batches HookUser setup.parallel_pos
  rw [HookPipeline.runHooks, hbatches] at hrun ⊢
  obtain hrun := Option.some.inj hrun
  refine congrArg some ?_
  rw [run_append, hrun, HookSetup.ends, hes]

/-- What holds of the batches in general holds of the hooks. -/
theorem IsRunOf.ranHooks (h : setup.IsRunOf hooks c) (hhooks : setup.manager.Runs hooks) :
    setup.RanHooks hooks c := by
  obtain ⟨completed, hrun⟩ := h.exists_completed
  obtain ⟨p, hp, hscheduled⟩ := hooks.scheduled_runHooks setup.parallel_pos completed
  obtain rfl : p = c.progress := Option.some.inj (hp.symm.trans hrun)
  refine ⟨hscheduled, fun hook hhook => hasSucceeded_of_completed (h.sound.succeeded hook hhook),
    fun e he => ?_, fun hnone => ?_⟩
  · obtain ⟨hook, hhook⟩ := h.sound.failed e he
    exact ⟨hook, hasFailed_of_completed hhook⟩
  · obtain ⟨hook, hhook⟩ := List.exists_mem_of_ne_nil _ (h.sound.waiting hnone)
    obtain ⟨sysadmin, hmem, hex⟩ := h.sound.running hook hhook
    -- The hook has been started once, and so has no end yet.
    have hnodup : (c.started.map Prod.snd).Nodup :=
      hhooks.nodup_all.sublist hscheduled.inOrder.sublist
    obtain ⟨names, hperm, hsub⟩ := h.sound.ended
    have hdisjoint := (List.nodup_append'.1 (hperm.nodup_iff.1 (hnodup.sublist hsub))).2.2
    refine ⟨sysadmin, hook, hmem, ?_⟩
    rcases executeExternalProcess_cases setup sysadmin hook with
      ⟨k, -, -, hexec⟩ | ⟨-, -, hexec⟩ | ⟨hall, hdetach, -⟩
    · cases hex.symm.trans hexec
    · cases hex.symm.trans hexec
    · exact ⟨hall, hdetach, fun how hhow => hdisjoint (List.mem_map_of_mem hhow) hhook⟩

/-- In all states, the hooks of a pipeline run as scheduled, each of them at most once, and those
    that have succeeded or failed have done so for a reason. After a failure, nothing is
    started. -/
theorem ranHooks_run (setup : HookSetup) (sysadmin : Configurator) (hooks : HookPipeline HookUser)
    (hhooks : setup.manager.Runs hooks) (es : List HookEvent) :
    Always setup.ends (fun c => setup.RanHooks hooks c ∧ (c.started.map Prod.snd).Nodup ∧
      ∀ e, c.result = some (.exception e) → ∀ later, (run setup.ends c later).started = c.started)
      (setup.runHooks sysadmin hooks) es := by
  -- A pipeline with a result starts nothing, whatever processes end.
  have hdone : ∀ (r : Completion RunException Unit) (later : List HookEvent) (c : HookChain),
      c.result = some r → (run setup.ends c later).started = c.started := by
    intro r later
    induction later with
    | nil => exact fun _ _ => rfl
    | cons e later ih =>
      intro c hc
      obtain ⟨hresult, hstarted⟩ := Chains.step_of_result setup.jobs e.sysadmin e.hook e.how hc
      rw [run_cons, ih (setup.ends c e) hresult]
      exact hstarted
  have hrun : Always setup.ends (setup.IsRunOf hooks) (setup.runHooks sysadmin hooks) es :=
    Always.of_step _ (G := fun _ _ => True) (isRunOf_runHooks setup sysadmin hooks)
      (fun _ e h _ => h.ends e) (guarded_of_forall fun _ _ => trivial)
  refine hrun.mono fun c hc => ⟨hc.ranHooks hhooks, ?_, fun e he later => hdone _ later c he⟩
  exact hhooks.nodup_all.sublist (hc.ranHooks hhooks).scheduled.inOrder.sublist

/-- A service for a key, with a process that is waited for. -/
def ofService (name key : String) : HookSetup :=
  ⟨⟨id, fun _ _ => Iff.rfl⟩, ⟨[⟨name, name, [⟨.ofString key, false⟩], 1, [], .default⟩], "", []⟩, 1,
    le_rfl, fun _ => "the process has failed"⟩

/-- Three services with keys that may be missing, one after the other. -/
def threeServices : HookSetup where
  container := ⟨id, fun _ _ => Iff.rfl⟩
  config := ⟨[⟨"mtu", "mtu", [⟨.ofString "net.mtu", true⟩], 1, [], .default⟩,
    ⟨"clock", "clock", [⟨.ofString "time.zone", true⟩], 2, [], .default⟩,
    ⟨"route", "route", [⟨.ofString "net.route", true⟩], 3, [], .default⟩], "", []⟩
  parallelHooks := 1
  parallel_pos := le_rfl
  uv_strerror _ := "the process has failed"

/-- The process of the first service exits, and then that of the second one with another status
    than 0. The third one is not started. -/
def secondFails : List HookEvent :=
  [⟨.onEmpty "/s".toList .ofIds 3, ⟨"mtu", .service, [⟨.ofString "net.mtu", true⟩], 1⟩, .exited 0⟩,
    ⟨.onEmpty "/s".toList .ofIds 3, ⟨"clock", .service, [⟨.ofString "time.zone", true⟩], 2⟩,
      .exited 1⟩]

theorem ranHooks_run_secondFails :
    let start := threeServices.runHooks (.onEmpty "/s".toList .ofIds 3)
      threeServices.manager.getAllHooks
    (run threeServices.ends start secondFails).started.map (fun p => p.2.name) = ["mtu", "clock"] ∧
      Always threeServices.ends (fun c =>
        threeServices.RanHooks threeServices.manager.getAllHooks c ∧
          (c.started.map Prod.snd).Nodup ∧ ∀ e, c.result = some (.exception e) →
            ∀ later, (run threeServices.ends c later).started = c.started) start secondFails :=
  ⟨by decide +kernel, ranHooks_run threeServices _ _ .all secondFails⟩

end HookSetup

end SysAdmin
