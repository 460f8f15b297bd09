import SysAdmin.TypeChanges

/-!
# Renaming keys

To rename a key, a migration stages the erasing of the key and sets another one to its value,
both in the bucket of its client. The second of the two may be refused, or raise before anything
is sent, and the bucket is committed all the same.

* `ConfigKey.SavedAt`: a commit saves the value of a key at another;
* `Configurator.store_commit_erased`, `Configurator.store_commit_set`: what a commit leaves of the
  keys;
* `Link.moves_iff`: the value is moved, or both keys are as before, exactly if nothing is
  committed, or the new key is set (but for keys of which one saves the value of the other).
-/

namespace SysAdmin

open Writes

/-! ## A bucket with more items behind it -/

/-- A commit that writes to a key saves its value at another. -/
def ConfigKey.SavedAt (k x : ConfigKey) : Prop :=
  k.inDefault = false ∧ k.inLast = false ∧ k.lastKey = x

instance (k x : ConfigKey) : Decidable (k.SavedAt x) := inferInstanceAs (Decidable (_ ∧ _ ∧ _))

namespace Configurator

variable {c : Configurator} {env : Environment} {id : ClientId} {k k' x : ConfigKey}
  {p : ConfigPair} {v : ConfigValue} {configOpt : CommitConfig} {item : Option ConfigPair}
  {old new : ConfigPairList}

theorem toOption_getD_store : ((c.store k).getD .none).toOption = c.store k := by
  rcases h : c.store k with _ | v
  · rfl
  · rw [Option.getD_some, ConfigValue.toOption, MemoryCache.not_empty_of_store h]
    rfl

/-- What is saved for an item. -/
theorem lastItem_oldItem (hp : p.key.isWildcard = false) :
    (lastItem x (c.oldItem p).toList).map (fun q => q.value.toOption) =
      if p.key.SavedAt x then some (c.store p.key) else none := by
  split
  · next h =>
    obtain ⟨hd, hl, rfl⟩ := h
    simp [oldItem_of_not_wildcard hp, hd, hl, lastItem, lastWrite, toOption_getD_store]
  · next h =>
    rw [Option.map_eq_none_iff, lastItem_eq_none_iff]
    intro q hq hqx
    rw [Option.mem_toList] at hq
    refine h ?_
    rw [← hqx, key_of_oldItem hq]
    rw [oldItem_of_not_wildcard hp] at hq
    split at hq
    · cases hq
    · next hn =>
      rw [Bool.or_eq_true, not_or, Bool.not_eq_true, Bool.not_eq_true] at hn
      exact ⟨hn.1, hn.2, rfl⟩

theorem lastItem_singleton : (lastItem x [p]).map (fun q => q.value.toOption) =
    if p.key = x then some p.value.toOption else none := by
  by_cases hx : p.key = x
  · simp [lastItem, lastWrite, hx]
  · simp [lastItem, lastWrite, hx]

theorem filterMap_singleton {f : ConfigPair → Option ConfigPair} :
    [p].filterMap f = (f p).toList := by
  rcases h : f p <;> simp [h]

theorem getD_map_or {o o' : Option ConfigPair} {d : Option ConfigValue} :
    ((o.or o').map fun q => q.value.toOption).getD d =
      (o.map fun q => q.value.toOption).getD ((o'.map fun q => q.value.toOption).getD d) := by
  rcases o with _ | q <;> rfl

theorem getD_ite {P : Prop} [Decidable P] {a d : Option ConfigValue} :
    (if P then some a else none).getD d = if P then a else d := by
  split <;> rfl

/-- Where the items before do not matter, a commit writes the items behind them, or what it
    saves for these. -/
theorem store_commit_of_staged (hs : c.inFlightItems.staged id = old ++ new)
    (hold : ∀ q ∈ old, q.key ≠ x ∧ q.key.lastKey ≠ x) :
    (c.commit env id configOpt).1.store x =
      if c.Committable id ∧ c.CanLog env id then
        (((lastItem x (new.filterMap c.oldItem)).or (lastItem x new)).map
          fun q => q.value.toOption).getD (c.store x)
      else c.store x := by
  have hitems : lastItem x old = none := lastItem_eq_none_iff.2 fun q hq => (hold q hq).1
  have hsaved : lastItem x (old.filterMap c.oldItem) = none := by
    refine lastItem_eq_none_iff.2 fun r hr => ?_
    obtain ⟨q, hq, hqr⟩ := List.mem_filterMap.1 hr
    rw [key_of_oldItem hqr]
    exact (hold q hq).2
  simp only [Configurator.store_commit, logged_ne_none_iff]
  split
  · rw [overlay_apply, lastWrite_writes, toApply, hs, List.filterMap_append]
    simp only [lastItem_append, hitems, hsaved, Option.or_none]
  · rfl

/-! ## Erasing a key and setting another -/

/-- A key is erased, and another one set, if there is a pair for it. -/
def rename (c : Configurator) (id : ClientId) (k : ConfigKey) (item : Option ConfigPair) :
    Configurator := (c.erase k id).setSome id item

/-- The pair is staged: there is one, and its key has no value of another type. -/
def Takes (c : Configurator) (item : Option ConfigPair) : Prop :=
  ∃ p ∈ item, ∀ v, c.store p.key = some v → v.typeCheck p.value = true

section

variable (hk : k.isWildcard = false) (hl : c.inFlightItems.isBucketLocked id = false)

include hk hl

omit hl in
theorem isBucketLocked_rename : (c.rename id k item).inFlightItems.isBucketLocked id =
    c.inFlightItems.isBucketLocked id := by
  rw [rename, erase_eq_stage hk]
  obtain ⟨hsame, _⟩ | ⟨p, _, _, hstage⟩ := setSome_cases (c.stage id [.ofKey k]) id item
  · rw [hsame, isBucketLocked_stage_self]
  · rw [hstage, isBucketLocked_stage_self, isBucketLocked_stage_self]

omit hl in
theorem store_rename : (c.rename id k item).store = c.store := by
  rw [rename, erase_eq_stage hk]
  obtain ⟨hsame, _⟩ | ⟨p, _, _, hstage⟩ := setSome_cases (c.stage id [.ofKey k]) id item
  · rw [hsame]
    rfl
  · rw [hstage]
    rfl

theorem rename_cases (hitem : ∀ p ∈ item, p.key.isWildcard = false) :
    (¬c.Takes item ∧ c.rename id k item = c.stage id [.ofKey k]) ∨
      ∃ p ∈ item, c.Takes item ∧
        c.rename id k item = (c.stage id [.ofKey k]).stage id [p] := by
  have hopen : (c.stage id [.ofKey k]).inFlightItems.isBucketLocked id = false :=
    isBucketLocked_stage_self.trans hl
  have haccepted : ∀ p ∈ item, ((c.stage id [.ofKey k]).set p id).2.accepted = true ↔
      ∀ v, c.store p.key = some v → v.typeCheck p.value = true := by
    intro p hp
    rw [accepted_set, MemoryCache.typeCheck_iff (hitem p hp)]
    exact and_iff_left hopen
  rw [rename, erase_eq_stage hk]
  obtain ⟨hsame, hrefused⟩ | ⟨p, hp, hacc, hstage⟩ := setSome_cases (c.stage id [.ofKey k]) id item
  · refine .inl ⟨?_, hsame⟩
    rintro ⟨p, hp, htype⟩
    exact hrefused p hp ((haccepted p hp).2 htype)
  · exact .inr ⟨p, hp, ⟨p, hp, (haccepted p hp).1 hacc⟩, hstage⟩

/-- What a commit leaves of a key for which nothing else is staged, if no pair is set. -/
theorem store_commit_erased (hx : c.Unstaged id x)
    (hlog : (c.stage id [.ofKey k]).CanLog env id) :
    ((c.stage id [.ofKey k]).commit env id configOpt).1.store x =
      if k.SavedAt x then c.store k else if k = x then none else c.store x := by
  have hstaged : (c.stage id [.ofKey k]).inFlightItems.staged id =
      c.inFlightItems.staged id ++ [.ofKey k] := by rw [staged_stage, if_pos rfl]
  rw [store_commit_of_staged hstaged hx, if_pos ⟨committable_stage.2 hl, hlog⟩,
    filterMap_singleton, getD_map_or, lastItem_oldItem hk, lastItem_singleton, getD_ite, getD_ite]
  rfl

/-- The same if a pair is set. -/
theorem store_commit_set (hp : p.key.isWildcard = false) (hx : c.Unstaged id x)
    (hlog : ((c.stage id [.ofKey k]).stage id [p]).CanLog env id) :
    (((c.stage id [.ofKey k]).stage id [p]).commit env id configOpt).1.store x =
      if p.key.SavedAt x then c.store p.key
      else if k.SavedAt x then c.store k
      else if p.key = x then p.value.toOption
      else if k = x then none else c.store x := by
  have hopen : (c.stage id [.ofKey k]).inFlightItems.isBucketLocked id = false :=
    isBucketLocked_stage_self.trans hl
  have hstaged : ((c.stage id [.ofKey k]).stage id [p]).inFlightItems.staged id =
      c.inFlightItems.staged id ++ ([.ofKey k] ++ [p]) := by
    rw [staged_stage, if_pos rfl, staged_stage, if_pos rfl, List.append_assoc]
  rw [store_commit_of_staged hstaged hx, if_pos ⟨committable_stage.2 hopen, hlog⟩,
    List.filterMap_append, filterMap_singleton, filterMap_singleton, lastItem_append,
    lastItem_append, Option.or_assoc, getD_map_or, getD_map_or, getD_map_or, lastItem_oldItem hp,
    lastItem_oldItem hk, lastItem_singleton, lastItem_singleton, getD_ite, getD_ite, getD_ite,
    getD_ite]
  rfl

end

/-! ### Moving a value -/

/-- The value has moved from one key to another, or both are as before. -/
def Moved (before after : ConfigKey → Option ConfigValue) (k k' : ConfigKey) : Prop :=
  (after k' = before k ∧ after k = none) ∨ (after k = before k ∧ after k' = before k')

theorem inLast_of_savedAt (h : k.SavedAt x) : x.inLast = true := by
  rw [← h.2.2]
  by_cases hk : k.subKeys = []
  · have htext : k.toString = "" := by
      rw [ConfigKey.toString, hk]
      rfl
    rw [ConfigKey.lastKey, htext]
    decide
  · exact ConfigKey.inLast_lastKey hk

theorem not_savedAt_self : ¬k.SavedAt k := fun h => ConfigKey.lastKey_ne h.2.2

section

variable (hk : k.isWildcard = false) (hl : c.inFlightItems.isBucketLocked id = false)
  (hv : c.store k = some v) (hu : c.Unstaged id k) (hu' : c.Unstaged id k')

include hk hl hv hu hu'

/-- If the other key is not set, it has to have the value by itself, or as the saved one. -/
theorem moved_erased_iff (hlog : (c.stage id [.ofKey k]).CanLog env id) :
    Moved c.store ((c.stage id [.ofKey k]).commit env id configOpt).1.store k k' ↔
      k ≠ k' ∧ (c.store k' = some v ∨ k.SavedAt k') := by
  rw [Moved, store_commit_erased hk hl hu hlog, store_commit_erased hk hl hu' hlog,
    if_neg not_savedAt_self, if_pos rfl, hv]
  by_cases hsave : k.SavedAt k'
  · have hne : k ≠ k' := fun h => not_savedAt_self (h ▸ hsave)
    simp [hsave, hne]
  · by_cases hkk : k = k'
    · simp [hkk, not_savedAt_self]
    · simp [hsave, hkk]

/-- If the other key is set, it must not save its own value at the key. -/
theorem moved_set_iff (hp : p.key.isWildcard = false) (hkey : p.key = k') (hval : p.value = v)
    (hlast : k'.inLast = false)
    (hlog : ((c.stage id [.ofKey k]).stage id [p]).CanLog env id) :
    Moved c.store (((c.stage id [.ofKey k]).stage id [p]).commit env id configOpt).1.store k k' ↔
      (k'.SavedAt k → c.store k' = none ∨ c.store k' = some v) := by
  have hother : ¬k.SavedAt k' := fun h => by simp [inLast_of_savedAt h] at hlast
  have hwritten : p.value.toOption = some v := by
    rw [hval, ConfigValue.toOption, MemoryCache.not_empty_of_store hv]
    rfl
  rw [Moved, store_commit_set hk hl hp hu hlog, store_commit_set hk hl hp hu' hlog, hkey,
    if_neg not_savedAt_self, if_neg not_savedAt_self, if_neg hother, if_pos rfl, hwritten, hv]
  by_cases hsave : k'.SavedAt k
  · -- The old value of the other key is saved where the value has been.
    rw [if_pos hsave, imp_iff_right hsave]
    exact or_congr (and_iff_right rfl) (and_iff_left_of_imp Eq.symm)
  · refine iff_of_true ?_ fun h => absurd h hsave
    rw [if_neg hsave]
    by_cases hkk : k' = k
    · exact .inr ⟨if_pos hkk, by rw [hkk, hv]⟩
    · exact .inl ⟨rfl, by rw [if_neg hkk, if_pos rfl]⟩

end

end Configurator

/-! ## The script with the daemon -/

namespace Migrations

open Scripts Script Configurator SysAdminController ProtobufTranslator

namespace Link

variable (l : Link) (s : Daemon) (client : Client) (oldkey newkey : String)

/-- The clients send a value that is set without the name of a type in the field that the value
    tells. -/
def inferring : Link where
  __ := l
  otherField value overrideType :=
    match overrideType with
    | .none => unpackIntoProto value
    | .bool _ | .int _ | .str _ | .other _ | .list _ | .dict _ => l.otherField value overrideType

/-- The daemon when a key has been renamed, or the script has raised on the way. -/
def renamed : Daemon :=
  l.inferring.after s (renameKey (l.inferring.world s) client oldkey (.str newkey) []).2

/-- The value has moved to the new key after the next commit of the client, or both keys are as
    before. -/
def Moves (env : Environment) (opt : CommitConfig) : Prop :=
  Moved s.conf.store
    ((l.renamed s client oldkey newkey).conf.commit env (l.bucket client) opt).1.store
    (.ofString oldkey) (.ofString newkey)

/-- The next commit of the client is applied: its bucket is not locked, and what has been staged
    can be logged. -/
def Applies (env : Environment) : Prop :=
  s.conf.inFlightItems.isBucketLocked (l.bucket client) = false ∧
    (l.renamed s client oldkey newkey).conf.CanLog env (l.bucket client)

/-- The new key is set: the value is no empty list, the key is not refused, and has no value of
    another type. -/
structure Sets (v : ConfigValue) : Prop where
  encodes : ∀ field ∈ (copyConfigValue v).value, ¬IsEmptyList field
  takes : refusesKey (.ofString newkey) = false
  typed : ∀ w, s.conf.store (.ofString newkey) = some w → w.typeCheck v = true

/-- The new key gets the value, and the old one is gone. When the new key is set, its own value may
    be saved at the old key; when it is not, the old value may be saved at the new key. -/
def Gets (v : ConfigValue) : Prop :=
  (Sets s newkey v ∧ ((ConfigKey.ofString newkey).SavedAt (.ofString oldkey) →
    s.conf.store (.ofString newkey) = none ∨ s.conf.store (.ofString newkey) = some v)) ∨
  (¬Sets s newkey v ∧ ConfigKey.ofString oldkey ≠ .ofString newkey ∧
    (s.conf.store (.ofString newkey) = some v ∨
      (ConfigKey.ofString oldkey).SavedAt (.ofString newkey)))

variable {l s client oldkey newkey} {v : ConfigValue} {env : Environment} {opt : CommitConfig}
  {value : PyValue} {p : ConfigPair}

theorem setField_inferring : l.inferring.setField value .none = unpackIntoProto value := by
  rw [setField]
  · rfl
  · intro _ _ _ h
    cases h
  · intro _ _ _ _ h
    cases h

/-- What `set` stages for a value that has been read. -/
theorem item_inferring (hv : v.empty = false) :
    l.inferring.item newkey (unpackFromProto (existingField oldkey v)) .none =
      if (∀ field ∈ (copyConfigValue v).value, ¬IsEmptyList field) ∧
          refusesKey (.ofString newkey) = false then
        some ⟨.ofString newkey, v⟩
      else none := by
  obtain ⟨field, hcopy⟩ : ∃ field, copyConfigValue v = ⟨some field⟩ := by
    have hread := valueOf_copyConfigValue hv
    rcases hm : copyConfigValue v with ⟨_ | field⟩
    · rw [hm] at hread
      cases hread
    · exact ⟨field, rfl⟩
  have hval : valueOf ⟨some field⟩ = some v := hcopy ▸ valueOf_copyConfigValue hv
  have hset : translateToSet newkey (some ⟨some field⟩) = some ⟨.ofString newkey, v⟩ := by
    rw [translateToSet, Option.bind_some, hval]
    rfl
  simp only [item, setField_inferring, existingField, hcopy, Option.mem_some_iff, forall_eq']
  by_cases hempty : IsEmptyList field
  · rw [unpackIntoProto_of_isEmptyList _ hempty, if_neg fun h => h.1 hempty]
    rfl
  · rw [(unpackIntoProto_unpackFromProto_iff _ _).2 hempty, Option.bind_some, Option.map_some, hset]
    rcases Bool.eq_false_or_eq_true (refusesKey (.ofString newkey)) with hkey | hkey
    · simp [Option.filter, hkey]
    · simp [Option.filter, hkey, hempty]

theorem conf_renamed (hk : (ConfigKey.ofString oldkey).isWildcard = false)
    (hold : s.conf.store (.ofString oldkey) = some v) :
    (l.renamed s client oldkey newkey).conf =
      s.conf.rename (l.bucket client) (.ofString oldkey)
        (l.inferring.item newkey (unpackFromProto (existingField oldkey v)) .none) := by
  obtain ⟨r, hget, hstatus, hfield⟩ := @answer_get l.inferring s client oldkey v hk hold
  have hworld : l.inferring.world s [] (.get client (.str oldkey)) = some r := hget
  obtain ⟨r', herase⟩ : ∃ r', l.inferring.world s ([] ++ [⟨.get client (.str oldkey), some r⟩])
    (.erase client (.str oldkey)) = some r' := ⟨_, rfl⟩
  rw [renamed, renameKey, send_bind_of_some hworld, if_neg hstatus, send_bind_of_some herase,
    hfield, ofOption_some_bind, snd_send_bind_pure, after_append, conf_serve_set, after_append,
    conf_serve_erase]
  rfl

theorem takes_item_iff (hv : v.empty = false) :
    s.conf.Takes (l.inferring.item newkey (unpackFromProto (existingField oldkey v)) .none) ↔
      Sets s newkey v := by
  rw [item_inferring hv]
  split
  · next h =>
    refine ⟨?_, fun hs => ⟨_, rfl, hs.typed⟩⟩
    rintro ⟨p, hp, htype⟩
    obtain rfl := Option.some.inj hp
    exact ⟨h.1, h.2, htype⟩
  · next h =>
    refine iff_of_false ?_ fun hs => h ⟨hs.encodes, hs.takes⟩
    rintro ⟨p, hp, _⟩
    cases hp

/-- If the commit is not applied, all keys are as before. -/
theorem moves_of_not_applies (hk : (ConfigKey.ofString oldkey).isWildcard = false)
    (hold : s.conf.store (.ofString oldkey) = some v)
    (h : ¬l.Applies s client oldkey newkey env) : l.Moves s client oldkey newkey env opt := by
  rw [Applies, conf_renamed hk hold] at h
  have hsame : ¬(((l.renamed s client oldkey newkey).conf.Committable (l.bucket client)) ∧
      ((l.renamed s client oldkey newkey).conf.logged env (l.bucket client)).2 ≠ none) := by
    rintro ⟨hc, hlog⟩
    rw [conf_renamed hk hold] at hc hlog
    exact h ⟨(isBucketLocked_rename hk).symm.trans hc.2, logged_ne_none_iff.1 hlog⟩
  rw [Moves, Configurator.store_commit, if_neg hsame, conf_renamed hk hold, store_rename hk]
  exact .inr ⟨rfl, rfl⟩

/-- The value is moved, or both keys are as before, exactly if the next commit of the client is not
    applied, or the new key gets the value. -/
theorem moves_iff (hk : (ConfigKey.ofString oldkey).isWildcard = false)
    (hold : s.conf.store (.ofString oldkey) = some v)
    (hu : s.conf.Unstaged (l.bucket client) (.ofString oldkey))
    (hu' : s.conf.Unstaged (l.bucket client) (.ofString newkey)) :
    l.Moves s client oldkey newkey env opt ↔
      ¬l.Applies s client oldkey newkey env ∨ Gets s oldkey newkey v := by
  by_cases happlies : l.Applies s client oldkey newkey env
  swap
  · exact iff_of_true (moves_of_not_applies hk hold happlies) (.inl happlies)
  rw [or_iff_right (not_not.2 happlies)]
  obtain ⟨hl, hlog⟩ := happlies
  have hv := MemoryCache.not_empty_of_store hold
  have hsets := @takes_item_iff l s oldkey newkey v hv
  have hitem : ∀ p ∈ l.inferring.item newkey (unpackFromProto (existingField oldkey v)) .none,
      refusesKey p.key = false ∧ p.key = .ofString newkey ∧ p.value = v := by
    rw [item_inferring hv]
    intro p hp
    obtain ⟨h, hp⟩ := Option.mem_ite_none_right.1 hp
    obtain rfl := Option.some.inj hp
    exact ⟨h.2, rfl, rfl⟩
  have hwild : ∀ p ∈ l.inferring.item newkey (unpackFromProto (existingField oldkey v)) .none,
      p.key.isWildcard = false := fun p hp =>
    ConfigKey.not_wildcard_of_text (Bool.or_eq_false_iff.1 (hitem p hp).1).1
  rw [conf_renamed hk hold] at hlog
  rw [Moves, conf_renamed hk hold]
  obtain ⟨hrefused, hconf⟩ | ⟨p, hp, htakes, hconf⟩ := rename_cases hk hl hwild
  · -- `set` is refused, and only the erasure is committed.
    rw [hconf] at hlog ⊢
    rw [moved_erased_iff hk hl hold hu hu' hlog]
    simp [Gets, mt hsets.2 hrefused]
  · obtain ⟨htaken, hkey, hval⟩ := hitem p hp
    rw [hconf] at hlog ⊢
    rw [moved_set_iff hk hl hold hu hu' (hwild p hp) hkey hval
      (hkey ▸ (Bool.or_eq_false_iff.1 htaken).2) hlog]
    simp [Gets, hsets.1 htakes]

/-- The integer is to get another name. -/
theorem moves_iff_integerStored :
    plain.Moves integerStored sysadmin "a" "b" ⟨0, true⟩ .noHooks ↔
      ¬plain.Applies integerStored sysadmin "a" "b" ⟨0, true⟩ ∨
        Gets integerStored "a" "b" (.ofType (.int32 5)) :=
  moves_iff (by decide) (by decide) (by decide) (by decide)

/-- The key a is stored with an integer, and the key b with a text. -/
def typesStored : Daemon :=
  Machine.run Daemon.serve (Daemon.onEmpty 3) [Daemon.setCommand "a" 5,
    Daemon.command (.set "b" (some ⟨some (.strval "x")⟩)), Daemon.commitCommand]

/-- A key with a value of another type is not set, and the integer is lost. -/
theorem not_forall_moves : ¬∀ (l : Link) (s : Daemon) (client : Client) (oldkey newkey : String)
    (v : ConfigValue) (env : Environment) (opt : CommitConfig),
    (ConfigKey.ofString oldkey).isWildcard = false → s.conf.store (.ofString oldkey) = some v →
      s.conf.Unstaged (l.bucket client) (.ofString oldkey) →
      s.conf.Unstaged (l.bucket client) (.ofString newkey) →
        l.Moves s client oldkey newkey env opt := by
  intro h
  have hmoves := h plain typesStored sysadmin "a" "b" (.ofType (.int32 5)) ⟨0, true⟩ .noHooks
    (by decide) (by decide) (by decide) (by decide)
  have hgone : ((plain.renamed typesStored sysadmin "a" "b").conf.commit ⟨0, true⟩
      (plain.bucket sysadmin) .noHooks).1.store (.ofString "a") = none := by decide
  have hkept : ((plain.renamed typesStored sysadmin "a" "b").conf.commit ⟨0, true⟩
      (plain.bucket sysadmin) .noHooks).1.store (.ofString "b") =
        some (.ofType (.string "x")) := by decide
  have hint : typesStored.conf.store (.ofString "a") = some (.ofType (.int32 5)) := by decide
  obtain ⟨hmoved, _⟩ | ⟨hsame, _⟩ := hmoves
  · rw [hkept, hint] at hmoved
    revert hmoved
    decide
  · rw [hgone, hint] at hsame
    cases hsame

end Link

end Migrations

end SysAdmin
