import SysAdmin.Requests

/-!
# Former values

A commit saves the values it overwrites under `last.*`. Clients may not set keys of
`last.*`, and erasing a pattern leaves them alone.

* `Daemon.LastKept`: a key of `last.*` changes only in a commit whose bucket writes to the
  key it belongs to;
* `Daemon.lastKept_run`: this is so along all requests that neither erase a single key of
  `last.*`, nor reset where `default.*` has a default for a key of `last.*`. These go
  around the check (`not_lastKept_eraseLast`).
-/

namespace SysAdmin

open Machine Writes Configurator

namespace ConfigKey

theorem inLast_ofString (text : String) : (ofString ("last." ++ text)).inLast = true := by
  rcases eq_or_ne text "" with rfl | h
  · decide
  · have hkey : (ofString text).subKeys ≠ [] := subKeys_ofString_ne_nil h
    have hlast : (ofString ("last." ++ text)).subKeys = "last" :: (ofString text).subKeys := by
      rw [← subKeys_lastKey hkey, lastKey, toString_ofString]
    obtain ⟨s, ss, hs⟩ := List.exists_cons_of_ne_nil hkey
    have hpattern : (ofString "last.*").subKeys = ["last", "*"] := by decide
    rw [inLast, subkeyMatches, hlast, hs, hpattern]
    simp [subkeysAgree]

/-- A key that clients may set: one they can name, outside `last.*`. -/
structure Settable (k : ConfigKey) : Prop extends k.Named where
  not_last : k.inLast = false

end ConfigKey

open ConfigKey (Named Settable)

theorem keyRule_settable : KeyRule Settable Named where
  not_wildcard _ h := h.not_wildcard
  store _ h := h.toNamed
  last _ h := h.toNamed.lastKey
  erase _ h hlast _ := ⟨h, hlast⟩

namespace Daemon

variable {s : Daemon} {e : RequestEvent} {es : List RequestEvent} {n : Nat}

/-- The items of the bucket that is committed when a request is handled. -/
def committed (s : Daemon) (e : RequestEvent) : ConfigPairList :=
  match s.commitCall e with
  | none => []
  | some call => call.conf.inFlightItems.staged call.clientId

/-- A key of `last.*` changes only in a commit whose bucket writes to the key it belongs to. -/
def LastKept (s : Daemon) (e : RequestEvent) : Prop :=
  ∀ text, (s.serve e).conf.store (.ofString ("last." ++ text)) ≠
      s.conf.store (.ofString ("last." ++ text)) →
    ∃ p ∈ s.committed e, p.key = .ofString text

/-- The request keeps out of `last.*`: it erases no single key there, and, if it is a reset,
    no default that it can set belongs to a key there. -/
def KeepsLast (s : Daemon) : RequestEvent → Prop
  | .request _ _ m =>
    match m.payload with
    | some (.erase key) =>
      (ConfigKey.ofString key).isWildcard = true ∨ (ConfigKey.ofString key).inLast = false
    | some .reset => s.conf.TailsIn fun k => k.inLast = false
    | some (.set ..) | some (.get _) | some (.commit _) | some .drop | some .firehooks
    | some (.rollback _) | some .dump | some (.trigger _) | some (.blame _) | some .inflight
    | none => True
  | .complete .. => True

theorem names_settable (h : s.conf.KeysIn Settable Named) (he : s.KeepsLast e) :
    s.Names Settable e := by
  cases e with
  | complete ticket result => trivial
  | request env clientId m =>
    rw [Names, Stages]
    rw [KeepsLast] at he
    rcases hm : m.payload with _ | payload
    · trivial
    · rw [hm] at he
      cases payload with
      | set key value =>
        intro pair hpair hr
        obtain ⟨hnamed, hlast⟩ := named_of_translateToSet hpair hr
        exact ⟨hnamed, hlast⟩
      | erase key =>
        rcases hk : (ConfigKey.ofString key).isWildcard with _ | _
        · exact .inr ⟨ConfigKey.named_ofString hk, he.resolve_left (by simp [hk])⟩
        · exact .inl hk
      | reset => exact fun d v w hd hv hw => ⟨h.stored _ w hw, he d v w hd hv hw⟩
      | commit | rollback | get | drop | firehooks | dump | trigger | blame | inflight => trivial

/-- A commit writes to keys of `last.*` on behalf of the keys of its bucket. -/
theorem lastKept_of_keysIn (h : s.conf.KeysIn Settable Named) (he : s.KeepsLast e) :
    s.LastKept e := by
  intro text hne
  rcases hcall : s.commitCall e with _ | call
  · exact absurd (congrFun (store_serve_of_none hcall) _) hne
  · have hkeys := keysIn_commitCall keyRule_settable h (names_settable h he) hcall
    rw [committed, hcall]
    rw [conf_serve_of_commitCall hcall, ← store_commitCall hcall, CommitCall.after,
      store_commit] at hne
    split at hne
    · next hc =>
      have hstaged := hkeys.staged_of_not_locked hc.1.2
      rw [overlay_apply, lastWrite_writes] at hne
      rcases hl : lastItem (.ofString ("last." ++ text)) (call.conf.toApply call.clientId) with
        _ | p
      · rw [hl] at hne
        exact absurd rfl hne
      · obtain ⟨hp, hkey⟩ := mem_of_lastItem hl
        rcases List.mem_append.1 hp with hp | hp
        · -- The items of the bucket are outside `last.*`.
          have hlast := (hstaged p hp).not_last
          rw [hkey, ConfigKey.inLast_ofString] at hlast
          cases hlast
        · obtain ⟨item, hitem, hold⟩ := List.mem_filterMap.1 hp
          rw [key_of_oldItem hold, ConfigKey.lastKey, ConfigKey.ofString_inj] at hkey
          refine ⟨item, hitem, ?_⟩
          rw [← ConfigKey.ofString_toString (hstaged item hitem).readable,
            (String.append_right_inj _).1 hkey]
    · exact absurd rfl hne

/-- Along requests that keep out of `last.*`, its keys change only in commits of the keys
    they belong to. -/
theorem lastKept_run (h : Guarded serve KeepsLast (onEmpty n) es) :
    Guarded serve LastKept (onEmpty n) es :=
  Guarded.of_invariant (I := fun s => s.conf.KeysIn Settable Named) pairsIn_onEmpty
    (fun _ _ hs he => keysIn_serve keyRule_settable hs (names_settable hs he))
    (fun _ _ hs he => lastKept_of_keysIn hs he) h

/-- A key is set and overwritten, so that its former value is saved. -/
def overwrite : List RequestEvent :=
  [setCommand "x" 1, commitCommand, setCommand "x" 2, commitCommand]

theorem lastKept_run_overwrite : Guarded serve LastKept (onEmpty 100) overwrite :=
  lastKept_run ⟨trivial, trivial, trivial, trivial, trivial⟩

/-- A client erases the former value of a key. -/
def eraseLast : List RequestEvent := overwrite ++ [command (.erase "last.x"), commitCommand]

/-- A client sets the former value of a key, by way of a default and a reset. -/
def resetLast : List RequestEvent :=
  overwrite ++
    [setCommand "default.last.x" 7, command (.erase "x"), commitCommand, command .reset]

theorem not_lastKept_eraseLast : ¬Guarded serve LastKept (onEmpty 100) eraseLast ∧
    ¬Guarded serve LastKept (onEmpty 100) resetLast := by
  constructor
  · -- The last commit removes `last.x`, with nothing staged for `x`.
    intro h
    have hkept := guarded_iff_forall_prefixes.1 h (overwrite ++ [command (.erase "last.x")])
      commitCommand List.prefix_rfl "x" (by decide)
    exact absurd hkept (by decide)
  · -- The reset sets `last.x`, with nothing staged for `x`, which is not in the store.
    intro h
    have hkept := guarded_iff_forall_prefixes.1 h (overwrite ++
      [setCommand "default.last.x" 7, command (.erase "x"), commitCommand]) (command .reset)
      List.prefix_rfl "x" (by decide)
    exact absurd hkept (by decide)

end Daemon

end SysAdmin
