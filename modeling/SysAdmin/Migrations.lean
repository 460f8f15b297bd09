import Mathlib.Data.List.AList
import Mathlib.Data.List.Infix
import SysAdmin.ProtobufTranslator
import SysAdmin.Foundation.Scripts

/-!
# Migrations

A migration is a YAML file that says which keys to add, remove, rename or change. The script
`migrate.py` runs those that are not in its log yet, each with one commit (`migrate`), and is
to roll all of them back if a commit fails (`runMigrations`). What the server answers to the
calls of the client, and whether a call raises, is up to the `World`.

* `Migrations.main`: what the script comes to, with the calls made and the log file;
* `Migrations.migrate_eq`: a migration stages its changes and then commits them. To stage the
  change of a type, a second client may make commits of its own.
-/

namespace SysAdmin

open Scripts
open Sysadminctl (MappedField OneofValue)

namespace Migrations

/-- A value in Python, as read from YAML or from a message. Values of other types, as numbers
    that are no integers, are known by their text. -/
inductive PyValue
  | none
  | bool (b : Bool)
  | int (i : Int)
  | str (s : String)
  | other (text : String)
  | list (items : List PyValue)
  | dict (entries : List (String × PyValue))

/-- The clients, by their transaction ids. -/
abbrev Client := Option Nat

/-- The client of the script, which has no transaction id. -/
def sysadmin : Client := none

/-- The second client of `changeType`. -/
def cloneClient : Client := some 10

/-- What a script calls: methods of a client, and `sync` in the end. -/
inductive Call
  | connect (client : Client)
  | set (client : Client) (key value overrideType : PyValue)
  | get (client : Client) (key : PyValue)
  | erase (client : Client) (key : PyValue)
  | commit (client : Client) (opt : CommitConfig)
  | rollback (client : Client) (id : UInt32)
  | firehooks (client : Client)
  | sync

/-- A script that gets responses. -/
abbrev ClientScript := Script Call Sysadminctl.Response

/-! ## Responses -/

/-- The status of a response, by default the first one. -/
def status (r : Sysadminctl.Response) : StatusCode := r.status.getD .success

/-- The fields of the response to `get`, which are none for another payload. -/
def getKvs (r : Sysadminctl.Response) : List MappedField :=
  match r.payload with
  | some (.get kvs) => kvs
  | some (.commit _) | some (.reset _) | some (.dump ..) | some (.blame ..) | some (.inflight _)
  | none => []

/-- The id in the response to `commit`, which is zero for another payload. -/
def commitId (r : Sysadminctl.Response) : UInt32 :=
  match r.payload with
  | some (.commit commitId) => commitId
  | some (.get _) | some (.reset _) | some (.dump ..) | some (.blame ..) | some (.inflight _)
  | none => 0

/-- The field of a value that is set. -/
def oneof (field : MappedField) : Option OneofValue := field.value.bind (·.value)

/-- A value from its message. -/
def unpackFromProto (field : MappedField) : PyValue :=
  match oneof field with
  | none => .str "EMPTY_VALUE"
  | some (.int32val v) => .int v.toInt
  | some (.strval v) => .str v
  | some (.boolval v) => .bool v
  | some (.int32list list) => .list (list.map fun v => .int v.toInt)
  | some (.boollist list) => .list (list.map .bool)
  | some (.stringlist list) => .list (list.map .str)

/-- The length of the list in a message, if there is one. -/
def listLength (field : MappedField) : Option Nat :=
  match oneof field with
  | some (.int32list list) => some list.length
  | some (.boollist list) => some list.length
  | some (.stringlist list) => some list.length
  | some (.int32val _) | some (.strval _) | some (.boolval _) | none => none

/-- Whether `"list" in newtype`, which raises for values that are no containers. -/
def listIn : PyValue → Option Bool
  | .str s => some (decide ("list".toList <:+: s.toList))
  | .list items => some (items.any fun v => match v with | .str s => s == "list" | _ => false)
  | .dict entries => some (entries.any fun e => e.1 == "list")
  | .none | .bool _ | .int _ | .other _ => Option.none

/-- Whether a list is to become a value of a type that is none of lists. -/
def leavesList (field : MappedField) (newtype : PyValue) : Option Bool :=
  match listLength field with
  | none => some false
  | some _ => (listIn newtype).map not

/-- What a loop over a value goes through, which raises for values that are no containers. -/
def elements : PyValue → Option (List PyValue)
  | .str s => some (s.toList.map fun c => .str c.toString)
  | .list items => some items
  | .dict entries => some (entries.map fun e => .str e.1)
  | .none | .bool _ | .int _ | .other _ => Option.none

/-! ## Changing keys -/

section

variable (world : World Call Sysadminctl.Response)

/-- Sets a key. The first element of a list is the type of the others. -/
def setTyped (sysadmin : Client) (key : PyValue) (value : PyValue) : ClientScript Unit :=
  match value with
  | .list [] => Script.raise
  | .list (headType :: truevalue) => do
    let _ ← Script.send world (.set sysadmin key (.list truevalue) headType)
  | value => do
    let _ ← Script.send world (.set sysadmin key value .none)

/-- Sets the default of a key. -/
def defaultAddKey (sysadmin : Client) (key : String) (value : PyValue) : ClientScript Unit :=
  setTyped world sysadmin (.str ("default." ++ key)) value

/-- Sets a key, unless it is there. -/
def maybeAddKey (sysadmin : Client) (key : String) (value : PyValue) : ClientScript Unit := do
  let existing ← Script.send world (.get sysadmin (.str key))
  if status existing = .success then pure ()
  else setTyped world sysadmin (.str key) value

/-- Sets a key. -/
def changeValue (sysadmin : Client) (key : String) (value : PyValue) : ClientScript Unit :=
  setTyped world sysadmin (.str key) value

/-- Sets a key to its value with another type. The key has to be removed first, which a
    client of its own does. -/
def changeType (sysadmin : Client) (key : String) (newtype : PyValue) : ClientScript Unit := do
  let existing ← Script.send world (.get sysadmin (.str key))
  if status existing = .keyNotFound then pure ()
  else
    let field ← Script.ofOption (getKvs existing).head?
    let takesFirst ← Script.ofOption (leavesList field newtype)
    -- A list of more than one element is not converted.
    if takesFirst && decide ((listLength field).getD 0 > 1) then pure ()
    else
      let value ← Script.ofOption
        (if takesFirst then (elements (unpackFromProto field)).bind List.head?
        else some (unpackFromProto field))
      let _ ← Script.send world (.connect cloneClient)
      let _ ← Script.send world (.erase cloneClient (.str key))
      let _ ← Script.send world (.commit cloneClient .noHooks)
      let _ ← Script.send world (.set sysadmin (.str key) value newtype)

/-- Sets another key to the value of a key, which is erased. -/
def renameKey (sysadmin : Client) (oldkey : String) (newkey : PyValue) : ClientScript Unit := do
  let existing ← Script.send world (.get sysadmin (.str oldkey))
  if status existing = .keyNotFound then pure ()
  else
    let _ ← Script.send world (.erase sysadmin (.str oldkey))
    let field ← Script.ofOption (getKvs existing).head?
    let _ ← Script.send world (.set sysadmin newkey (unpackFromProto field) .none)

/-- Erases a key. -/
def removeKey (sysadmin : Client) (key : PyValue) : ClientScript Unit := do
  let _ ← Script.send world (.erase sysadmin key)

/-! ### Many keys -/

mutual

/-- Goes through a value under a key: a dictionary, or a value to apply `op` to. -/
def setValue (op : String → PyValue → ClientScript Unit) (key : String) :
    PyValue → ClientScript Unit
  | .dict current => innerSetConfigs op key current
  | v => op key v

/-- Goes through a dictionary under a prefix of keys. -/
def innerSetConfigs (op : String → PyValue → ClientScript Unit) (keyPrefix : String) :
    List (String × PyValue) → ClientScript Unit
  | [] => pure ()
  | entry :: rest => do
    setEntry op keyPrefix entry
    innerSetConfigs op keyPrefix rest

/-- Goes through an entry of a dictionary. -/
def setEntry (op : String → PyValue → ClientScript Unit) (keyPrefix : String) :
    String × PyValue → ClientScript Unit
  | (k, v) => setValue op (if keyPrefix = "" then k else keyPrefix ++ "." ++ k) v

end

/-- Applies `op` to all keys of nested dictionaries. -/
def nestedSetter (config : PyValue) (op : String → PyValue → ClientScript Unit) :
    ClientScript Unit :=
  match config with
  | .dict current => innerSetConfigs op "" current
  | _ => Script.raise

/-- Renames the first key of each dictionary to its value. -/
def renameKeys (sysadmin : Client) (keys : PyValue) : ClientScript Unit := do
  (← Script.ofOption (elements keys)).forM fun key =>
    match key with
    | .dict ((oldkey, newkey) :: _) => renameKey world sysadmin oldkey newkey
    | _ => Script.raise

/-- Erases keys. -/
def removeKeys (sysadmin : Client) (keys : PyValue) : ClientScript Unit := do
  (← Script.ofOption (elements keys)).forM (removeKey world sysadmin)

/-! ## A migration -/

/-- The value of a key of a dictionary, by default an empty dictionary. -/
def getDict (config : List (String × PyValue)) (key : String) : PyValue :=
  ((config.find? fun e => e.1 == key).map Prod.snd).getD (.dict [])

/-- Stages the changes of a migration. -/
def stageChanges (config : List (String × PyValue)) : ClientScript Unit := do
  nestedSetter (getDict config "default") (defaultAddKey world sysadmin)
  nestedSetter (getDict config "new") (maybeAddKey world sysadmin)
  removeKeys world sysadmin (getDict config "remove")
  nestedSetter (getDict config "typechange") (changeType world sysadmin)
  nestedSetter (getDict config "valuechange") (changeValue world sysadmin)
  renameKeys world sysadmin (getDict config "rename")

/-- Runs a migration: stages its changes and commits them. -/
def migrate (config : List (String × PyValue)) : ClientScript Sysadminctl.Response := do
  stageChanges world config
  Script.send world (.commit sysadmin .noHooks)

/-! ## All migrations -/

/-- A migration file, with its path. -/
structure Migration where
  path : String
  config : List (String × PyValue)

/-- Which migrations have been done, by their hashes. -/
abbrev MigrationLog := AList fun _ : String => Bool

variable (hashMigration : List (String × PyValue) → String)

namespace MigrationLog

/-- Whether a migration has been done. -/
def checkHistory (log : MigrationLog) (migration : List (String × PyValue)) : Bool :=
  (log.lookup (hashMigration migration)).getD false

/-- Logs a migration as done. -/
def logMigration (log : MigrationLog) (migration : List (String × PyValue)) : MigrationLog :=
  log.insert (hashMigration migration) true

/-- Logs a migration as not done. -/
def redoMigration (log : MigrationLog) (migration : List (String × PyValue)) : MigrationLog :=
  log.insert (hashMigration migration) false

end MigrationLog

/-- The migrations run so far with the ids of their commits, the youngest one last. -/
abbrev MigrationHistory := List (List (String × PyValue) × UInt32)

/-- How the loop over the migrations ends. -/
inductive Outcome
  | failed (log : MigrationLog)
  | finished (log : MigrationLog) (history : MigrationHistory)

/-- Rolls commits back and takes their migrations out of the log. -/
def rollBack : MigrationHistory → MigrationLog → ClientScript MigrationLog
  | [], log => pure log
  | (migration, cid) :: history, log => do
    let _ ← Script.send world (.rollback sysadmin cid)
    rollBack history (log.redoMigration hashMigration migration)

/-- The length of a migration `m`, which is a pair. -/
def Migration.len (_ : Migration) : Nat := 2

/-- Runs migrations, the first of which has an index. -/
def runMigrations : Nat → MigrationLog → MigrationHistory → List Migration → ClientScript Outcome
  | _, log, history, [] => pure (.finished log history)
  | i, log, history, m :: migrations =>
    if log.checkHistory hashMigration m.config then runMigrations (i + 1) log history migrations
    else do
      let resp ← migrate world m.config
      let history := history ++ [(m.config, commitId resp)]
      if status resp ≠ .success ∧ i = m.len - 1 then do
        let log ← rollBack world hashMigration history.reverse log
        return .failed log
      else
        runMigrations (i + 1) (log.logMigration hashMigration m.config) history migrations

/-- What the script comes to: an exit code, unless it raises, with what it has called and the
    log file, which may not be there. -/
structure Exit where
  code : Option Nat
  events : List (Scripts.Event Call Sysadminctl.Response)
  logFile : Option MigrationLog

/-- Runs the hooks, if there have been migrations, and `sync`. -/
def finish (history : MigrationHistory) : ClientScript Nat := do
  if history.length > 0 then
    let _ ← Script.send world (.firehooks sysadmin)
  let _ ← Script.send world .sync
  return 0

/-- Runs the migrations that are not in the log file, and saves the log. -/
def main (migrations : List Migration) (logFile : Option MigrationLog) : Exit :=
  if migrations.length > 0 then
    match runMigrations world hashMigration 0 (logFile.getD ∅) [] migrations [] with
    | (none, events) => ⟨none, events, logFile⟩
    | (some (.failed _), events) => ⟨some 1, events, logFile⟩
    | (some (.finished log history), events) =>
      let (code, events) := finish world history events
      ⟨code, events, some log⟩
  else
    let (code, events) := finish world [] []
    ⟨code, events, logFile⟩

end

/-! ## What a migration calls -/

/-- A commit. -/
def Call.isCommit : Call → Bool
  | commit .. => true
  | connect _ | set .. | get .. | erase .. | rollback .. | firehooks _ | sync => false

/-- A commit of the client of the script. -/
def Call.isMainCommit : Call → Bool
  | commit client _ => client == sysadmin
  | connect _ | set .. | get .. | erase .. | rollback .. | firehooks _ | sync => false

/-- A call of a migration before its commit. -/
def Call.Stages : Call → Prop
  | connect _ | set .. | get .. | erase .. => True
  | commit client _ => client = cloneClient
  | rollback .. | firehooks _ | sync => False

section

open Script

variable {world : World Call Sysadminctl.Response} {client : Client} {k : String} {key : PyValue}
  {v : PyValue} {config : List (String × PyValue)}

/-- Setting a value with its type makes one call, which stages, or raises before it. -/
theorem appends_setTyped : Appends Call.Stages (setTyped world client key v) := by
  unfold setTyped
  split
  · exact .raise
  · exact .bind (.send trivial) fun _ => .pure
  · exact .bind (.send trivial) fun _ => .pure

/-- A default is one value that is staged. -/
theorem appends_defaultAddKey : Appends Call.Stages (defaultAddKey world client k v) :=
  appends_setTyped

/-- A new key is asked for, and staged if it is not there. -/
theorem appends_maybeAddKey : Appends Call.Stages (maybeAddKey world client k v) := by
  refine .bind (.send trivial) fun existing => ?_
  split
  · exact .pure
  · exact appends_setTyped

theorem appends_changeValue : Appends Call.Stages (changeValue world client k v) :=
  appends_setTyped

/-- The old value is erased and committed over a connection of its own, and what this one stages
    is the new value. -/
theorem appends_changeType : Appends Call.Stages (changeType world client k v) := by
  refine .bind (.send trivial) fun existing => ?_
  split
  · exact .pure
  · refine .bind .ofOption fun field => .bind .ofOption fun takesFirst => ?_
    split
    · exact .pure
    · exact .bind .ofOption fun value => .bind (.send trivial) fun _ => .bind (.send trivial)
        fun _ => .bind (.send rfl) fun _ => .bind (.send trivial) fun _ => .pure

/-- A rename asks for the old key, and stages that it is erased and that the new one is set. -/
theorem appends_renameKey : Appends Call.Stages (renameKey world client k v) := by
  refine .bind (.send trivial) fun existing => ?_
  split
  · exact .pure
  · exact .bind (.send trivial) fun _ => .bind .ofOption fun _ => .bind (.send trivial)
      fun _ => .pure

theorem appends_removeKey : Appends Call.Stages (removeKey world client key) :=
  .bind (.send trivial) fun _ => .pure

section

variable {op : String → PyValue → ClientScript Unit}

mutual

theorem appends_setValue (hop : ∀ k v, Appends Call.Stages (op k v)) :
    ∀ (k : String) (v : PyValue), Appends Call.Stages (setValue op k v)
  | k, .dict current => appends_innerSetConfigs hop k current
  | k, .none | k, .bool _ | k, .int _ | k, .str _ | k, .other _ | k, .list _ => hop k _

theorem appends_innerSetConfigs (hop : ∀ k v, Appends Call.Stages (op k v)) :
    ∀ (keyPrefix : String) (current : List (String × PyValue)),
      Appends Call.Stages (innerSetConfigs op keyPrefix current)
  | _, [] => .pure
  | keyPrefix, entry :: rest => by
    rw [innerSetConfigs]
    exact .bind (appends_setEntry hop keyPrefix entry)
      fun _ => appends_innerSetConfigs hop keyPrefix rest

theorem appends_setEntry (hop : ∀ k v, Appends Call.Stages (op k v)) :
    ∀ (keyPrefix : String) (entry : String × PyValue),
      Appends Call.Stages (setEntry op keyPrefix entry)
  | keyPrefix, (k, v) => by
    rw [setEntry]
    exact appends_setValue hop _ v

end

/-- A tree of values stages what its leaves stage. The tree and the lists of its entries are
    gone through together. -/
theorem appends_nestedSetter (hop : ∀ k v, Appends Call.Stages (op k v)) :
    Appends Call.Stages (nestedSetter v op) := by
  rw [nestedSetter.eq_def]
  split
  · exact appends_innerSetConfigs hop _ _
  · exact .raise

end

theorem appends_renameKeys : Appends Call.Stages (renameKeys world client v) := by
  refine .bind .ofOption fun keys => .forM fun key _ => ?_
  split
  · exact appends_renameKey
  · exact .raise

theorem appends_removeKeys : Appends Call.Stages (removeKeys world client v) :=
  .bind .ofOption fun _ => .forM fun _ _ => appends_removeKey

/-- Before its commit, a migration makes no commit but those of the second client, and rolls
    nothing back. -/
theorem appends_stageChanges (world : World Call Sysadminctl.Response)
    (config : List (String × PyValue)) : Appends Call.Stages (stageChanges world config) :=
  .bind (appends_nestedSetter fun _ _ => appends_defaultAddKey) fun _ =>
  .bind (appends_nestedSetter fun _ _ => appends_maybeAddKey) fun _ =>
  .bind appends_removeKeys fun _ =>
  .bind (appends_nestedSetter fun _ _ => appends_changeType) fun _ =>
  .bind (appends_nestedSetter fun _ _ => appends_changeValue) fun _ =>
  appends_renameKeys

/-- A migration that does not raise has staged its changes and committed them. -/
theorem migrate_eq {events events' : List (Scripts.Event Call Sysadminctl.Response)}
    {resp : Sysadminctl.Response} (h : migrate world config events = (some resp, events')) :
    ∃ staged, (∀ e ∈ staged, e.call.Stages) ∧
      events' = events ++ staged ++ [⟨.commit sysadmin .noHooks, some resp⟩] := by
  obtain ⟨staged, hstaged, hcalls⟩ := appends_stageChanges world config events
  refine ⟨staged, hcalls, ?_⟩
  obtain ⟨_, between, hrun, hcommit⟩ := bind_eq_some.1 h
  rw [hrun] at hstaged
  obtain ⟨hresp, hevents⟩ := Prod.mk.inj hcommit
  rw [← hevents, hresp, ← hstaged]

end

end Migrations

end SysAdmin
