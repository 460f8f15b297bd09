import SysAdmin.CommitSerializer
import SysAdmin.Foundation.Sorting

/-!
# Reading a directory of commit files

When the daemon starts, `LoadAllCommits` sorts the files in the history directory by the numbers
they are named by, and reads a commit from each of them with `YAMLDeserializer`. A file without
a commit would be skipped if the deserializer gave nothing for it. It throws instead, and so
does comparing file names that are no numbers.

The directory is a list of file names with the bytes of the files, in the order in which the
directory iterator finds them. As this order is any one, so is that of files with equal numbers
after sorting, as `std::sort` leaves it.

* `IsCommitDocument`: the YAML documents of which the deserializer makes a commit
  (`isSome_yamlDeserializer_iff`);
* `returnsWellFormed_iff`: the commits of all files that have one are returned, in the order of
  the file numbers, exactly if no file lacks one and no two names are compared of which one is
  no number.
-/

namespace SysAdmin

/-! ## Documents of commits -/

namespace YamlTree

/-- One side of a delta: its type, and a value of this type. -/
def IsSide (side : YamlTree) : Prop :=
  ∃ type, (side.get "type").bind asString = some type ∧
    (type ≠ "NULL" → (valueFromYAML type (valueNode (side.get "value"))).isSome)

/-- A delta: a key and its two sides. -/
structure IsDelta (item : YamlTree) : Prop where
  key : ((item.get "key").bind asString).isSome
  old : ∃ side, item.get "old" = some side ∧ side.IsSide
  current : ∃ side, item.get "current" = some side ∧ side.IsSide

/-- A commit: an id, the id of the parent, perhaps a time, and perhaps deltas. -/
structure IsCommitDocument (timeFromString : String → Except TimeError (Option Nat))
    (node : YamlTree) : Prop where
  id : ((node.get "id").bind asCommitId).isSome
  parent : ((node.get "parent-id").bind asCommitId).isSome
  time : ∀ time, node.get "time" = some time →
    ∃ text, time.asString = some text ∧ timeFromString text ≠ .error .other
  deltas : ∀ deltas, node.get "deltas" = some deltas → ∀ item ∈ deltas.elements, item.IsDelta

variable {timeFromString : String → Except TimeError (Option Nat)} {node side item : YamlTree}

/-- Reading on from something succeeds if it is there and the rest succeeds. -/
theorem isSome_bind_iff {α β : Type} {x : Option α} {f : α → Option β} :
    (x.bind f).isSome ↔ ∃ a, x = some a ∧ (f a).isSome := by
  cases x <;> simp

/-- The same where the rest does not depend on what has been read. -/
theorem isSome_bind_iff_and {α β : Type} {x : Option α} {f : α → Option β} {P : Prop}
    (h : ∀ a, (f a).isSome ↔ P) : (x.bind f).isSome ↔ x.isSome ∧ P := by
  cases x <;> simp [h]

theorem isSome_sideValue_iff : (sideValue side).isSome ↔ side.IsSide := by
  have hside : sideValue side = ((side.get "type").bind asString).bind fun type =>
      if type ≠ "NULL" then valueFromYAML type (valueNode (side.get "value")) else some .none := by
    rw [Option.bind_assoc]
    rfl
  rw [hside, isSome_bind_iff, IsSide]
  refine exists_congr fun type => and_congr_right fun _ => ?_
  by_cases hnull : type = "NULL" <;> simp [hnull]

theorem isSome_deltaOfNode_iff : (deltaOfNode item).isSome ↔ item.IsDelta := by
  have hside : ∀ name, ((item.get name).bind sideValue).isSome ↔
      ∃ side, item.get name = some side ∧ side.IsSide := fun name => by
    rw [isSome_bind_iff]
    exact exists_congr fun side => and_congr_right fun _ => isSome_sideValue_iff
  have hdelta : deltaOfNode item = ((item.get "key").bind asString).bind fun key =>
      ((item.get "old").bind sideValue).bind fun old =>
        ((item.get "current").bind sideValue).bind fun current =>
          some (⟨.ofString key, old⟩, ⟨.ofString key, current⟩) := by
    simp only [Option.bind_assoc]
    rfl
  have hiff : (deltaOfNode item).isSome ↔ ((item.get "key").bind asString).isSome ∧
      ((item.get "old").bind sideValue).isSome ∧ ((item.get "current").bind sideValue).isSome := by
    rw [hdelta]
    refine isSome_bind_iff_and fun key => isSome_bind_iff_and fun old => ?_
    exact (isSome_bind_iff_and fun current => iff_true_intro rfl).trans (iff_of_eq (and_true _))
  rw [hiff, hside, hside]
  exact ⟨fun ⟨hkey, hold, hcurrent⟩ => ⟨hkey, hold, hcurrent⟩,
    fun h => ⟨h.key, h.old, h.current⟩⟩

theorem isSome_timeOfNode_iff {time : Option YamlTree} :
    (timeOfNode timeFromString time).isSome ↔ ∀ t, time = some t →
      ∃ text, t.asString = some text ∧ timeFromString text ≠ .error .other := by
  cases time with
  | none => exact iff_of_true rfl nofun
  | some t =>
    simp only [timeOfNode, Option.bind_eq_bind, isSome_bind_iff, Option.some.injEq, forall_eq']
    refine exists_congr fun text => and_congr_right fun _ => ?_
    split <;> simp_all

/-- A commit is read from a document exactly if it is one of a commit. -/
theorem isSome_yamlDeserializer_iff {load : String → Option YamlTree} {buffer : String} :
    (yamlDeserializer load timeFromString buffer).isSome ↔
      ∃ node, load buffer = some node ∧ node.IsCommitDocument timeFromString := by
  rw [yamlDeserializer, Option.bind_eq_bind, isSome_bind_iff]
  refine exists_congr fun node => and_congr_right fun _ => ?_
  have hnode : (((node.get "id").bind asCommitId).bind fun id =>
      ((node.get "parent-id").bind asCommitId).bind fun parent =>
        (timeOfNode timeFromString (node.get "time")).bind fun time =>
          ((((node.get "deltas").map elements).getD []).mapM deltaOfNode).bind fun items =>
            some ({ id, parent, time, items } : CommitHistory)).isSome ↔
      ((node.get "id").bind asCommitId).isSome ∧ ((node.get "parent-id").bind asCommitId).isSome ∧
        (timeOfNode timeFromString (node.get "time")).isSome ∧
          ((((node.get "deltas").map elements).getD []).mapM deltaOfNode).isSome := by
    refine isSome_bind_iff_and fun id => isSome_bind_iff_and fun parent =>
      isSome_bind_iff_and fun time => ?_
    exact (isSome_bind_iff_and fun items => iff_true_intro rfl).trans (iff_of_eq (and_true _))
  simp only [Option.bind_assoc] at hnode
  refine hnode.trans ?_
  rw [isSome_timeOfNode_iff, isSome_mapM_iff]
  simp only [isSome_deltaOfNode_iff]
  have hdeltas : (∀ item ∈ ((node.get "deltas").map elements).getD [], item.IsDelta) ↔
      ∀ deltas, node.get "deltas" = some deltas → ∀ item ∈ deltas.elements, item.IsDelta := by
    cases node.get "deltas" <;> simp
  rw [hdeltas]
  refine ⟨?_, fun h => ⟨h.id, h.parent, h.time, h.deltas⟩⟩
  rintro ⟨hid, hparent, htime, hdeltas⟩
  exact ⟨hid, hparent, htime, hdeltas⟩

end YamlTree

/-! ## Reading all files -/

/-- Why reading the directory throws: a file name is no number, or a file holds no commit. -/
inductive HistoryError
  | badLexicalCast
  | badDocument
  deriving DecidableEq

/-- `boost::lexical_cast` to `size_t`: a number that fits, perhaps with a sign. A negative
    number is taken modulo 2^64. -/
def lexicalCastSizeT (text : List Char) : Except HistoryError Nat :=
  let digits := if text.head? = some '-' ∨ text.head? = some '+' then text.tail else text
  let value := Nat.ofDigitChars 10 digits 0
  if digits = [] ∨ !digits.all Char.isDigit ∨ UInt64.size ≤ value then .error .badLexicalCast
  else if text.head? = some '-' then .ok ((UInt64.size - value) % UInt64.size)
  else .ok value

/-- A file in the directory, and its bytes. -/
abbrev CommitFile := Path × String

namespace HistoryDirectory

open Sorting

/-- The number a file is named by. Comparing two files looks for the numbers of both. -/
def fileNumber (file : CommitFile) : Except HistoryError Nat := lexicalCastSizeT file.1.stem

/-- The commit in a text. No text makes the deserializer give nothing: it throws. -/
def deserialize (load : String → Option YamlTree)
    (timeFromString : String → Except TimeError (Option Nat)) (buffer : String) :
    Except HistoryError (Option CommitHistory) :=
  match yamlDeserializer load timeFromString buffer with
  | some commit => .ok (some commit)
  | none => .error .badDocument

/-- The commits in files, but for the files for which the deserializer gives nothing. -/
def loadCommits (deserializer : String → Except HistoryError (Option CommitHistory)) :
    List CommitFile → Except HistoryError (List CommitHistory)
  | [] => .ok []
  | file :: files => do
    let maybeCommit ← deserializer file.2
    let commits ← loadCommits deserializer files
    return maybeCommit.toList ++ commits

/-- The commits in all files. -/
def loadAllCommits (deserializer : String → Except HistoryError (Option CommitHistory))
    (files : List CommitFile) : Except HistoryError (List CommitHistory) := do
  let sorted ← sortBy fileNumber files
  loadCommits deserializer sorted

variable (load : String → Option YamlTree)
  (timeFromString : String → Except TimeError (Option Nat)) (files : List CommitFile)

/-- The commit in a file. -/
def commitIn (file : CommitFile) : Option CommitHistory :=
  yamlDeserializer load timeFromString file.2

/-- The commits of all files that have one are returned, in the order of the file numbers. -/
def ReturnsWellFormed : Prop :=
  ∃ wellFormed : List CommitFile,
    wellFormed.Perm (files.filter fun file => (commitIn load timeFromString file).isSome) ∧
    wellFormed.Pairwise (fun file file' => ∀ n n', fileNumber file = .ok n →
      fileNumber file' = .ok n' → n ≤ n') ∧
    loadAllCommits (deserialize load timeFromString) files =
      .ok (wellFormed.filterMap (commitIn load timeFromString))

variable {load timeFromString files} {commits : List CommitHistory}

theorem isSome_commitIn_iff {file : CommitFile} : (commitIn load timeFromString file).isSome ↔
    ∃ node, load file.2 = some node ∧ node.IsCommitDocument timeFromString :=
  YamlTree.isSome_yamlDeserializer_iff

theorem exists_deserialize_eq_ok_iff {file : CommitFile} :
    (∃ maybeCommit, deserialize load timeFromString file.2 = .ok maybeCommit) ↔
      (commitIn load timeFromString file).isSome := by
  rw [deserialize, commitIn]
  cases yamlDeserializer load timeFromString file.2 <;> simp

theorem loadCommits_eq_ok (h : ∀ file ∈ files, (commitIn load timeFromString file).isSome) :
    loadCommits (deserialize load timeFromString) files =
      .ok (files.filterMap (commitIn load timeFromString)) := by
  induction files with
  | nil => rfl
  | cons file files ih =>
    obtain ⟨commit, hcommit⟩ := Option.isSome_iff_exists.1 (h file List.mem_cons_self)
    rw [List.filterMap_cons_some hcommit]
    rw [commitIn] at hcommit
    rw [loadCommits, deserialize, hcommit, ih fun f hf => h f (List.mem_cons_of_mem _ hf)]
    rfl

theorem isSome_of_loadCommits
    (h : loadCommits (deserialize load timeFromString) files = .ok commits) :
    ∀ file ∈ files, (commitIn load timeFromString file).isSome := by
  induction files generalizing commits with
  | nil => exact fun file hfile => absurd hfile List.not_mem_nil
  | cons file files ih =>
    obtain ⟨maybeCommit, hfirst, h⟩ := bind_eq_ok.1 h
    obtain ⟨rest, hrest, _⟩ := bind_eq_ok.1 h
    exact List.forall_mem_cons.2 ⟨exists_deserialize_eq_ok_iff.1 ⟨_, hfirst⟩, ih hrest⟩

/-- An empty file is loaded as a null node, as a crash while a commit is stored leaves it. -/
theorem not_returnsWellFormed_emptyFile :
    ¬∀ (load : String → Option YamlTree)
      (timeFromString : String → Except TimeError (Option Nat)) (files : List CommitFile),
        ReturnsWellFormed load timeFromString files := by
  intro h
  obtain ⟨_, _, _, hload⟩ := h (fun _ => some (.leaf .null)) (fun _ => .ok none)
    [("/h/1.commit".toList, "")]
  have herror : loadAllCommits (deserialize (fun _ => some (.leaf .null)) fun _ => .ok none)
      [("/h/1.commit".toList, "")] = .error .badDocument := rfl
  rw [herror] at hload
  cases hload

/-- The commits are returned exactly if each file holds one, and each name is a number where
    there are several. -/
theorem returnsWellFormed_iff (load : String → Option YamlTree)
    (timeFromString : String → Except TimeError (Option Nat)) (files : List CommitFile) :
    ReturnsWellFormed load timeFromString files ↔
      (files.length ≤ 1 ∨ ∀ file ∈ files, ∃ n, fileNumber file = .ok n) ∧
        ∀ file ∈ files, ∃ node, load file.2 = some node ∧
          node.IsCommitDocument timeFromString := by
  simp only [← isSome_commitIn_iff]
  constructor
  · rintro ⟨wellFormed, _, _, h⟩
    obtain ⟨sorted, hsorted, h⟩ := bind_eq_ok.1 h
    refine ⟨exists_sortBy_eq_ok_iff.1 ⟨sorted, hsorted⟩, fun file hfile => ?_⟩
    exact isSome_of_loadCommits h file ((sortBy_spec hsorted).1.mem_iff.2 hfile)
  · rintro ⟨hnames, hdocuments⟩
    obtain ⟨sorted, hsorted⟩ := exists_sortBy_eq_ok_iff.2 hnames
    obtain ⟨hperm, hpairwise⟩ := sortBy_spec hsorted
    refine ⟨sorted, ?_, hpairwise, ?_⟩
    · rwa [List.filter_eq_self.2 hdocuments]
    · rw [loadAllCommits, hsorted]
      exact loadCommits_eq_ok fun file hfile => hdocuments file (hperm.mem_iff.1 hfile)

/-! ### Without exceptions -/

/-- The files of a storage. -/
def filesOf (s : LocalHistoryStorage) : List CommitFile := s.files.entries.map fun e => (e.1, e.2)

variable {s : LocalHistoryStorage}

theorem map_fst_filesOf : (filesOf s).map Prod.fst = s.files.keys := by
  rw [filesOf, List.map_map]
  rfl

theorem loadCommitAt_eq_commitIn (hs : s.deserializer = yamlDeserializer load timeFromString)
    {file : CommitFile} (hfile : file ∈ filesOf s) :
    s.loadCommitAt file.1 = commitIn load timeFromString file := by
  obtain ⟨e, he, rfl⟩ := List.mem_map.1 hfile
  have hlookup : s.files.lookup e.1 = some e.2 := AList.mem_lookup_iff.2 he
  rw [LocalHistoryStorage.loadCommitAt, hlookup, hs]
  rfl

/-- Plain numbers are sorted alike. -/
theorem sortedPaths_eq {sorted : List CommitFile}
    (hnames : ∀ file ∈ filesOf s, ∀ n, fileNumber file = .ok n ↔ commitNumber file.1 = some n)
    (h : sortBy fileNumber (filesOf s) = .ok sorted) :
    s.sortedPaths = some (sorted.map Prod.fst) := by
  rw [LocalHistoryStorage.sortedPaths, ← map_fst_filesOf, List.length_map]
  rcases exists_sortBy_eq_ok_iff.1 ⟨sorted, h⟩ with hlength | hnumbers
  · rw [if_pos (.inl hlength)]
    rcases hfiles : filesOf s with _ | ⟨file, _ | ⟨file', files⟩⟩
    · rw [hfiles] at h
      obtain rfl := Except.ok.inj h
      rfl
    · rw [hfiles] at h
      obtain rfl := Except.ok.inj h
      rfl
    · rw [hfiles] at hlength
      simp at hlength
  · -- Several files are sorted by the numbers in their names.
    have hnumber : ∀ file ∈ filesOf s, fileNumber file = .ok ((commitNumber file.1).getD 0) ∧
        (commitNumber file.1).isSome := fun file hfile => by
      obtain ⟨n, hn⟩ := hnumbers file hfile
      rw [hn, (hnames file hfile n).1 hn]
      exact ⟨rfl, rfl⟩
    rw [if_pos (.inr (List.forall_mem_map.2 fun file hfile => (hnumber file hfile).2))]
    rw [sortBy_eq_ok fun file hfile => (hnumber file hfile).1] at h
    rw [← Except.ok.inj h]
    refine congrArg some (Eq.symm ?_)
    exact List.map_insertionSort _ _ Prod.fst (filesOf s) fun _ _ _ _ => Iff.rfl

/-- Where reading the files of a storage throws nothing and the file names are plain numbers,
    the storage loads the commits that are read. -/
theorem loadAllCommits_filesOf (hs : s.deserializer = yamlDeserializer load timeFromString)
    (hnames : ∀ file ∈ filesOf s, ∀ n, fileNumber file = .ok n ↔ commitNumber file.1 = some n)
    (h : loadAllCommits (deserialize load timeFromString) (filesOf s) = .ok commits) :
    s.loadAllCommits = some commits := by
  obtain ⟨sorted, hsorted, h⟩ := bind_eq_ok.1 h
  rw [loadCommits_eq_ok (isSome_of_loadCommits h)] at h
  rw [LocalHistoryStorage.loadAllCommits, sortedPaths_eq hnames hsorted, Option.map_some,
    List.filterMap_map, ← Except.ok.inj h]
  congr 1
  exact List.filterMap_congr fun file hfile =>
    loadCommitAt_eq_commitIn hs ((sortBy_spec hsorted).1.mem_iff.1 hfile)

end HistoryDirectory

end SysAdmin
