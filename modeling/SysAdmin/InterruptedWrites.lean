import SysAdmin.LocalYAMLStorage
import SysAdmin.Foundation.Machine

/-!
# Interrupted writes

`groupSet` goes through the files one after the other. Each it reads, opens, which
truncates it, and writes. The process may stop between any two of these operations
(`stoppedAt`); the next start then reads what is on disk.

Each stop is either between two files or behind a truncation (`exists_stoppedAt_iff`).
Behind a truncation, a file is empty, so all that it held and should still hold is lost.

* `Interruptible`: at every stop, the disk holds for every entry the value from before,
  or the one that the completed call gives it;
* `interruptible_iff`: when this is so, for entries, and for what is read from disks that
  hold only pairs that are found back.
-/

namespace SysAdmin.LocalYAMLStorage

open Machine Writes

/-! ## Operations on files -/

/-- An operation that changes a file. -/
inductive FileOp
  | truncate (path : Path)
  | write (path : Path) (config : YamlDoc)

/-- The files after an operation. A truncated file is one without entries. -/
def FileOp.apply (files : AList fun _ : Path => YamlDoc) : FileOp → AList fun _ : Path => YamlDoc
  | truncate path => files.insert path ∅
  | write path config => files.insert path config

/-- The operations for the items of a file. -/
def bucketOps (root : Path) (files : AList fun _ : Path => YamlDoc)
    (bucket : Path × List (String × ConfigPair)) : List FileOp :=
  let rootpath := root.below bucket.1
  [.truncate rootpath, .write rootpath (bucket.2.foldl putItem (loadOrCreate files rootpath))]

/-- The operations for all files, one file after the other. -/
def fileOps (root : Path) :
    (AList fun _ : Path => YamlDoc) → List (Path × List (String × ConfigPair)) → List FileOp
  | _, [] => []
  | files, bucket :: rest =>
    bucketOps root files bucket ++ fileOps root (writeBucket root files bucket) rest

/-- The storage when the process stops after `n` operations of a group set. -/
def stoppedAt (s : LocalYAMLStorage) (items : ConfigPairList) (n : Nat) : LocalYAMLStorage :=
  { s with files := run FileOp.apply s.files ((fileOps s.root s.files (buckets items)).take n) }

variable {s : LocalYAMLStorage} {root : Path} {files : AList fun _ : Path => YamlDoc}
  {items : ConfigPairList} {bs : List (Path × List (String × ConfigPair))}
  {b : Path × List (String × ConfigPair)} {f : Path} {name : String} {k : ConfigKey}

theorem run_bucketOps : run FileOp.apply files (bucketOps root files b) =
    writeBucket root files b := by
  simp only [bucketOps, run_cons, run_nil, FileOp.apply, writeBucket]
  exact AList.insert_insert _

/-- The first two operations write the first file. -/
theorem run_take_fileOps (n : Nat) :
    run FileOp.apply files ((fileOps root files (b :: bs)).take (n + 2)) =
      run FileOp.apply (writeBucket root files b)
        ((fileOps root (writeBucket root files b) bs).take n) := by
  have htake : (fileOps root files (b :: bs)).take (n + 2) = bucketOps root files b ++
      (fileOps root (writeBucket root files b) bs).take n := rfl
  rw [htake, run_append, run_bucketOps]

/-- The files at a stop: those before have been written, and one may be truncated. -/
inductive StoppedFiles (root : Path) (files : AList fun _ : Path => YamlDoc)
    (bs : List (Path × List (String × ConfigPair))) : (AList fun _ : Path => YamlDoc) → Prop
  | between (pre) : pre <+: bs → StoppedFiles root files bs (pre.foldl (writeBucket root) files)
  | truncated (pre b) : pre ++ [b] <+: bs → StoppedFiles root files bs
      ((pre.foldl (writeBucket root) files).insert (root.below b.1) ∅)

theorem StoppedFiles.cons {files' : AList fun _ : Path => YamlDoc}
    (h : StoppedFiles root (writeBucket root files b) bs files') :
    StoppedFiles root files (b :: bs) files' := by
  cases h with
  | between pre hpre => exact .between (b :: pre) ((List.prefix_cons_inj b).2 hpre)
  | truncated pre b' hpre => exact .truncated (b :: pre) b' ((List.prefix_cons_inj b).2 hpre)

/-- The stops of a list of files. -/
theorem exists_run_take_iff {files' : AList fun _ : Path => YamlDoc} :
    (∃ n, run FileOp.apply files ((fileOps root files bs).take n) = files') ↔
      StoppedFiles root files bs files' := by
  constructor
  · rintro ⟨n, rfl⟩
    induction bs generalizing files n with
    | nil =>
      rw [fileOps, List.take_nil]
      exact .between [] List.nil_prefix
    | cons b bs ih =>
      -- No operation, the truncation, or the whole file and some of the other ones.
      match n with
      | 0 => exact .between [] List.nil_prefix
      | 1 => exact .truncated [] b ⟨bs, rfl⟩
      | n + 2 =>
        rw [run_take_fileOps]
        exact (ih n).cons
  · intro h
    induction bs generalizing files files' with
    | nil =>
      refine ⟨0, ?_⟩
      cases h with
      | between pre hpre => rw [List.prefix_nil.1 hpre]; rfl
      | truncated pre b hpre => simp at hpre
    | cons b bs ih =>
      have hcons : ∀ {files' : AList fun _ : Path => YamlDoc},
          StoppedFiles root (writeBucket root files b) bs files' →
          ∃ n, run FileOp.apply files ((fileOps root files (b :: bs)).take n) = files' := by
        intro files' h
        obtain ⟨n, rfl⟩ := ih h
        exact ⟨n + 2, run_take_fileOps n⟩
      cases h with
      | between pre hpre =>
        cases pre with
        | nil => exact ⟨0, rfl⟩
        | cons c pre =>
          obtain ⟨rfl, hrest⟩ := List.cons_prefix_cons.1 hpre
          exact hcons (.between pre hrest)
      | truncated pre b' hpre =>
        cases pre with
        | nil =>
          obtain ⟨rfl, _⟩ := List.cons_prefix_cons.1 hpre
          exact ⟨1, rfl⟩
        | cons c pre =>
          obtain ⟨rfl, hrest⟩ := List.cons_prefix_cons.1 hpre
          exact hcons (.truncated pre b' hrest)

theorem exists_stoppedAt_iff {files' : AList fun _ : Path => YamlDoc} :
    (∃ n, (s.stoppedAt items n).files = files') ↔
      StoppedFiles s.root s.files (buckets items) files' := exists_run_take_iff

/-! ## Values of entries -/

/-- The value that can be read from an entry. -/
def valueAt (files : AList fun _ : Path => YamlDoc) (f : Path) (name : String) :
    Option ConfigValue :=
  decode (findEntry files f name)

/-- The value that can be read once an item has been written. -/
def writtenValue (item : ConfigPair) : Option ConfigValue := decode (some (unpackIntoYAML item))

/-- The value of an entry after the items of a pass over its file: that of the last item
    for it. -/
def afterPass (name : String) (v : Option ConfigValue) (pass : List (String × ConfigPair)) :
    Option ConfigValue :=
  (((pass.filter fun x => x.1 = name).getLast?).map fun x => writtenValue x.2).getD v

/-- The passes over a file. There are two if its path also comes with a separator in front. -/
def passes (root : Path) (bs : List (Path × List (String × ConfigPair))) (f : Path) :
    List (List (String × ConfigPair)) :=
  (bs.filter fun b => root.below b.1 = f).map Prod.snd

/-- The value of an entry after passes over its file. -/
def afterPasses (name : String) (v : Option ConfigValue)
    (ps : List (List (String × ConfigPair))) : Option ConfigValue :=
  ps.foldl (afterPass name) v

theorem writtenValue_of_empty {item : ConfigPair} (h : item.value.empty = true) :
    writtenValue item = none := by
  obtain ⟨key, value⟩ := item
  obtain rfl : value = .none := ConfigValue.eq_none_of_empty h
  rfl

theorem decode_entryAfter_eq {e : Option YamlEntry} {item : ConfigPair} :
    decode (entryAfter e item) = writtenValue item := by
  rw [entryAfter]
  split
  · next h =>
    rw [Bool.and_eq_true] at h
    rw [writtenValue_of_empty h.1]
    rfl
  · rfl

theorem valueAt_writeBucket : valueAt (writeBucket root files b) f name =
    if f = root.below b.1 then afterPass name (valueAt files f name) b.2
    else valueAt files f name := by
  rw [valueAt, findEntry_writeBucket]
  split
  · -- Of the items for the entry, the last one decides.
    rw [afterPass]
    induction b.2.filter (fun x => x.1 = name) using List.reverseRecOn with
    | nil => rfl
    | append_singleton xs x ih =>
      rw [List.map_append, List.foldl_append, List.getLast?_append_of_ne_nil _ (by simp)]
      exact decode_entryAfter_eq
  · rfl

theorem valueAt_foldl_writeBucket : valueAt (bs.foldl (writeBucket root) files) f name =
    afterPasses name (valueAt files f name) (passes root bs f) := by
  induction bs generalizing files with
  | nil => rfl
  | cons b bs ih =>
    rw [List.foldl_cons, ih, valueAt_writeBucket]
    by_cases h : root.below b.1 = f
    · rw [if_pos h.symm, passes, passes, List.filter_cons_of_pos (by simpa using h)]
      rfl
    · rw [if_neg (Ne.symm h), passes, passes, List.filter_cons_of_neg (by simpa using h)]

theorem valueAt_truncate : valueAt (files.insert (root.below b.1) ∅) f name =
    if f = root.below b.1 then none else valueAt files f name := by
  rw [valueAt, findEntry, loadOrCreate]
  split
  · next h => rw [h, AList.lookup_insert]; rfl
  · next h => rw [AList.lookup_insert_ne h]; rfl

theorem valueAt_groupSet : valueAt (s.groupSet items).files f name =
    afterPasses name (valueAt s.files f name) (passes s.root (buckets items) f) :=
  valueAt_foldl_writeBucket

/-! ## Stopping anywhere -/

/-- At every stop, each entry has the value from before, or the one that the completed
    call gives it. No entry is lost that the items do not mention. -/
def Interruptible (s : LocalYAMLStorage) (items : ConfigPairList) : Prop :=
  ∀ n f name,
    (valueAt (s.stoppedAt items n).files f name = valueAt s.files f name ∨
      valueAt (s.stoppedAt items n).files f name = valueAt (s.groupSet items).files f name) ∧
    ((∀ p ∈ items, fileOf s.root p.key = f → entryOf p.key ≠ name) →
      valueAt (s.stoppedAt items n).files f name = valueAt s.files f name)

/-- In the files that are written, each entry has no value, or the last item for it
    leaves none; and no pass over a file leaves another value in between. -/
def NothingToLose (s : LocalYAMLStorage) (items : ConfigPairList) : Prop :=
  ∀ f name, passes s.root (buckets items) f ≠ [] →
    let v := valueAt s.files f name
    let w := afterPasses name v (passes s.root (buckets items) f)
    (v = none ∨ w = none) ∧ ∀ pre, pre <+: buckets items →
      afterPasses name v (passes s.root pre f) = v ∨ afterPasses name v (passes s.root pre f) = w

/-- Without items for an entry, passes leave it alone. -/
theorem afterPasses_eq_self {v : Option ConfigValue} {ps : List (List (String × ConfigPair))}
    (h : ∀ pass ∈ ps, ∀ x ∈ pass, x.1 ≠ name) : afterPasses name v ps = v := by
  induction ps generalizing v with
  | nil => rfl
  | cons pass ps ih =>
    rw [List.forall_mem_cons] at h
    have hpass : pass.filter (fun x => x.1 = name) = [] :=
      List.filter_eq_nil_iff.2 fun x hx => by simpa using h.1 x hx
    rw [afterPasses, List.foldl_cons, afterPass, hpass]
    exact ih h.2

/-- The passes over a file have items for an entry only if an item goes there. -/
theorem not_mem_passes (h : ∀ p ∈ items, fileOf root p.key = f → entryOf p.key ≠ name) :
    ∀ pass ∈ passes root (buckets items) f, ∀ x ∈ pass, x.1 ≠ name := by
  intro pass hpass x hx
  obtain ⟨b, hb, rfl⟩ := List.mem_map.1 hpass
  obtain ⟨hb, hf⟩ := List.mem_filter.1 hb
  obtain ⟨path, _, rfl⟩ := List.mem_map.1 hb
  obtain ⟨p, hp, rfl⟩ := List.mem_map.1 hx
  obtain ⟨hp, hpath⟩ := List.mem_filter.1 hp
  rw [decide_eq_true_eq] at hpath hf
  exact h p hp (by rw [fileOf, ← Path.below_squeeze, hpath]; exact hf)

theorem interruptible_iff_nothingToLose : s.Interruptible items ↔ s.NothingToLose items := by
  constructor
  · intro h f name hf
    have hstop : ∀ {files}, StoppedFiles s.root s.files (buckets items) files →
        valueAt files f name = valueAt s.files f name ∨
          valueAt files f name = valueAt (s.groupSet items).files f name := by
      intro files hfiles
      obtain ⟨n, rfl⟩ := exists_stoppedAt_iff.2 hfiles
      exact (h n f name).1
    rw [valueAt_groupSet] at hstop
    refine ⟨?_, fun pre hpre => ?_⟩
    · -- The stop behind the truncation of the file.
      obtain ⟨pass, hpass⟩ := List.exists_mem_of_ne_nil _ hf
      obtain ⟨b, hb, rfl⟩ := List.mem_map.1 hpass
      obtain ⟨hb, hbf⟩ := List.mem_filter.1 hb
      obtain ⟨pre, post, hsplit⟩ := List.append_of_mem hb
      rw [decide_eq_true_eq] at hbf
      have htrunc := hstop (.truncated pre b ⟨post, by simp [hsplit]⟩)
      rw [valueAt_truncate, if_pos hbf.symm] at htrunc
      exact htrunc.imp Eq.symm Eq.symm
    · have hbetween := hstop (.between pre hpre)
      rwa [valueAt_foldl_writeBucket] at hbetween
  · intro h n f name
    have hbetween : ∀ pre, pre <+: buckets items →
        valueAt (pre.foldl (writeBucket s.root) s.files) f name = valueAt s.files f name ∨
          valueAt (pre.foldl (writeBucket s.root) s.files) f name =
            valueAt (s.groupSet items).files f name := by
      intro pre hpre
      rw [valueAt_foldl_writeBucket, valueAt_groupSet]
      by_cases hf : passes s.root (buckets items) f = []
      · have hnil : passes s.root pre f = [] :=
          List.prefix_nil.1 (hf ▸ (hpre.filter _).map _)
        rw [hnil]
        exact .inl rfl
      · exact (h f name hf).2 pre hpre
    have hvalue : valueAt (s.stoppedAt items n).files f name = valueAt s.files f name ∨
        valueAt (s.stoppedAt items n).files f name = valueAt (s.groupSet items).files f name := by
      have hfiles : StoppedFiles s.root s.files (buckets items) (s.stoppedAt items n).files :=
        exists_stoppedAt_iff.1 ⟨n, rfl⟩
      generalize (s.stoppedAt items n).files = files at hfiles ⊢
      cases hfiles with
      | between pre hpre => exact hbetween pre hpre
      | truncated pre b hpre =>
        -- The file is empty now; all others have what the passes so far have left.
        rw [valueAt_truncate]
        split
        · next hf =>
          have hb : b ∈ buckets items := hpre.subset (by simp)
          have hne : passes s.root (buckets items) f ≠ [] :=
            List.ne_nil_of_mem (List.mem_map_of_mem (List.mem_filter.2 ⟨hb, by simp [hf]⟩))
          rw [valueAt_groupSet]
          exact (h f name hne).1.imp Eq.symm Eq.symm
        · exact hbetween pre ((List.prefix_append pre [b]).trans hpre)
    refine ⟨hvalue, fun hitems => ?_⟩
    rw [valueAt_groupSet, afterPasses_eq_self (not_mem_passes hitems)] at hvalue
    exact hvalue.elim id id

/-! ## Reading what is left -/

/-- At every stop, reading everything gives for each key the value from before, or the one
    that the completed call gives it. No key is lost that the items do not mention. -/
def ReadInterruptible (s : LocalYAMLStorage) (items : ConfigPairList) : Prop :=
  ∀ n, ∃ m₀ m m₁, s.getAll = some m₀ ∧ (s.stoppedAt items n).getAll = some m ∧
    (s.groupSet items).getAll = some m₁ ∧ ∀ k,
      (m.values k = m₀.values k ∨ m.values k = m₁.values k) ∧
      ((∀ p ∈ items, p.key ≠ k) → m.values k = m₀.values k)

/-- In the files that items go to, the last item for each stored key erases it. -/
def KeysErased (s : LocalYAMLStorage) (items : ConfigPairList) : Prop :=
  ∀ k v, s.diskStore k = some v → (∃ p ∈ items, fileOf s.root p.key = fileOf s.root k) →
    lastWrite k items.writes = some none

theorem StoppedFiles.written {files' : AList fun _ : Path => YamlDoc} (h : Written root files)
    (hi : ∀ p ∈ items, Writable root p) (hs : StoppedFiles root files (buckets items) files') :
    Written root files' := by
  have hbetween : ∀ pre, pre <+: buckets items →
      Written root (pre.foldl (writeBucket root) files) := by
    intro pre hpre
    obtain ⟨ps, _, rfl⟩ := List.prefix_map_iff.1 hpre
    exact WrittenFor.writeBuckets h hi ps
  cases hs with
  | between pre hpre => exact hbetween pre hpre
  | truncated pre b hpre =>
    intro f n e he
    rw [findEntry, loadOrCreate] at he
    by_cases hf : f = root.below b.1
    · rw [hf, AList.lookup_insert] at he
      cases he
    · rw [AList.lookup_insert_ne hf] at he
      exact hbetween pre ((List.prefix_append pre [b]).trans hpre) f n e he

/-- Between two files, a key found back has its value from before or from after. -/
theorem valueAt_between (hk : RoundTrips root k) (hi : ∀ p ∈ items, Writable root p)
    {pre : List (Path × List (String × ConfigPair))} (hpre : pre <+: buckets items) :
    valueAt (pre.foldl (writeBucket root) files) (fileOf root k) (entryOf k) =
        valueAt files (fileOf root k) (entryOf k) ∨
      valueAt (pre.foldl (writeBucket root) files) (fileOf root k) (entryOf k) =
        (lastWrite k items.writes).getD (valueAt files (fileOf root k) (entryOf k)) := by
  obtain ⟨ps, hps, rfl⟩ := List.prefix_map_iff.1 hpre
  have hnodup : ps.Nodup := hps.sublist.nodup
    ((List.perm_insertionSort _ _).nodup_iff.2 (List.nodup_dedup _))
  simp only [valueAt]
  rw [findEntry_foldl_writeBucket hk (fun p hp => (hi p hp).key) hnodup]
  split
  · exact .inr (decode_foldl_entryAfter fun p hp => (hi p hp).value)
  · exact .inl rfl

theorem diskStore_eq_valueAt (hk : RoundTrips s.root k) :
    s.diskStore k = valueAt s.files (fileOf s.root k) (entryOf k) := if_pos hk

theorem diskStore_stoppedAt {n : Nat} (hk : RoundTrips s.root k) :
    (s.stoppedAt items n).diskStore k =
      valueAt (s.stoppedAt items n).files (fileOf s.root k) (entryOf k) := if_pos hk

/-- If what is lost behind a truncation is to be erased anyway, each key has its value
    from before or from after at every stop. -/
theorem KeysErased.diskStore_stoppedAt (h : s.KeysErased items)
    (hi : ∀ p ∈ items, Writable s.root p) {n : Nat} :
    (s.stoppedAt items n).diskStore k = s.diskStore k ∨
      (s.stoppedAt items n).diskStore k = overlay items.writes s.diskStore k := by
  by_cases hk : RoundTrips s.root k
  · have hfiles : StoppedFiles s.root s.files (buckets items) (s.stoppedAt items n).files :=
      exists_stoppedAt_iff.1 ⟨n, rfl⟩
    rw [LocalYAMLStorage.diskStore_stoppedAt hk, overlay_apply, diskStore_eq_valueAt hk]
    generalize (s.stoppedAt items n).files = files at hfiles ⊢
    cases hfiles with
    | between pre hpre => exact valueAt_between hk hi hpre
    | truncated pre b hpre =>
      rw [valueAt_truncate]
      split
      · next hf =>
        have hb : b ∈ buckets items := hpre.subset (by simp)
        obtain ⟨path, hpath, rfl⟩ := List.mem_map.1 hb
        obtain ⟨p, hp, rfl⟩ := List.mem_map.1
          (List.mem_dedup.1 ((List.perm_insertionSort _ _).mem_iff.1 hpath))
        -- What has no value before the call has none in the empty file.
        rcases hv : valueAt s.files (fileOf s.root k) (entryOf k) with _ | v
        · exact .inl rfl
        · refine .inr ?_
          rw [h k v ((diskStore_eq_valueAt hk).trans hv)
            ⟨p, hp, Path.below_squeeze.symm.trans hf.symm⟩]
          rfl
      · exact valueAt_between hk hi ((List.prefix_append pre [b]).trans hpre)
  · exact .inl (by rw [diskStore, diskStore, if_neg hk]; exact if_neg hk)

theorem readInterruptible_iff (h : Written s.root s.files) (hi : ∀ p ∈ items, Writable s.root p) :
    s.ReadInterruptible items ↔ s.KeysErased items := by
  have hstop : ∀ n, StoppedFiles s.root s.files (buckets items) (s.stoppedAt items n).files :=
    fun n => exists_stoppedAt_iff.1 ⟨n, rfl⟩
  have hwritten : ∀ n, Written (s.stoppedAt items n).root (s.stoppedAt items n).files :=
    fun n => (hstop n).written h hi
  obtain ⟨m₀, hm₀, hvalues₀⟩ := getAll_eq h
  obtain ⟨m₁, hm₁, hvalues₁⟩ := getAll_eq (h.groupSet hi)
  rw [diskStore_groupSet hi] at hvalues₁
  constructor
  · intro hread k v hv hfile
    obtain ⟨p, hp, hpk⟩ := hfile
    have hk : RoundTrips s.root k := by
      by_contra hk
      rw [diskStore, if_neg hk] at hv
      cases hv
    -- The stop behind the truncation of the file.
    have hpath : (translateKeyToPathPair p.key).1.squeeze ∈ paths items :=
      (List.perm_insertionSort _ _).mem_iff.2 (List.mem_dedup.2 (List.mem_map.2 ⟨p, hp, rfl⟩))
    have hb : (_, bucketOf items _) ∈ buckets items := List.mem_map_of_mem hpath
    obtain ⟨pre, post, hsplit⟩ := List.append_of_mem hb
    obtain ⟨n, hn⟩ := exists_stoppedAt_iff.2
      (.truncated pre _ ⟨post, by rw [hsplit, List.append_assoc]; rfl⟩)
    obtain ⟨m₀', m, m₁', hm₀', hm, hm₁', hvalues⟩ := hread n
    obtain ⟨m', hm', hvalues'⟩ := getAll_eq (hwritten n)
    obtain rfl := Option.some.inj (hm₀.symm.trans hm₀')
    obtain rfl := Option.some.inj (hm₁.symm.trans hm₁')
    obtain rfl := Option.some.inj (hm.symm.trans hm')
    have hnone : m.values k = none := by
      rw [hvalues', diskStore_stoppedAt hk, hn, valueAt_truncate]
      exact if_pos (hpk.symm.trans Path.below_squeeze.symm)
    have hvalue := (hvalues k).1
    rw [hnone, hvalues₀, hvalues₁, hv, overlay_apply, hv] at hvalue
    rcases hvalue with hvalue | hvalue
    · cases hvalue
    · rcases hw : lastWrite k items.writes with _ | w
      · rw [hw] at hvalue
        cases hvalue
      · rw [hw] at hvalue
        rw [hvalue]
        rfl
  · intro herased n
    obtain ⟨m, hm, hvalues⟩ := getAll_eq (hwritten n)
    refine ⟨m₀, m, m₁, hm₀, hm, hm₁, fun k => ?_⟩
    have hvalue : (s.stoppedAt items n).diskStore k = s.diskStore k ∨
        (s.stoppedAt items n).diskStore k = overlay items.writes s.diskStore k :=
      herased.diskStore_stoppedAt hi
    rw [hvalues, hvalues₀, hvalues₁]
    refine ⟨hvalue, fun hitems => ?_⟩
    have hw : lastWrite k items.writes = none := lastWrite_eq_none_iff.2 fun w hw => by
      obtain ⟨p, hp, rfl⟩ := List.mem_map.1 hw
      exact hitems p hp
    rw [overlay_apply, hw, Option.getD_none] at hvalue
    exact hvalue.elim id id

/-- When the process may stop anywhere: exactly when nothing is stored in the files to be
    written that the completed call does not erase. For what is read from disks that hold
    only pairs that are found back, this is about keys. -/
theorem interruptible_iff (s : LocalYAMLStorage) (items : ConfigPairList) :
    (s.Interruptible items ↔ s.NothingToLose items) ∧
    (Written s.root s.files → (∀ p ∈ items, Writable s.root p) →
      (s.ReadInterruptible items ↔ s.KeysErased items)) :=
  ⟨interruptible_iff_nothingToLose, readInterruptible_iff⟩

/-- A disk with two keys in one file, and one in another. -/
def twoFiles : LocalYAMLStorage := (new "/s".toList).groupSet
  [.ofInt32 "net.mtu" 1500, .ofInt32 "net.vlan" 7, .ofInt32 "time.zone" 1]

/-- A key for the first file, in which those that are there are erased. -/
def replaced : ConfigPairList :=
  [.ofInt32 "net.gateway" 3, ⟨.ofString "net.mtu", .none⟩, ⟨.ofString "net.vlan", .none⟩]

theorem interruptible_iff_replaced : twoFiles.ReadInterruptible replaced := by
  have hdisk : ∀ p ∈ [ConfigPair.ofInt32 "net.mtu" 1500, .ofInt32 "net.vlan" 7,
      .ofInt32 "time.zone" 1], Writable "/s".toList p := by decide
  refine ((interruptible_iff _ _).2 (written_new.groupSet hdisk) (by decide)).2
    fun k v hv hfile => ?_
  rw [diskStore_groupSet hdisk, overlay_apply] at hv
  rcases hw : lastWrite k (ConfigPairList.writes [.ofInt32 "net.mtu" 1500, .ofInt32 "net.vlan" 7,
    .ofInt32 "time.zone" 1]) with _ | w
  · rw [hw, Option.getD_none, diskStore] at hv
    split at hv <;> cases hv
  · -- Of the stored keys, the one in the other file has no items there.
    have hmem := mem_of_lastWrite_eq_some hw
    simp only [ConfigPairList.writes, List.map_cons, List.map_nil, List.mem_cons,
      List.not_mem_nil, or_false] at hmem
    rcases hmem with h | h | h
    · rw [(Prod.mk.inj h).1]
      decide
    · rw [(Prod.mk.inj h).1]
      decide
    · rw [(Prod.mk.inj h).1] at hfile
      exact absurd hfile (by decide)

/-- Stopping behind the truncation of a file, to write one of its entries, loses the
    other one. -/
theorem not_forall_kept :
    ¬ ∀ (s : LocalYAMLStorage) (items : ConfigPairList) (n : Nat) (k : ConfigKey),
      (∀ p ∈ items, p.key ≠ k) → (s.stoppedAt items n).getAll.map (fun m => m.values k) =
        s.getAll.map fun m => m.values k := by
  intro h
  have hlost := h
    ((new "/s".toList).groupSet [.ofInt32 "net.mtu" 1500, .ofInt32 "net.vlan" 7])
    [.ofInt32 "net.mtu" 9000] 1 (.ofString "net.vlan") (by decide)
  exact absurd hlost (by decide)

end SysAdmin.LocalYAMLStorage
