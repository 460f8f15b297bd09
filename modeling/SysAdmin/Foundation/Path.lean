import Mathlib.Data.List.Infix

/-!
# Pathnames

Pathnames as strings of characters, with the operations of a filesystem library
on them: appending, the last element, and replacing its extension. They follow
the documentation of `boost::filesystem` for pathnames with `/` as the separator
and without a root name.
-/

namespace SysAdmin

/-- A pathname. -/
abbrev Path := List Char

namespace Path

/-- `p / q`: a separator goes between the two unless one of them brings it, or
    one of them is empty. -/
def append (p q : Path) : Path :=
  if p = [] ∨ q = [] ∨ p.getLast? = some '/' ∨ q.head? = some '/' then p ++ q
  else p ++ '/' :: q

/-- The last element; a trailing separator counts as the element `.`. -/
def filename (p : Path) : Path :=
  if p.getLast? = some '/' then (if p.all (· = '/') then ['/'] else ['.'])
  else (p.splitOn '/').getLast?.getD []

/-- The extension of the last element, from its last dot on. -/
def extension (p : Path) : Path :=
  let name := p.filename
  if name = ['.'] ∨ name = ['.', '.'] ∨ '.' ∉ name then []
  else '.' :: (name.reverse.takeWhile (· ≠ '.')).reverse

/-- The last element without its extension. -/
def stem (p : Path) : Path := p.filename.take (p.filename.length - p.extension.length)

/-- The path with another extension; the dot of the extension may be left out. -/
def replaceExtension (p newExtension : Path) : Path :=
  let stem := p.take (p.length - p.extension.length)
  if newExtension = [] then stem
  else if newExtension.head? = some '.' then stem ++ newExtension
  else stem ++ '.' :: newExtension

/-- The elements: the root directory, if the path starts with a separator, then the names,
    then `.` for a trailing separator. Several separators in a row count as one. -/
def elements (p : Path) : List Path :=
  (if p.head? = some '/' then [['/']] else []) ++ (p.splitOn '/').filter (· ≠ []) ++
    if p.getLast? = some '/' ∧ !p.all (· = '/') then [['.']] else []

/-- The order of pathnames: element by element, and these by their characters. -/
def le (p q : Path) : Bool :=
  !q.elements.lex p.elements fun a b => a.lex b fun x y => decide (x.toNat < y.toNat)

/-- The path with one separator for several in a row: its spelling among the paths with
    the same elements. -/
def squeeze : Path → Path
  | [] => []
  | c :: p => if c = '/' ∧ (squeeze p).head? = some '/' then squeeze p else c :: squeeze p

/-- The file that `root / p` leads to, as it is found by going through the directories
    below the root. -/
def below (root p : Path) : Path := root.append (p.squeeze.dropWhile (· = '/'))

/-- The path as a directory, with a separator at its end. -/
def asDir (p : Path) : Path := if p = [] ∨ p.getLast? = some '/' then p else p ++ ['/']

variable {p q name e : Path} {P : Path → Bool}

theorem append_eq (hq : q ≠ []) (hs : q.head? ≠ some '/') : p.append q = p.asDir ++ q := by
  rw [append, asDir]
  by_cases hp : p = [] ∨ p.getLast? = some '/'
  · rw [if_pos hp, if_pos]
    rcases hp with h | h
    · exact .inl h
    · exact .inr (.inr (.inl h))
  · rw [if_neg hp, if_neg]
    · simp
    · rintro (h | h | h | h)
      · exact hp (.inl h)
      · exact hq h
      · exact hp (.inr h)
      · exact hs h

/-- A name is the last element of a path it is put behind. -/
theorem filename_append (hn : name ≠ []) (hs : '/' ∉ name) :
    (p.asDir ++ name).filename = name := by
  have hlast : (p.asDir ++ name).getLast? ≠ some '/' := by
    rw [List.getLast?_append_of_ne_nil _ hn]
    exact fun h => hs (List.mem_of_getLast? h)
  rw [filename, if_neg hlast, asDir]
  split
  · next hp =>
    rcases hp with rfl | hp
    · rw [List.nil_append, List.splitOn_eq_singleton hs]
      rfl
    · obtain ⟨p', rfl⟩ := List.getLast?_eq_some_iff.1 hp
      rw [List.append_assoc, List.singleton_append, List.splitOn_append_cons_self,
        List.splitOn_eq_singleton hs]
      simp
  · rw [List.append_assoc, List.singleton_append, List.splitOn_append_cons_self,
      List.splitOn_eq_singleton hs]
    simp

/-- A separator goes between two paths, or nothing does. -/
theorem exists_append (p q : Path) :
    ∃ sep, (sep = [] ∨ sep = ['/']) ∧ p.append q = p ++ (sep ++ q) := by
  rw [append]
  split
  · exact ⟨[], .inl rfl, rfl⟩
  · exact ⟨['/'], .inr rfl, rfl⟩

/-- The elements of a path are parts of it. -/
theorem subset_of_mem_splitOn {c : Char} {l : Path} (hl : l ∈ p.splitOn c) : l ⊆ p := by
  induction p generalizing l with
  | nil =>
    rw [List.splitOn_nil, List.mem_singleton] at hl
    exact hl ▸ List.Subset.refl _
  | cons x p ih =>
    obtain ⟨a, as, ha⟩ := List.exists_cons_of_ne_nil (List.splitOn_ne_nil c p)
    rw [List.splitOn_cons_eq_if_modifyHead, ha] at hl
    rw [ha] at ih
    split at hl
    · rcases List.mem_cons.1 hl with rfl | hl
      · exact List.nil_subset _
      · exact List.subset_cons_of_subset _ (ih hl)
    · rcases List.mem_cons.1 hl with rfl | hl
      · exact List.cons_subset_cons _ (ih List.mem_cons_self)
      · exact List.subset_cons_of_subset _ (ih (List.mem_cons_of_mem _ hl))

/-- Without a dot, there is no extension: the name of a directory counts as `.`. -/
theorem extension_of_dotFree (h : '.' ∉ p) : p.extension = [] := by
  rw [extension, if_pos]
  rw [filename]
  split_ifs
  · exact .inr (.inr (by decide))
  · exact .inl rfl
  · refine .inr (.inr fun hdot => h ?_)
    rcases hlast : (p.splitOn '/').getLast? with _ | l
    · rw [hlast] at hdot
      cases hdot
    · rw [hlast, Option.getD_some] at hdot
      exact subset_of_mem_splitOn (List.mem_of_getLast? hlast) hdot

theorem extension_of_not_mem (h : '.' ∉ p.filename) : p.extension = [] := by
  rw [extension, if_pos (.inr (.inr h))]

/-- Without an extension to replace, the new one is added. -/
theorem replaceExtension_of_not_mem (h : '.' ∉ p.filename) :
    p.replaceExtension ('.' :: e) = p ++ '.' :: e := by
  simp [replaceExtension, extension_of_not_mem h]

/-- What is put behind a path goes to its last element, up to a separator. -/
theorem splitOn_append_of_not_mem (hq : '/' ∉ q) : (p ++ q).splitOn '/' =
    (p.splitOn '/').dropLast ++ [(p.splitOn '/').getLast?.getD [] ++ q] := by
  induction p with
  | nil => simp [List.splitOn_eq_singleton hq]
  | cons c p ih =>
    obtain ⟨x, xs, hx⟩ := List.exists_cons_of_ne_nil (List.splitOn_ne_nil '/' p)
    rw [List.cons_append, List.splitOn_cons_eq_if_modifyHead, List.splitOn_cons_eq_if_modifyHead,
      ih, hx]
    split
    · simp
    · -- The first element grows; it may be the last one, too.
      cases xs <;> simp

/-- The last element of a path with an extension. -/
theorem filename_append_extension (he : '/' ∉ e) : (p ++ '.' :: e).filename =
    (p.splitOn '/').getLast?.getD [] ++ '.' :: e := by
  have hext : '/' ∉ '.' :: e := by simpa using he
  have hlast : (p ++ '.' :: e).getLast? ≠ some '/' := by
    rw [List.getLast?_append_of_ne_nil _ (by simp)]
    exact fun h => hext (List.mem_of_getLast? h)
  rw [filename, if_neg hlast, splitOn_append_of_not_mem hext]
  simp

/-- The extension of a path goes from the last dot on. -/
theorem extension_append_extension (hne : e ≠ []) (he : '/' ∉ e) (hdot : '.' ∉ e) :
    (p ++ '.' :: e).extension = '.' :: e := by
  -- The name does not end in a dot, so it is neither `.` nor `..`.
  have hend : ∀ l : Path, (l ++ '.' :: e).getLast? ≠ some '.' := fun l => by
    rw [← List.singleton_append, ← List.append_assoc, List.getLast?_append_of_ne_nil _ hne]
    exact fun h => hdot (List.mem_of_getLast? h)
  have hrev : ∀ c ∈ e.reverse, decide (c ≠ '.') = true := fun c hc => by
    rw [decide_eq_true_eq]
    exact fun h => hdot (h ▸ List.mem_reverse.1 hc)
  rw [extension, filename_append_extension he, if_neg]
  · rw [List.reverse_append, List.reverse_cons, List.append_assoc,
      List.takeWhile_append_of_pos hrev]
    simp
  · rintro (h | h | h)
    · exact hend _ (by rw [h]; rfl)
    · exact hend _ (by rw [h]; rfl)
    · exact h (by simp)

/-- Taking the extension off. -/
theorem replaceExtension_nil (hne : e ≠ []) (he : '/' ∉ e) (hdot : '.' ∉ e) :
    (p ++ '.' :: e).replaceExtension [] = p := by
  rw [replaceExtension, if_pos rfl, extension_append_extension hne he hdot]
  simp

/-- The last element of a path with an extension, without it again. -/
theorem stem_append_extension (hs : '/' ∉ name) (hne : e ≠ []) (he : '/' ∉ e) (hdot : '.' ∉ e) :
    (p.asDir ++ name ++ '.' :: e).stem = name := by
  have hfile : (p.asDir ++ name ++ '.' :: e).filename = name ++ '.' :: e := by
    rw [List.append_assoc]
    exact filename_append (by simp) (by simp [hs, he])
  rw [stem, extension_append_extension hne he hdot, hfile]
  simp

theorem squeeze_squeeze : p.squeeze.squeeze = p.squeeze := by
  induction p with
  | nil => rfl
  | cons c p ih =>
    rw [squeeze]
    split
    · exact ih
    · next h => rw [squeeze, ih, if_neg h]

theorem below_squeeze {root : Path} : below root p.squeeze = below root p := by
  rw [below, squeeze_squeeze, below]

/-- What has no separator stays behind a path as it is. -/
theorem squeeze_append_of_not_mem (hq : '/' ∉ q) : (p ++ q).squeeze = p.squeeze ++ q := by
  have hself : q.squeeze = q := by
    induction q with
    | nil => rfl
    | cons c q ih =>
      rw [List.mem_cons, not_or] at hq
      rw [squeeze, ih hq.2, if_neg fun h => hq.1 h.1.symm]
  induction p with
  | nil => exact hself
  | cons c p ih =>
    have hhead : (squeeze p ++ q).head? = some '/' ↔ (squeeze p).head? = some '/' := by
      rw [List.head?_append]
      rcases hs : (squeeze p).head? with _ | x
      · rw [Option.none_or]
        exact ⟨fun h => absurd (List.mem_of_head? h) hq, nofun⟩
      · rfl
    rw [List.cons_append, squeeze, squeeze, ih]
    simp only [hhead]
    split <;> rfl

/-- Separators in a row only make for more empty elements. -/
theorem filter_splitOn_squeeze (hP : P [] = false) :
    (p.squeeze.splitOn '/').filter P = (p.splitOn '/').filter P := by
  have hsplit : ∃ a as bs, p.splitOn '/' = a :: as ∧ p.squeeze.splitOn '/' = a :: bs ∧
      bs.filter P = as.filter P := by
    induction p with
    | nil => exact ⟨[], [], [], by simp, by simp [squeeze], rfl⟩
    | cons c p ih =>
      obtain ⟨a, as, bs, has, hbs, heq⟩ := ih
      by_cases hc : c = '/'
      · subst hc
        have hsep : ('/' :: p).splitOn '/' = [] :: a :: as := by
          rw [List.splitOn_cons_eq_if_modifyHead, if_pos (by simp), has]
        by_cases hhead : (squeeze p).head? = some '/'
        · -- The element between the two separators is empty.
          obtain ⟨r, hr⟩ := List.head?_eq_some_iff.1 hhead
          have ha : a = [] := by
            rw [hr, List.splitOn_cons_eq_if_modifyHead, if_pos (by simp)] at hbs
            exact (List.cons.inj hbs).1.symm
          subst ha
          refine ⟨[], [] :: as, bs, hsep, ?_, ?_⟩
          · rw [squeeze, if_pos ⟨rfl, hhead⟩, hbs]
          · rw [heq, List.filter_cons_of_neg (by simp [hP])]
        · refine ⟨[], a :: as, a :: bs, hsep, ?_, ?_⟩
          · rw [squeeze, if_neg fun h => hhead h.2, List.splitOn_cons_eq_if_modifyHead,
              if_pos (by simp), hbs]
          · rw [List.filter_cons, List.filter_cons, heq]
      · refine ⟨c :: a, as, bs, ?_, ?_, heq⟩
        · rw [List.splitOn_cons_eq_if_modifyHead, if_neg (by simpa using hc), has]
          rfl
        · rw [squeeze, if_neg fun h => hc h.1, List.splitOn_cons_eq_if_modifyHead,
            if_neg (by simpa using hc), hbs]
          rfl
  obtain ⟨a, as, bs, has, hbs, heq⟩ := hsplit
  rw [has, hbs, List.filter_cons, List.filter_cons, heq]

/-- Neither do those in front matter. -/
theorem filter_splitOn_dropWhile (hP : P [] = false) :
    ((p.dropWhile (· = '/')).splitOn '/').filter P = (p.splitOn '/').filter P := by
  induction p with
  | nil => rfl
  | cons c p ih =>
    by_cases hc : c = '/'
    · rw [List.dropWhile_cons_of_pos (by simpa using hc), ih, List.splitOn_cons_eq_if_modifyHead,
        if_pos (by simpa using hc), List.filter_cons_of_neg (by simp [hP])]
    · rw [List.dropWhile_cons_of_neg (by simpa using hc)]
/-- The file that a path with an extension leads to: its names, behind the root. -/
theorem exists_below_append (root p : Path) (he : '/' ∉ e) :
    ∃ sep, (sep = [] ∨ sep = ['/']) ∧ below root (p ++ '.' :: e) =
      root ++ (sep ++ p.squeeze.dropWhile (· = '/')) ++ '.' :: e := by
  have hext : '/' ∉ '.' :: e := by simpa using he
  have hdrop : (p.squeeze ++ '.' :: e).dropWhile (· = '/') =
      p.squeeze.dropWhile (· = '/') ++ '.' :: e := by
    rw [List.dropWhile_append]
    split
    · next h =>
      rw [List.isEmpty_iff.1 h, List.dropWhile_cons_of_neg (by decide)]
      rfl
    · rfl
  obtain ⟨sep, hsep, happend⟩ := exists_append root (p.squeeze.dropWhile (· = '/') ++ '.' :: e)
  refine ⟨sep, hsep, ?_⟩
  rw [below, squeeze_append_of_not_mem hext, hdrop, happend]
  simp

end Path

/-- Takes the first occurrence of `pat` out of a string, if there is one. -/
def eraseFound (pat : List Char) : List Char → Option (List Char)
  | [] => if pat = [] then some [] else none
  | c :: cs =>
    if pat.isPrefixOf (c :: cs) then some ((c :: cs).drop pat.length)
    else (eraseFound pat cs).map (c :: ·)

end SysAdmin
