import JniHeaders.Input

/-!
Names of files in an archive and in a directory. In an archive a file goes by its whole name, in a
directory by its last name. Both are names of class files, or neither is, unless the file lies under
`META-INF`.
-/

namespace JniHeaders

def entryName (names : List String) : String := "/".intercalate names

def lastName (names : List String) : String := names.getLast?.getD ""

def isUnderMetaInf (names : List String) : Bool := names.dropLast.head? = some "META-INF"

/-- Names that lead from a directory to a file below it. -/
structure LeadsToFile (names : List String) : Prop where
  nonempty : names ≠ []
  slashless : ∀ name ∈ names, '/' ∉ name.toList

instance (names : List String) : Decidable (LeadsToFile names) :=
  decidable_of_iff (names ≠ [] ∧ ∀ name ∈ names, '/' ∉ name.toList)
    ⟨fun h => ⟨h.1, h.2⟩, fun h => ⟨h.nonempty, h.slashless⟩⟩

theorem LeadsToFile.exists_eq_concat {names : List String} (h : LeadsToFile names) :
    ∃ directories last, names = directories ++ [last] ∧ '/' ∉ last.toList ∧
      ∀ directory ∈ directories, '/' ∉ directory.toList := by
  refine ⟨names.dropLast, names.getLast h.nonempty, ?_, ?_, ?_⟩
  · exact (List.dropLast_concat_getLast h.nonempty).symm
  · exact h.slashless _ (List.getLast_mem h.nonempty)
  · exact fun directory hmem => h.slashless directory (List.dropLast_subset _ hmem)

theorem entryName_concat (directories : List String) (last : String) :
    (entryName (directories ++ [last])).toList =
      directories.flatMap (·.toList ++ ['/']) ++ last.toList := by
  induction directories with
  | nil => simp [entryName]
  | cons directory directories ih =>
    have hslash : "/".toList = ['/'] := rfl
    have hstep : (entryName (directory :: directories ++ [last])).toList =
        directory.toList ++ '/' :: (entryName (directories ++ [last])).toList := by
      cases directories <;> simp [entryName, String.toList_intercalate, hslash]
    rw [hstep, ih]
    simp

/-- Text without a slash that ends a name lies after the last slash. -/
theorem suffix_append_slash_iff {text : List Char} (h : '/' ∉ text) (before rest : List Char) :
    text <:+ before ++ '/' :: rest ↔ text <:+ rest := by
  constructor
  · intro htext
    have hslash : '/' :: rest <:+ before ++ '/' :: rest := List.suffix_append _ _
    rcases List.suffix_or_suffix_of_suffix htext hslash with hinside | hacross
    · rcases List.suffix_cons_iff.mp hinside with rfl | hrest
      · exact absurd List.mem_cons_self h
      · exact hrest
    · exact absurd (hacross.subset List.mem_cons_self) h
  · intro hrest
    exact hrest.trans ((List.suffix_cons _ _).trans (List.suffix_append _ _))

theorem isSuffixOf_entryName {text last : List Char} (h : '/' ∉ text)
    (directories : List String) :
    text.isSuffixOf (directories.flatMap (·.toList ++ ['/']) ++ last) = text.isSuffixOf last := by
  rw [Bool.eq_iff_iff, List.isSuffixOf_iff_suffix, List.isSuffixOf_iff_suffix]
  induction directories with
  | nil => rfl
  | cons directory directories ih =>
    have htext : (directory :: directories).flatMap (·.toList ++ ['/']) ++ last =
        directory.toList ++ '/' :: (directories.flatMap (·.toList ++ ['/']) ++ last) := by
      simp
    rw [htext, suffix_append_slash_iff h]
    exact ih

theorem prefix_append_slash_iff {first second : List Char} (hfirst : '/' ∉ first)
    (hsecond : '/' ∉ second) (rest : List Char) :
    first ++ ['/'] <+: second ++ '/' :: rest ↔ first = second := by
  have hhead : ∀ text : List Char, '/' ∉ text → ∀ tail,
      (text ++ '/' :: tail).takeWhile (· ≠ '/') = text := by
    intro text htext tail
    rw [List.takeWhile_append_of_pos]
    · simp
    · intro c hc
      simpa using ne_of_mem_of_not_mem hc htext
  constructor
  · rintro ⟨tail, heq⟩
    rw [List.append_assoc, List.singleton_append] at heq
    rw [← hhead first hfirst tail, heq, hhead second hsecond rest]
  · rintro rfl
    exact ⟨rest, by simp⟩

theorem metaInf_isPrefixOf_last {last : List Char} (h : '/' ∉ last) :
    "META-INF/".toList.isPrefixOf last = false := by
  have hslash : '/' ∈ "META-INF/".toList := by decide
  rw [Bool.eq_false_iff]
  intro hopens
  rw [List.isPrefixOf_iff_prefix] at hopens
  exact h (hopens.subset hslash)

theorem metaInf_isPrefixOf_entryName {directories : List String} {last : List Char}
    (hlast : '/' ∉ last) (hdirectories : ∀ directory ∈ directories, '/' ∉ directory.toList) :
    "META-INF/".toList.isPrefixOf (directories.flatMap (·.toList ++ ['/']) ++ last) =
      decide (directories.head? = some "META-INF") := by
  cases directories with
  | nil => exact metaInf_isPrefixOf_last hlast
  | cons directory directories =>
    have hmeta : "META-INF/".toList = "META-INF".toList ++ ['/'] := rfl
    have hslashless : '/' ∉ "META-INF".toList := by decide
    have htext : (directory :: directories).flatMap (·.toList ++ ['/']) ++ last =
        directory.toList ++ '/' :: (directories.flatMap (·.toList ++ ['/']) ++ last) := by
      simp
    rw [Bool.eq_iff_iff, List.isPrefixOf_iff_prefix, hmeta, htext,
      prefix_append_slash_iff hslashless (hdirectories directory List.mem_cons_self),
      String.toList_inj]
    simp [eq_comm]

theorem isClassFileName_entryName {names : List String} (h : LeadsToFile names) :
    isClassFileName (entryName names) =
      (isClassFileName (lastName names) && !isUnderMetaInf names) := by
  obtain ⟨directories, last, rfl, hlast, hdirectories⟩ := h.exists_eq_concat
  have hnone := metaInf_isPrefixOf_last hlast
  have hlastName : lastName (directories ++ [last]) = last := by simp [lastName]
  have hunder : isUnderMetaInf (directories ++ [last]) =
      decide (directories.head? = some "META-INF") := by simp [isUnderMetaInf]
  unfold isClassFileName
  rw [hlastName, hunder, entryName_concat]
  dsimp only
  rw [isSuffixOf_entryName (by decide), isSuffixOf_entryName (by decide),
    isSuffixOf_entryName (by decide), metaInf_isPrefixOf_entryName hlast hdirectories, hnone]
  simp only [Bool.not_false, Bool.and_true]
  ac_rfl

end JniHeaders
