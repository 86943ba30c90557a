import JniHeaders.Proofs.HeaderGrouping
import JniHeaders.Proofs.Identifier

/-!
The include guards of the headers of single classes. A guard keeps the letters and digits of a
stem at their places and nothing else of it, so it tells two stems apart exactly where a letter or
a digit of one of them is not in the other.
-/

namespace JniHeaders

/-- A stem with one character in the place of the other has the same guard. -/
def SharesGuardChar (c d : Char) : Prop := c = d ∨ c.isAlphanum = false ∧ d.isAlphanum = false

instance (c d : Char) : Decidable (SharesGuardChar c d) :=
  inferInstanceAs (Decidable (c = d ∨ c.isAlphanum = false ∧ d.isAlphanum = false))

/-- The stems are of one length and differ only where neither has a letter or a digit. -/
def LookAlike (first second : String) : Prop :=
  List.Forall₂ SharesGuardChar first.toList second.toList

instance (first second : String) : Decidable (LookAlike first second) :=
  inferInstanceAs (Decidable (List.Forall₂ SharesGuardChar first.toList second.toList))

theorem guardChar_eq_iff (c d : Char) :
    (if c.isAlphanum ∨ c = '_' then c else '_') = (if d.isAlphanum ∨ d = '_' then d else '_') ↔
      SharesGuardChar c d := by
  have hkept : ∀ e : Char, (if e.isAlphanum ∨ e = '_' then e else '_') =
      if e.isAlphanum then e else '_' := by
    intro e
    by_cases halphanum : e.isAlphanum
    · simp [halphanum]
    · by_cases hunderscore : e = '_' <;> simp [halphanum, hunderscore]
  have hletter : ∀ e : Char, e.isAlphanum → e ≠ '_' := by
    rintro _ halphanum rfl
    exact absurd halphanum (by decide)
  rw [hkept, hkept, SharesGuardChar]
  by_cases hc : c.isAlphanum
  · by_cases hd : d.isAlphanum
    · simp [hc, hd]
    · have hdiffer : c ≠ d := fun heq => hd (heq ▸ hc)
      simp [hc, hd, hdiffer, hletter c hc]
  · by_cases hd : d.isAlphanum
    · have hdiffer : c ≠ d := fun heq => hc (heq ▸ hd)
      simp [hc, hd, hdiffer, (hletter d hd).symm]
    · simp [hc, hd]

theorem includeGuard_eq_iff (first second : String) :
    includeGuard first = includeGuard second ↔ LookAlike first second := by
  unfold includeGuard LookAlike
  rw [String.ofList_inj, List.append_cancel_left_eq, ← List.forall₂_eq_eq_eq,
    List.forall₂_map_left_iff, List.forall₂_map_right_iff]
  simp only [guardChar_eq_iff]

theorem isIdentifier_includeGuard (stem : String) : IsIdentifier (includeGuard stem) := by
  have hopening : ∀ c ∈ "_Included_".toList, isIdentifierChar c := List.all_eq_true.mp rfl
  have hstem : ∀ c ∈ stem.toList.map fun c => if c.isAlphanum ∨ c = '_' then c else '_',
      isIdentifierChar c := by
    refine List.forall_mem_map.mpr fun c _ => ?_
    split
    · simp_all [isIdentifierChar]
    · decide
  exact isIdentifier_ofList rfl (by decide) (List.forall_mem_append.mpr ⟨hopening, hstem⟩)

theorem headerStem_eq_self {name : String} (h : '$' ∉ name.toList) : headerStem name = name := by
  have hkeep : (name.toList.map fun c => if c = '$' then '_' else c) = name.toList.map id :=
    List.map_congr_left fun c hc => if_neg (ne_of_mem_of_not_mem hc h)
  rw [headerStem, hkeep, List.map_id, String.ofList_toList]

theorem eq_of_lookAlike {first second : String}
    (hfirst : ∀ c ∈ first.toList, c.isAlphanum ∨ c = '.')
    (hsecond : ∀ c ∈ second.toList, c.isAlphanum ∨ c = '.') (h : LookAlike first second) :
    first = second := by
  obtain ⟨hlength, hchars⟩ := List.forall₂_iff_zip.mp h
  apply String.toList_inj.mp
  rw [← List.forall₂_eq_eq_eq]
  refine List.forall₂_iff_zip.mpr ⟨hlength, fun {c d} hmem => ?_⟩
  obtain ⟨hc, hd⟩ := List.of_mem_zip hmem
  rcases hchars hmem with hsame | ⟨hnotc, hnotd⟩
  · exact hsame
  · have hcdot : c = '.' := by simpa [hnotc] using hfirst c hc
    have hddot : d = '.' := by simpa [hnotd] using hsecond d hd
    rw [hcdot, hddot]

namespace Header

/-- What is declared once headers have been included in this order. The names in `defined` are
macros that were there before, and a header whose guard is one of them is passed over. -/
def included (defined : List String) : List Header → List Declaration
  | [] => []
  | header :: others =>
    match header.guard with
    | .named name =>
      if name ∈ defined then included defined others
      else header.declarations ++ included (name :: defined) others
    | _ => header.declarations ++ included defined others

theorem included_of_pairwise {headers : List Header} {defined : List String}
    (hnew : ∀ header ∈ headers, ∀ name ∈ defined, header.guard ≠ .named name)
    (h : headers.Pairwise fun first second => first.guard ≠ second.guard) :
    included defined headers = headers.flatMap (·.declarations) := by
  induction headers generalizing defined with
  | nil => rfl
  | cons header others ih =>
    obtain ⟨hfirst, hothers⟩ := List.pairwise_cons.mp h
    obtain ⟨hundefined, hrest⟩ := List.forall_mem_cons.mp hnew
    rw [included, List.flatMap_cons]
    split
    · rename_i name hguard
      have hfresh : name ∉ defined := fun hmem => hundefined name hmem hguard
      rw [if_neg hfresh, ih _ hothers]
      intro other hother
      refine List.forall_mem_cons.mpr ⟨?_, hrest other hother⟩
      rw [← hguard]
      exact (hfirst other hother).symm
    · rw [ih hrest hothers]

end Header

namespace Extraction

theorem classGuard_of_ne {guard : Guard} (h : guard ≠ .pragmaOnce) (stem : String) :
    classGuard guard stem = .named (includeGuard stem) := by
  cases guard <;> first | rfl | exact absurd rfl h

theorem guard_of_mem_perClass {extraction : Extraction} {options : HeaderOptions}
    (hguard : options.guard ≠ .pragmaOnce) {document : String × Header}
    (h : document ∈ extraction.perClass options) :
    document.2.guard = .named (includeGuard document.1) := by
  obtain ⟨-, hheader⟩ := mem_perClass_iff.mp h
  rw [hheader]
  exact classGuard_of_ne hguard _

theorem not_lookAlike_of_plain_names {extraction : Extraction}
    (hplain : ∀ name ∈ extraction.classNames, ∀ c ∈ name.toList, c.isAlphanum ∨ c = '.') :
    (extraction.classNames.map headerStem).eraseDups.Pairwise (¬ LookAlike · ·) := by
  have hstem : ∀ stem ∈ (extraction.classNames.map headerStem).eraseDups,
      ∀ c ∈ stem.toList, c.isAlphanum ∨ c = '.' := by
    intro stem hmem
    obtain ⟨name, hname, rfl⟩ := List.mem_map.mp (List.mem_eraseDups.mp hmem)
    have hdollar : '$' ∉ name.toList := fun h =>
      absurd (hplain name hname '$' h) (by decide)
    rw [headerStem_eq_self hdollar]
    exact hplain name hname
  refine extraction.grouping_collects.nodup.imp_of_mem fun hfirst hsecond hne halike => ?_
  exact hne (eq_of_lookAlike (hstem _ hfirst) (hstem _ hsecond) halike)

end Extraction

/-- The headers of two classes have one guard exactly if their stems look alike. Where no two do,
a compiler gets all declarations of all headers, whatever order they are included in. -/
theorem class_guards_clash_iff_stems_look_alike (extraction : Extraction)
    (options : HeaderOptions) (hguard : options.guard ≠ .pragmaOnce) :
    (∀ first ∈ extraction.perClass options, ∀ second ∈ extraction.perClass options,
      (first.2.guard = second.2.guard ↔ LookAlike first.1 second.1)) ∧
    (((extraction.perClass options).map (·.2.guard)).Nodup ↔
      ((extraction.perClass options).map (·.1)).Pairwise (¬ LookAlike · ·)) ∧
    (((extraction.perClass options).map (·.1)).Pairwise (¬ LookAlike · ·) →
      ∀ headers, headers.Perm ((extraction.perClass options).map (·.2)) →
        Header.included [] headers = headers.flatMap (·.declarations)) ∧
    ((∀ name ∈ extraction.classNames, ∀ c ∈ name.toList, c.isAlphanum ∨ c = '.') →
      ((extraction.perClass options).map (·.1)).Pairwise (¬ LookAlike · ·)) := by
  have hclash : ∀ first ∈ extraction.perClass options, ∀ second ∈ extraction.perClass options,
      (first.2.guard = second.2.guard ↔ LookAlike first.1 second.1) := by
    intro first hfirst second hsecond
    rw [Extraction.guard_of_mem_perClass hguard hfirst,
      Extraction.guard_of_mem_perClass hguard hsecond, ← includeGuard_eq_iff]
    simp
  have hnodup : ((extraction.perClass options).map (·.2.guard)).Nodup ↔
      ((extraction.perClass options).map (·.1)).Pairwise (¬ LookAlike · ·) := by
    unfold List.Nodup
    rw [List.pairwise_map, List.pairwise_map]
    exact List.Pairwise.iff_of_mem fun hfirst hsecond => not_congr (hclash _ hfirst _ hsecond)
  refine ⟨hclash, hnodup, ?_, ?_⟩
  · intro hstems headers hperm
    have hguards : (headers.map (·.guard)).Nodup := by
      rw [(hperm.map _).nodup_iff, List.map_map]
      exact hnodup.mpr hstems
    exact Header.included_of_pairwise (by simp) (List.pairwise_map.mp hguards)
  · intro hplain
    rw [extraction.perClass_stems]
    exact Extraction.not_lookAlike_of_plain_names hplain

theorem neighbours_are_included_together :
    ({} : HeaderOptions).guard ≠ .pragmaOnce ∧
    (neighbours.perClass {}).map (·.2.guard) =
      [.named "_Included_a_Outer_Inner", .named "_Included_a_Plain",
        .named "_Included_b_Other"] ∧
    ∀ headers, headers.Perm ((neighbours.perClass {}).map (·.2)) →
      Header.included [] headers = headers.flatMap (·.declarations) := by
  have hguard : ({} : HeaderOptions).guard ≠ .pragmaOnce := by decide
  have hstems : ((neighbours.perClass {}).map (·.1)).Pairwise (¬ LookAlike · ·) := by
    decide +kernel
  obtain ⟨-, -, htogether, -⟩ := class_guards_clash_iff_stems_look_alike neighbours {} hguard
  exact ⟨hguard, by decide +kernel, htogether hstems⟩

def namesakes : Extraction where
  classes := ["a.b", "a_b"]
  methods := [voidMethod "a.b" "f", voidMethod "a_b" "g"]
  skipped := []

theorem header_of_namesake_is_passed_over :
    (namesakes.perClass {}).map (fun document => (document.1, document.2.guard)) =
      [("a.b", .named "_Included_a_b"), ("a_b", .named "_Included_a_b")] ∧
    ¬ ((namesakes.perClass {}).map (·.2.guard)).Nodup ∧
    (Header.included [] ((namesakes.perClass {}).map (·.2))).map (·.symbol) = ["Java_a_b_f"] ∧
    ((namesakes.merged {}).declarations).map (·.symbol) = ["Java_a_b_f", "Java_a_1b_g"] := by
  decide +kernel

end JniHeaders
