import JniHeaders.Proofs.RepeatedDeclarations
import Mathlib.Data.List.Nodup

/-!
What the headers of single classes declare. Methods are collected under the stems of their classes,
each stem at the place where it is first met; repeats are dropped under each stem on its own. The
declarations of a header are those that the header for the whole batch has of its classes.
-/

namespace JniHeaders

theorem eraseDups_concat_of_mem {met : List String} {stem : String} (hmem : stem ∈ met) :
    (met ++ [stem]).eraseDups = met.eraseDups := by
  rw [List.eraseDups_append]
  simp [List.removeAll, hmem]

theorem eraseDups_concat_of_not_mem {met : List String} {stem : String} (hnew : stem ∉ met) :
    (met ++ [stem]).eraseDups = met.eraseDups ++ [stem] := by
  rw [List.eraseDups_append]
  simp [List.removeAll, hnew, List.eraseDups_cons]

theorem getElem?_concat_eq_some_iff {list : List String} {last other : String} {place : Nat} :
    (list ++ [last])[place]? = some other ↔
      list[place]? = some other ∨ place = list.length ∧ last = other := by
  rcases Nat.lt_trichotomy place list.length with hlt | heq | hgt
  · simp [List.getElem?_append_left hlt, Nat.ne_of_lt hlt]
  · simp [heq]
  · have hend : (list ++ [last]).length ≤ place := by rw [List.length_append]; exact hgt
    simp [List.getElem?_eq_none hend, List.getElem?_eq_none (Nat.le_of_lt hgt), Nat.ne_of_gt hgt]

/-- The stems that were met have their places in the order of their first occurrence, and the
methods are under their stems. -/
structure Grouping.Collects (grouping : Grouping) (met : List String)
    (methods : List NativeMethod) : Prop where
  groups : grouping.groups = met.eraseDups.map fun stem =>
    (stem, methods.filter (headerStem ·.className = stem))
  places : ∀ stem place, grouping.places.lookup stem = some place ↔
    met.eraseDups[place]? = some stem

namespace Grouping.Collects

variable {grouping : Grouping} {met : List String} {methods : List NativeMethod}

theorem empty : Grouping.empty.Collects [] [] where
  groups := rfl
  places stem place := by simp [Grouping.empty]

theorem lookup_eq_none_iff (h : grouping.Collects met methods) (stem : String) :
    grouping.places.lookup stem = none ↔ stem ∉ met := by
  rw [← List.mem_eraseDups, Option.eq_none_iff_forall_ne_some, List.mem_iff_getElem?,
    not_exists]
  exact forall_congr' fun place => not_congr (h.places stem place)

theorem nodup (h : grouping.Collects met methods) : met.eraseDups.Nodup := by
  rw [List.nodup_iff_getElem?_ne_getElem?]
  intro i j hij hj hsame
  have hstem : met.eraseDups[j]? = some met.eraseDups[j] := List.getElem?_eq_getElem hj
  have hfirst := (h.places _ i).mpr (hsame.trans hstem)
  have hsecond := (h.places _ j).mpr hstem
  have hplace : i = j := Option.some.inj (hfirst.symm.trans hsecond)
  omega

theorem addStem (h : grouping.Collects met []) (stem : String) :
    (grouping.addStem stem).Collects (met ++ [stem]) [] := by
  unfold Grouping.addStem
  cases hplace : grouping.places.lookup stem with
  | some place =>
    have hmem : stem ∈ met := by
      by_contra hnew
      rw [(h.lookup_eq_none_iff stem).mpr hnew] at hplace
      cases hplace
    constructor
    · rw [eraseDups_concat_of_mem hmem]
      exact h.groups
    · rw [eraseDups_concat_of_mem hmem]
      exact h.places
  | none =>
    have hnew := (h.lookup_eq_none_iff stem).mp hplace
    constructor
    · rw [eraseDups_concat_of_not_mem hnew]
      simp [h.groups]
    · intro other place
      have hlength : grouping.groups.length = met.eraseDups.length := by
        rw [h.groups, List.length_map]
      rw [eraseDups_concat_of_not_mem hnew, List.lookup_cons, getElem?_concat_eq_some_iff, hlength]
      by_cases hsame : other = stem
      · subst hsame
        have hold : met.eraseDups[place]? ≠ some other := fun heq =>
          hnew (List.mem_eraseDups.mp (List.mem_of_getElem? heq))
        simp [hold, eq_comm]
      · have hfresh : stem ≠ other := fun heq => hsame heq.symm
        simp [beq_false_of_ne hsame, hfresh, h.places]

theorem addMethod (h : grouping.Collects met methods) (method : NativeMethod) :
    (grouping.addMethod method).Collects met (methods ++ [method]) := by
  unfold Grouping.addMethod
  cases hplace : grouping.places.lookup (headerStem method.className) with
  | none =>
    have hnew := (h.lookup_eq_none_iff _).mp hplace
    refine ⟨?_, h.places⟩
    rw [h.groups]
    refine List.map_congr_left fun stem hstem => ?_
    have hother : headerStem method.className ≠ stem := by
      rintro rfl
      exact hnew (List.mem_eraseDups.mp hstem)
    simp [hother]
  | some place =>
    refine ⟨?_, h.places⟩
    apply List.ext_getElem?
    intro i
    rw [List.getElem?_modify, h.groups, List.getElem?_map, List.getElem?_map]
    cases hstem : met.eraseDups[i]? with
    | none => rfl
    | some stem =>
      by_cases hsame : headerStem method.className = stem
      · have hi : place = i := by
          rw [hsame, (h.places stem i).mpr hstem] at hplace
          exact (Option.some.inj hplace).symm
        simp [hi, hsame]
      · have hi : place ≠ i := by
          rintro rfl
          rw [(h.places _ place).mp hplace] at hstem
          exact hsame (Option.some.inj hstem)
        simp [hi, hsame]

theorem foldl_addStem (h : grouping.Collects met []) (stems : List String) :
    (stems.foldl .addStem grouping).Collects (met ++ stems) [] := by
  induction stems generalizing grouping met with
  | nil => rwa [List.append_nil]
  | cons stem stems ih =>
    have hrest := ih (h.addStem stem)
    rwa [List.append_assoc] at hrest

theorem foldl_addMethod (h : grouping.Collects met methods) (later : List NativeMethod) :
    (later.foldl .addMethod grouping).Collects met (methods ++ later) := by
  induction later generalizing grouping methods with
  | nil => rwa [List.append_nil]
  | cons method later ih =>
    have hrest := ih (h.addMethod method)
    rwa [List.append_assoc] at hrest

end Grouping.Collects

namespace Extraction

theorem grouping_collects (extraction : Extraction) :
    extraction.grouping.Collects (extraction.classNames.map headerStem) extraction.methods :=
  (Grouping.Collects.empty.foldl_addStem _).foldl_addMethod _

theorem perClass_eq (extraction : Extraction) (options : HeaderOptions) :
    extraction.perClass options =
      (extraction.classNames.map headerStem).eraseDups.map fun stem =>
        (stem, extraction.classHeader options stem
          (extraction.methods.filter (headerStem ·.className = stem))) := by
  unfold perClass
  rw [extraction.grouping_collects.groups, List.map_map]
  rfl

theorem perClass_stems (extraction : Extraction) (options : HeaderOptions) :
    (extraction.perClass options).map (·.1) =
      (extraction.classNames.map headerStem).eraseDups := by
  rw [perClass_eq, List.map_map]
  exact List.map_id _

theorem mem_perClass_iff {extraction : Extraction} {options : HeaderOptions} {stem : String}
    {header : Header} :
    (stem, header) ∈ extraction.perClass options ↔
      stem ∈ extraction.classNames.map headerStem ∧
        header = extraction.classHeader options stem
          (extraction.methods.filter (headerStem ·.className = stem)) := by
  rw [perClass_eq]
  constructor
  · intro h
    obtain ⟨_, hstem, heq⟩ := List.mem_map.mp h
    cases heq
    exact ⟨List.mem_eraseDups.mp hstem, rfl⟩
  · rintro ⟨hstem, rfl⟩
    exact List.mem_map.mpr ⟨stem, List.mem_eraseDups.mpr hstem, rfl⟩

theorem headerStem_mem_of_recorded {extraction : Extraction} {record : NativeMethod}
    (hrecord : record ∈ extraction.methods) :
    headerStem record.className ∈ extraction.classNames.map headerStem := by
  apply List.mem_map_of_mem
  exact List.mem_append_right _ (List.mem_map_of_mem hrecord)

/-- Repeats of a symbol are all under one stem, so it is the same to drop them there. -/
theorem declarations_of_stem {extraction : Extraction}
    (hclasses : ∀ a ∈ extraction.methods, ∀ b ∈ extraction.methods,
      a.symbol.long = b.symbol.long → a.className = b.className) (options : HeaderOptions)
    (stem : String) :
    extraction.declarations (extraction.methods.filter (headerStem ·.className = stem)) =
      (extraction.merged options).declarations.filter (headerStem ·.className = stem) := by
  have hstem : ∀ a ∈ extraction.methods, ∀ b ∈ extraction.methods,
      a.symbol.long = b.symbol.long →
        decide (headerStem a.className = stem) = decide (headerStem b.className = stem) := by
    intro a ha b hb hlong
    rw [hclasses a ha b hb hlong]
  unfold merged declarations
  rw [firsts_filter_of_long _ _ hstem, List.filter_map]
  rfl

end Extraction

/-- The headers of single classes have the declarations of the header for the whole batch between
them. -/
theorem class_headers_split_merged (extraction : Extraction)
    (hclasses : ∀ a ∈ extraction.methods, ∀ b ∈ extraction.methods,
      a.symbol.long = b.symbol.long → a.className = b.className) (options : HeaderOptions) :
    ((extraction.perClass options).map (·.1)).Nodup ∧
    (extraction.perClass options).map (·.1) =
      ((extraction.classes ++ extraction.methods.map (·.className)).map headerStem).eraseDups ∧
    (∀ stem header, (stem, header) ∈ extraction.perClass options →
      header.declarations =
        (extraction.merged options).declarations.filter (headerStem ·.className = stem)) ∧
    ∀ declaration ∈ (extraction.merged options).declarations,
      ∃! document, document ∈ extraction.perClass options ∧
        declaration ∈ document.2.declarations := by
  have hsplit : ∀ stem header, (stem, header) ∈ extraction.perClass options →
      header.declarations =
        (extraction.merged options).declarations.filter (headerStem ·.className = stem) := by
    intro stem header hmem
    obtain ⟨-, rfl⟩ := Extraction.mem_perClass_iff.mp hmem
    exact Extraction.declarations_of_stem hclasses options stem
  refine ⟨?_, extraction.perClass_stems options, hsplit, ?_⟩
  · rw [extraction.perClass_stems]
    exact extraction.grouping_collects.nodup
  · intro declaration hdeclaration
    obtain ⟨record, hkept, rfl⟩ := List.mem_map.mp hdeclaration
    obtain ⟨header, hmem⟩ : ∃ header,
        (headerStem record.className, header) ∈ extraction.perClass options :=
      ⟨_, Extraction.mem_perClass_iff.mpr
        ⟨Extraction.headerStem_mem_of_recorded (Extraction.mem_of_mem_firsts hkept).1, rfl⟩⟩
    refine ⟨_, ⟨hmem, ?_⟩, ?_⟩
    · rw [hsplit _ _ hmem]
      exact List.mem_filter.mpr ⟨hdeclaration, decide_eq_true rfl⟩
    · rintro ⟨stem, other⟩ ⟨hother, hdeclares⟩
      rw [hsplit stem other hother] at hdeclares
      have hstem : headerStem record.className = stem :=
        of_decide_eq_true (List.mem_filter.mp hdeclares).2
      subst hstem
      rw [(Extraction.mem_perClass_iff.mp hother).2, (Extraction.mem_perClass_iff.mp hmem).2]

def voidMethod (className methodName : String) : NativeMethod where
  className := className
  methodName := methodName
  signature := ⟨[], .primitive .void⟩
  descriptor := "()V"
  isStatic := false
  result := .void
  parameters := []
  symbol := Symbol.mangle className methodName []

/-- Two classes share a header, one has no native methods, and one was not visited itself. -/
def neighbours : Extraction where
  classes := ["a.Outer$Inner", "a.Plain", "a.Outer_Inner"]
  methods := [voidMethod "a.Outer$Inner" "one", voidMethod "b.Other" "one",
    voidMethod "a.Outer_Inner" "two", voidMethod "a.Outer$Inner" "one"]
  skipped := []

theorem neighbours_share_header :
    (∀ a ∈ neighbours.methods, ∀ b ∈ neighbours.methods,
      a.symbol.long = b.symbol.long → a.className = b.className) ∧
    (neighbours.perClass {}).map (fun document =>
        (document.1, document.2.declarations.map (·.symbol))) =
      [("a.Outer_Inner", ["Java_a_Outer_00024Inner_one", "Java_a_Outer_1Inner_two"]),
        ("a.Plain", []), ("b.Other", ["Java_b_Other_one"])] ∧
    ∀ declaration ∈ (neighbours.merged {}).declarations,
      ∃! document, document ∈ neighbours.perClass {} ∧
        declaration ∈ document.2.declarations := by
  have hclasses : ∀ a ∈ neighbours.methods, ∀ b ∈ neighbours.methods,
      a.symbol.long = b.symbol.long → a.className = b.className := by decide +kernel
  exact ⟨hclasses, by decide +kernel, (class_headers_split_merged neighbours hclasses {}).2.2.2⟩

end JniHeaders
