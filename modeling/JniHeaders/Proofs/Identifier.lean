import JniHeaders.Proofs.DottedName
import JniHeaders.Symbol

/-!
Identifiers of C. Every symbol is one, whatever the class, the method and the types are called.
-/

namespace JniHeaders

theorem not_mem_of_forall {p : Char → Bool} {text : List Char} (h : ∀ c ∈ text, p c) {c : Char}
    (hc : p c = false) : c ∉ text := by
  intro hmem
  rw [h c hmem] at hc
  cases hc

def isIdentifierChar (c : Char) : Bool := c.isAlphanum || c = '_'

/-- No digit comes first. -/
structure IsIdentifier (name : String) : Prop where
  segment : SegmentOf (fun c => c.isAlpha || c = '_') isIdentifierChar name.toList

instance (name : String) : Decidable (IsIdentifier name) :=
  match h : name.toList with
  | [] => isFalse fun hname => by
    have hsegment := hname.segment
    rw [h] at hsegment
    exact hsegment
  | c :: rest => decidable_of_iff
      ((c.isAlpha || c = '_') = true ∧ rest.all isIdentifierChar = true)
      ⟨fun hchars => ⟨h ▸ ⟨hchars.1, List.all_eq_true.mp hchars.2⟩⟩, fun hname => by
        have hsegment := hname.segment
        rw [h] at hsegment
        exact ⟨hsegment.1, List.all_eq_true.mpr hsegment.2⟩⟩

theorem IsIdentifier.isIdentifierChar_of_mem {name : String} (h : IsIdentifier name) :
    ∀ c ∈ name.toList, isIdentifierChar c := by
  have hsegment := h.segment
  cases htext : name.toList with
  | nil => simp
  | cons first rest =>
    rw [htext] at hsegment
    obtain ⟨hfirst, hrest⟩ := hsegment
    refine List.forall_mem_cons.mpr ⟨?_, hrest⟩
    have hopening : first.isAlpha ∨ first = '_' := by simpa using hfirst
    rcases hopening with halpha | hunderscore
    · simp [isIdentifierChar, Char.isAlphanum, halpha]
    · simp [isIdentifierChar, hunderscore]

theorem isIdentifier_ofList {text : List Char} {first : Char} (hfirst : text.head? = some first)
    (hdigit : first.isDigit = false) (h : ∀ c ∈ text, isIdentifierChar c) :
    IsIdentifier (String.ofList text) := by
  obtain ⟨rest, rfl⟩ := List.head?_eq_some_iff.mp hfirst
  obtain ⟨hchar, hrest⟩ := List.forall_mem_cons.mp h
  constructor
  rw [String.toList_ofList]
  refine ⟨?_, hrest⟩
  simpa [isIdentifierChar, Char.isAlphanum, hdigit] using hchar

namespace Symbol

theorem isIdentifierChar_digitChar : ∀ n < 16, isIdentifierChar n.digitChar := by decide

theorem isIdentifierChar_hexDigits4 (n : Nat) : ∀ c ∈ hexDigits4 n, isIdentifierChar c := by
  intro c hc
  obtain ⟨digit, hdigit, rfl⟩ := List.mem_map.mp hc
  apply isIdentifierChar_digitChar
  simp only [List.mem_cons, List.not_mem_nil, or_false] at hdigit
  omega

theorem isIdentifierChar_escapeChar (c : Char) : ∀ d ∈ escapeChar c, isIdentifierChar d := by
  unfold escapeChar
  split
  · exact List.all_eq_true.mp rfl
  · split
    · exact List.all_eq_true.mp rfl
    · split
      · exact List.all_eq_true.mp rfl
      · split
        · rename_i halphanum
          simp [isIdentifierChar, halphanum]
        · simp only [List.forall_mem_flatMap, List.forall_mem_cons]
          intro unit _
          exact ⟨rfl, rfl, isIdentifierChar_hexDigits4 unit⟩

theorem isIdentifierChar_escapeText (s : String) : ∀ c ∈ escapeText s, isIdentifierChar c :=
  List.forall_mem_flatMap.mpr fun c _ => isIdentifierChar_escapeChar c

theorem isIdentifierChar_mangleText (s : String) : ∀ c ∈ mangleText s, isIdentifierChar c := by
  refine List.forall_mem_flatMap.mpr fun c _ => ?_
  unfold mangleChar
  split
  · exact List.all_eq_true.mp rfl
  · exact isIdentifierChar_escapeChar c

theorem isIdentifierChar_typeText (type : JavaType) :
    ∀ c ∈ typeText type, isIdentifierChar c := by
  induction type with
  | primitive kind => cases kind <;> exact List.all_eq_true.mp rfl
  | object name =>
    have hend : ∀ c ∈ ['_', '2'], isIdentifierChar c := List.all_eq_true.mp rfl
    refine List.forall_mem_append.mpr ⟨?_, hend⟩
    exact List.forall_mem_cons.mpr ⟨rfl, isIdentifierChar_mangleText name⟩
  | array dimensions element ih =>
    have hbracket : ∀ c ∈ ['_', '3'], isIdentifierChar c := List.all_eq_true.mp rfl
    refine List.forall_mem_append.mpr ⟨?_, ih⟩
    intro c hc
    obtain ⟨bracket, hmem, hc⟩ := List.mem_flatten.mp hc
    rw [List.eq_of_mem_replicate hmem] at hc
    exact hbracket c hc

theorem isIdentifierChar_shortText (className methodName : String) :
    ∀ c ∈ shortText className methodName, isIdentifierChar c := by
  have hopening : ∀ c ∈ "Java_".toList, isIdentifierChar c := List.all_eq_true.mp rfl
  have hclass : ∀ c ∈ "Java_".toList ++ mangleText className, isIdentifierChar c :=
    List.forall_mem_append.mpr ⟨hopening, isIdentifierChar_mangleText className⟩
  have hmethod : ∀ c ∈ '_' :: escapeText methodName, isIdentifierChar c :=
    List.forall_mem_cons.mpr ⟨rfl, isIdentifierChar_escapeText methodName⟩
  exact List.forall_mem_append.mpr ⟨hclass, hmethod⟩

theorem isIdentifierChar_longText (className methodName : String) (types : List JavaType) :
    ∀ c ∈ longText className methodName types, isIdentifierChar c := by
  have htypes : ∀ c ∈ parameterText types, isIdentifierChar c :=
    List.forall_mem_flatMap.mpr fun type _ => isIdentifierChar_typeText type
  have hgap : ∀ c ∈ '_' :: '_' :: parameterText types, isIdentifierChar c :=
    List.forall_mem_cons.mpr ⟨rfl, List.forall_mem_cons.mpr ⟨rfl, htypes⟩⟩
  exact List.forall_mem_append.mpr ⟨isIdentifierChar_shortText className methodName, hgap⟩

theorem isIdentifier_shortName (className methodName : String) :
    IsIdentifier (shortName className methodName) :=
  isIdentifier_ofList rfl (by decide) (isIdentifierChar_shortText className methodName)

theorem isIdentifier_longName (className methodName : String) (types : List JavaType) :
    IsIdentifier (longName className methodName types) :=
  isIdentifier_ofList rfl (by decide) (isIdentifierChar_longText className methodName types)

end Symbol

end JniHeaders
