import JniHeaders.Proofs.DescriptorGrammar

/-!
The grammar of descriptors on texts alone, without the types that are read from them. A name has
slashes here, as it has in a class file, and dimensions have no bound. A text belongs to the grammar
exactly if it is the descriptor of a type or of a method signature.
-/

namespace JniHeaders

namespace Descriptor

/-- Segments with a character, a single slash between two of them. -/
def IsNameText (name : List Char) : Prop :=
  ∀ segment ∈ name.splitOn '/', segment ≠ [] ∧ ∀ c ∈ segment, isUnqualified c

instance (name : List Char) : Decidable (IsNameText name) :=
  decidable_of_iff
    ((name.splitOn '/').all fun segment => !segment.isEmpty && segment.all isUnqualified)
    (by simp [IsNameText])

inductive IsFieldText : List Char → Prop where
  | primitive {c} : c ∈ ['B', 'C', 'D', 'F', 'I', 'J', 'S', 'Z'] → IsFieldText [c]
  | object {name} : IsNameText name → IsFieldText ('L' :: name ++ [';'])
  | array {element} : IsFieldText element → IsFieldText ('[' :: element)

def IsReturnText (text : List Char) : Prop := text = ['V'] ∨ IsFieldText text

def TypeSentence (types : List (List Char)) (text : List Char) : Prop :=
  types = [text] ∧ IsReturnText text

/-- A descriptor of a method, and the types in it: the parameters in order, then the result. -/
def SignatureSentence (types : List (List Char)) (text : List Char) : Prop :=
  ∃ parameters result, types = parameters ++ [result] ∧
    (∀ parameter ∈ parameters, IsFieldText parameter) ∧ IsReturnText result ∧
    text = '(' :: parameters.flatten ++ ')' :: result

def brackets (text : List Char) : Nat := (text.takeWhile (· = '[')).length

def swapped (c : Char) : Char := if c = '/' then '.' else if c = '.' then '/' else c

theorem swapped_swapped (c : Char) : swapped (swapped c) = c := by
  unfold swapped
  by_cases hslash : c = '/'
  · simp [hslash]
  · by_cases hdot : c = '.'
    · simp [hdot]
    · simp [hslash, hdot]

theorem swapped_eq_iff (c d : Char) : swapped c = d ↔ c = swapped d :=
  ⟨fun h => h ▸ (swapped_swapped c).symm, fun h => h ▸ swapped_swapped d⟩

theorem isUnqualified_swapped (c : Char) : isUnqualified (swapped c) = isUnqualified c := by
  unfold swapped
  by_cases hslash : c = '/'
  · subst hslash
    rfl
  · by_cases hdot : c = '.'
    · subst hdot
      rfl
    · simp [hslash, hdot]

theorem splitOn_map_swapped (text : List Char) :
    (text.map swapped).splitOn '.' = (text.splitOn '/').map (List.map swapped) := by
  induction text with
  | nil => rfl
  | cons c text ih =>
    obtain ⟨first, others, hsplit⟩ := List.exists_cons_of_ne_nil (List.splitOn_ne_nil '/' text)
    rw [List.map_cons, List.splitOn_cons_eq_if_modifyHead, List.splitOn_cons_eq_if_modifyHead, ih,
      hsplit]
    by_cases hslash : c = '/'
    · simp [hslash, swapped]
    · have hdot : swapped c ≠ '.' := fun heq => hslash ((swapped_eq_iff c '.').mp heq)
      simp [hslash, hdot]

/-- A name with slashes is a name with dots, once they change places. -/
theorem isNameText_iff (name : List Char) :
    IsNameText name ↔ LegalName (String.ofList (name.map swapped)) := by
  unfold IsNameText LegalName segments
  rw [String.toList_ofList, splitOn_map_swapped]
  simp [isUnqualified_swapped]

theorem map_swapped_swapped (text : List Char) : (text.map swapped).map swapped = text := by
  have hback : swapped ∘ swapped = id := funext swapped_swapped
  rw [List.map_map, hback, List.map_id]

theorem map_slashed {text : List Char} (h : '/' ∉ text) : text.map slashed = text.map swapped := by
  refine List.map_congr_left fun c hc => ?_
  have hc : c ≠ '/' := ne_of_mem_of_not_mem hc h
  simp [slashed, swapped, hc]

theorem slashed_eq_swapped {name : String} (h : LegalName name) :
    name.toList.map slashed = name.toList.map swapped :=
  map_slashed (slash_not_mem ((legalName_iff_segmented name).mp h))

theorem isNameText_slashed {name : String} (h : LegalName name) :
    IsNameText (name.toList.map slashed) := by
  rwa [slashed_eq_swapped h, isNameText_iff, map_swapped_swapped, String.ofList_toList]

theorem dot_not_mem {name : List Char} (h : IsNameText name) : '.' ∉ name := by
  rw [isNameText_iff, legalName_iff_segmented, String.toList_ofList] at h
  intro hdot
  exact slash_not_mem h (List.mem_map_of_mem hdot)

theorem exists_legalName {text : List Char} (h : IsNameText text) :
    ∃ name, LegalName name ∧ name.toList.map slashed = text := by
  have hlegal := (isNameText_iff text).mp h
  refine ⟨_, hlegal, ?_⟩
  rw [slashed_eq_swapped hlegal, String.toList_ofList, map_swapped_swapped]

theorem isFieldText_brackets {element : List Char} (h : IsFieldText element) (n : Nat) :
    IsFieldText (List.replicate n '[' ++ element) := by
  induction n with
  | zero => exact h
  | succ n ih => exact .array ih

theorem exists_kind {c : Char} (h : c ∈ ['B', 'C', 'D', 'F', 'I', 'J', 'S', 'Z']) :
    ∃ kind : Primitive, kind.code = c ∧ kind ≠ .void := by
  have hcodes : (['B', 'C', 'D', 'F', 'I', 'J', 'S', 'Z'].all fun c =>
      (Primitive.ofCode? c).any (· ≠ .void)) = true := by
    decide
  obtain ⟨kind, hfound, hkind⟩ := (Option.any_eq_true _ _).mp (List.all_eq_true.mp hcodes c h)
  exact ⟨kind, code_of_ofCode? hfound, of_decide_eq_true hkind⟩

theorem isFieldText_iff (text : List Char) :
    IsFieldText text ↔ ∃ type : JavaType, type.Spelled ∧ type.text = text := by
  constructor
  · intro h
    induction h with
    | @primitive c hc =>
      obtain ⟨kind, hcode, hkind⟩ := exists_kind hc
      exact ⟨.primitive kind, hkind, congrArg ([·]) hcode⟩
    | object hname =>
      obtain ⟨name, hlegal, rfl⟩ := exists_legalName hname
      exact ⟨.object name, hlegal, object_text name⟩
    | array _ ih =>
      obtain ⟨element, helement, rfl⟩ := ih
      exact ⟨element.nest, JavaType.spelled_nest helement, JavaType.nest_text element⟩
  · rintro ⟨type, hspelled, rfl⟩
    induction type with
    | primitive kind =>
      cases kind <;> first | exact absurd rfl hspelled | exact .primitive (by decide)
    | object name => exact .object (isNameText_slashed hspelled)
    | array dimensions element ih => exact isFieldText_brackets (ih hspelled.2.2) dimensions

theorem isReturnText_iff (text : List Char) :
    IsReturnText text ↔ ∃ type : JavaType, type.SpelledResult ∧ type.text = text := by
  unfold IsReturnText JavaType.SpelledResult
  rw [isFieldText_iff]
  constructor
  · rintro (rfl | ⟨type, hspelled, rfl⟩)
    · exact ⟨.primitive .void, Or.inl rfl, rfl⟩
    · exact ⟨type, Or.inr hspelled, rfl⟩
  · rintro ⟨type, rfl | hspelled, rfl⟩
    · exact Or.inl rfl
    · exact Or.inr ⟨type, hspelled, rfl⟩

theorem isFieldText_all_iff (texts : List (List Char)) :
    (∀ text ∈ texts, IsFieldText text) ↔
      ∃ types : List JavaType,
        (∀ type ∈ types, type.Spelled) ∧ types.map JavaType.text = texts := by
  constructor
  · intro h
    induction texts with
    | nil => exact ⟨[], by simp, rfl⟩
    | cons text texts ih =>
      obtain ⟨htext, htexts⟩ := List.forall_mem_cons.mp h
      obtain ⟨type, hspelled, rfl⟩ := (isFieldText_iff text).mp htext
      obtain ⟨types, hall, rfl⟩ := ih htexts
      exact ⟨type :: types, List.forall_mem_cons.mpr ⟨hspelled, hall⟩, rfl⟩
  · rintro ⟨types, hall, rfl⟩
    simp only [List.forall_mem_map]
    exact fun type hmem => (isFieldText_iff _).mpr ⟨type, hall type hmem, rfl⟩

theorem typeSentence_iff (types : List (List Char)) (text : List Char) :
    TypeSentence types text ↔ ∃ type : JavaType, type.SpelledResult ∧
      types = [type].map JavaType.text ∧ type.text = text := by
  unfold TypeSentence
  rw [isReturnText_iff]
  constructor
  · rintro ⟨rfl, type, hspelled, rfl⟩
    exact ⟨type, hspelled, rfl, rfl⟩
  · rintro ⟨type, hspelled, rfl, rfl⟩
    exact ⟨rfl, type, hspelled, rfl⟩

theorem signatureSentence_iff (types : List (List Char)) (text : List Char) :
    SignatureSentence types text ↔ ∃ sig : MethodSignature, sig.Spelled ∧
      types = (sig.parameters ++ [sig.result]).map JavaType.text ∧ sig.text = text := by
  constructor
  · rintro ⟨texts, resultText, rfl, hparameters, hresult, rfl⟩
    obtain ⟨parameters, hspelled, rfl⟩ := (isFieldText_all_iff texts).mp hparameters
    obtain ⟨result, hresultSpelled, rfl⟩ := (isReturnText_iff resultText).mp hresult
    refine ⟨⟨parameters, result⟩, ⟨hspelled, hresultSpelled⟩, by simp, ?_⟩
    simp [MethodSignature.text, List.flatMap_def]
  · rintro ⟨sig, hspelled, rfl, rfl⟩
    refine ⟨sig.parameters.map JavaType.text, sig.result.text, by simp, ?_, ?_, ?_⟩
    · exact (isFieldText_all_iff _).mpr ⟨sig.parameters, hspelled.parameters, rfl⟩
    · exact (isReturnText_iff _).mpr ⟨sig.result, hspelled.result, rfl⟩
    · rw [MethodSignature.text, List.flatMap_def]

theorem takeWhile_bracket {element : JavaType} (h : element.isArray = false) :
    element.text.takeWhile (· = '[') = [] := by
  cases element with
  | primitive kind => cases kind <;> rfl
  | object name => simp [JavaType.text]
  | array dimensions element => simp [JavaType.isArray] at h

theorem brackets_array (n : Nat) (element : JavaType) (h : element.isArray = false) :
    brackets (List.replicate n '[' ++ element.text) = n := by
  unfold brackets
  rw [List.takeWhile_append_of_pos (by simp), takeWhile_bracket h]
  simp

theorem brackets_text {type : JavaType} (h : type.SpelledResult) :
    brackets type.text = type.dimensions := by
  rcases h with rfl | hspelled
  · rfl
  · cases type with
    | primitive kind => exact brackets_array 0 (.primitive kind) rfl
    | object name => exact brackets_array 0 (.object name) rfl
    | array dimensions element => exact brackets_array dimensions element hspelled.2.1

end Descriptor

end JniHeaders
