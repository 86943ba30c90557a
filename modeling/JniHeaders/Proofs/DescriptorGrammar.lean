import JniHeaders.Proofs.DottedName

/-!
Reading a descriptor and writing one are inverse to each other on the well-formed types, and
nothing else is read. Every reader is related to the text of what it returns, with an arbitrary
rest, so that readers compose; the bound on dimensions comes last, as it does in reading.
-/

namespace JniHeaders

open Descriptor

namespace JavaType

def isArray : JavaType → Bool
  | array _ _ => true
  | _ => false

def dimensions : JavaType → Nat
  | array dimensions _ => dimensions
  | _ => 0

/-- A type other than void that has a descriptor, if dimensions had no bound. -/
def Spelled : JavaType → Prop
  | primitive kind => kind ≠ .void
  | object name => LegalName name
  | array dimensions element => 0 < dimensions ∧ element.isArray = false ∧ element.Spelled

def SpelledResult (type : JavaType) : Prop := type = primitive .void ∨ type.Spelled

structure WellFormed (type : JavaType) : Prop where
  spelled : type.Spelled
  bounded : type.dimensions ≤ maxDimensions

def WellFormedResult (type : JavaType) : Prop := type = primitive .void ∨ type.WellFormed

instance decidableSpelled : (type : JavaType) → Decidable type.Spelled
  | primitive kind => inferInstanceAs (Decidable (kind ≠ .void))
  | object name => inferInstanceAs (Decidable (LegalName name))
  | array dimensions element =>
    have := element.decidableSpelled
    inferInstanceAs (Decidable (0 < dimensions ∧ element.isArray = false ∧ element.Spelled))

end JavaType

namespace MethodSignature

structure Spelled (signature : MethodSignature) : Prop where
  parameters : ∀ type ∈ signature.parameters, type.Spelled
  result : signature.result.SpelledResult

structure WellFormed (signature : MethodSignature) : Prop where
  parameters : ∀ type ∈ signature.parameters, type.WellFormed
  result : signature.result.WellFormedResult

end MethodSignature

namespace Descriptor

def slashed (c : Char) : Char := if c = '.' then '/' else c

theorem slashed_of_unqualified {c : Char} (h : isUnqualified c) : slashed c = c := by
  have hdot : c ≠ '.' := by
    rintro rfl
    exact absurd h (by decide)
  simp [slashed, hdot]

theorem slash_not_mem {fresh : Bool} {name : List Char}
    (h : Segmented isUnqualified isUnqualified fresh name) : '/' ∉ name := by
  intro hslash
  rcases h.dot_or_holds hslash with hdot | hunqualified
  · cases hdot
  · exact absurd hunqualified (by decide)

theorem className_text {fresh : Bool} {name : List Char}
    (h : Segmented isUnqualified isUnqualified fresh name) (rest : List Char) :
    className fresh (name.map slashed ++ ';' :: rest) = .ok (name, rest) := by
  induction name generalizing fresh with
  | nil =>
    obtain rfl : fresh = false := h
    simp [className, isUnqualified]
  | cons c name ih =>
    rcases h.uncons with ⟨rfl, rfl, htail⟩ | ⟨-, hc, htail⟩
    · simp [className, isUnqualified, slashed, ih htail]
    · have hc : isUnqualified c := by simpa using hc
      simp [className, slashed_of_unqualified hc, hc, ih htail]

theorem className_sound {fresh : Bool} {input name rest : List Char}
    (h : className fresh input = .ok (name, rest)) :
    Segmented isUnqualified isUnqualified fresh name ∧
      input = name.map slashed ++ ';' :: rest := by
  induction input generalizing fresh name with
  | nil => simp [className] at h
  | cons c tail ih =>
    unfold className at h
    split at h
    · rename_i hc
      split at h
      · rename_i found
        cases h
        obtain ⟨hname, rfl⟩ := ih found
        have hdot : c ≠ '.' := by
          rintro rfl
          exact absurd hc (by decide)
        exact ⟨by simp [Segmented, hdot, hc, hname], by simp [slashed_of_unqualified hc]⟩
      · cases h
    · split at h
      · cases h
      · rename_i hfresh
        split at h
        · rename_i hslash
          split at h
          · rename_i found
            cases h
            obtain ⟨hname, rfl⟩ := ih found
            exact ⟨by simpa [Segmented, hname] using hfresh, by simp [hslash, slashed]⟩
          · cases h
        · split at h
          · rename_i hend
            cases h
            exact ⟨by simpa [Segmented] using hfresh, by simp [hend]⟩
          · cases h

end Descriptor

namespace JavaType

theorem nested_of_not_array {element : JavaType} (h : element.isArray = false) (n : Nat) :
    element.nested (n + 1) = array (n + 1) element := by
  induction n with
  | zero =>
    cases element with
    | array => simp [isArray] at h
    | primitive | object => rfl
  | succ n ih =>
    rw [nested, ih]
    rfl

theorem nest_text (type : JavaType) : type.nest.text = '[' :: type.text := by
  cases type <;> simp [nest, text, List.replicate_succ]

theorem spelled_nest {type : JavaType} (h : type.Spelled) : type.nest.Spelled := by
  cases type with
  | array dimensions element => exact ⟨Nat.succ_pos _, h.2⟩
  | primitive | object => exact ⟨Nat.one_pos, rfl, h⟩

end JavaType

namespace Descriptor

theorem object_text (name : String) :
    (JavaType.object name).text = 'L' :: name.toList.map slashed ++ [';'] := rfl

theorem fieldType_brackets (n : Nat) {input rest : List Char} {element : JavaType}
    (h : fieldType input = .ok (element, rest)) :
    fieldType (List.replicate n '[' ++ input) = .ok (element.nested n, rest) := by
  induction n with
  | zero => exact h
  | succ n ih => simp [List.replicate_succ, fieldType, ih, JavaType.nested]

theorem fieldType_text {type : JavaType} (h : type.Spelled) (rest : List Char) :
    fieldType (type.text ++ rest) = .ok (type, rest) := by
  induction type with
  | primitive kind => cases kind <;> first | exact absurd rfl h | rfl
  | object name =>
    have hname := className_text ((legalName_iff_segmented name).mp h) rest
    simp [object_text, fieldType, hname]
  | array dimensions element ih =>
    obtain ⟨hpos, helement, hspelled⟩ := h
    obtain ⟨n, rfl⟩ := Nat.exists_eq_add_one_of_ne_zero (Nat.ne_of_gt hpos)
    rw [JavaType.text, List.append_assoc, fieldType_brackets _ (ih hspelled),
      JavaType.nested_of_not_array helement]

theorem code_of_ofCode? {c : Char} {kind : Primitive} (h : Primitive.ofCode? c = some kind) :
    kind.code = c := by
  unfold Primitive.ofCode? at h
  split at h <;> cases h <;> rfl

theorem fieldType_sound {input rest : List Char} {type : JavaType}
    (h : fieldType input = .ok (type, rest)) :
    type.Spelled ∧ input = type.text ++ rest := by
  induction input generalizing type with
  | nil => simp [fieldType] at h
  | cons c tail ih =>
    unfold fieldType at h
    split at h
    · rename_i hbracket
      split at h
      · rename_i found
        cases h
        obtain ⟨helement, rfl⟩ := ih found
        exact ⟨JavaType.spelled_nest helement, by simp [JavaType.nest_text, hbracket]⟩
      · cases h
    · split at h
      · rename_i hobject
        split at h
        · rename_i name _ found
          cases h
          obtain ⟨hname, rfl⟩ := className_sound found
          refine ⟨(legalName_iff_segmented _).mpr (by simpa using hname), ?_⟩
          simp [object_text, hobject]
        · cases h
      · split at h
        · cases h
        · cases h
        · rename_i kind hvoid found
          cases h
          exact ⟨hvoid, by simp [JavaType.text, code_of_ofCode? found]⟩

theorem text_head {type : JavaType} (h : type.Spelled) :
    ∃ c rest, type.text = c :: rest ∧ c ≠ ')' ∧ c ≠ 'V' := by
  cases type with
  | primitive kind => cases kind <;> first | exact absurd rfl h | exact ⟨_, _, rfl, by decide⟩
  | object name => exact ⟨'L', _, rfl, by decide⟩
  | array dimensions element =>
    obtain ⟨n, rfl⟩ := Nat.exists_eq_add_one_of_ne_zero (Nat.ne_of_gt h.1)
    exact ⟨'[', List.replicate n '[' ++ element.text, by simp [JavaType.text, List.replicate_succ],
      by decide⟩

theorem parameters_text {types : List JavaType} (h : ∀ type ∈ types, type.Spelled)
    (rest : List Char) :
    parameters (types.flatMap JavaType.text ++ ')' :: rest) = .ok (types, rest) := by
  induction types with
  | nil =>
    rw [parameters]
    simp
  | cons type types ih =>
    obtain ⟨hfirst, hothers⟩ := List.forall_mem_cons.mp h
    obtain ⟨c, tail, htext, hc, -⟩ := text_head hfirst
    have hread := fieldType_text hfirst (types.flatMap JavaType.text ++ ')' :: rest)
    rw [parameters, List.flatMap_cons, List.append_assoc, if_neg (by simp [htext, hc])]
    split
    · rename_i found
      rw [hread] at found
      cases found
    · rename_i found
      rw [hread] at found
      cases found
      rw [ih hothers]

theorem parameters_sound {input rest : List Char} {types : List JavaType}
    (h : parameters input = .ok (types, rest)) :
    (∀ type ∈ types, type.Spelled) ∧ input = types.flatMap JavaType.text ++ ')' :: rest := by
  induction input using parameters.induct generalizing types with
  | case1 input hend =>
    rw [parameters, if_pos hend] at h
    cases h
    obtain ⟨tail, rfl⟩ := List.head?_eq_some_iff.mp hend
    simp
  | case2 input hend stop found =>
    rw [parameters, if_neg hend] at h
    split at h
    · cases h
    · rename_i read
      cases found.symm.trans read
  | case3 input hend first tail found stop read =>
    rw [parameters, if_neg hend] at h
    split at h
    · cases h
    · rename_i found'
      cases found.symm.trans found'
      simp [read] at h
  | case4 input hend first tail found others last read ih =>
    rw [parameters, if_neg hend] at h
    split at h
    · cases h
    · rename_i found'
      cases found.symm.trans found'
      rw [read] at h
      cases h
      obtain ⟨hfirst, rfl⟩ := fieldType_sound found
      obtain ⟨hothers, rfl⟩ := ih read
      exact ⟨List.forall_mem_cons.mpr ⟨hfirst, hothers⟩, by simp⟩

theorem returnType_text {type : JavaType} (h : type.SpelledResult) (rest : List Char) :
    returnType (type.text ++ rest) = .ok (type, rest) := by
  rcases h with rfl | h
  · rfl
  · obtain ⟨c, tail, htext, -, hc⟩ := text_head h
    have hread := fieldType_text h rest
    rw [htext] at hread ⊢
    unfold returnType
    split
    · rename_i heq
      exact absurd (List.cons.inj heq).1 hc
    · exact hread

theorem returnType_sound {input rest : List Char} {type : JavaType}
    (h : returnType input = .ok (type, rest)) :
    type.SpelledResult ∧ input = type.text ++ rest := by
  unfold returnType at h
  split at h
  · cases h
    exact ⟨Or.inl rfl, rfl⟩
  · obtain ⟨htype, hinput⟩ := fieldType_sound h
    exact ⟨Or.inr htype, hinput⟩

theorem signature_text {sig : MethodSignature} (h : sig.Spelled) (rest : List Char) :
    signature (sig.text ++ rest) = .ok (sig, rest) := by
  have hparameters := parameters_text h.parameters (sig.result.text ++ rest)
  simp only [MethodSignature.text, List.cons_append, List.append_assoc, signature, if_true]
  simp only [hparameters, returnType_text h.result]

theorem signature_sound {input rest : List Char} {sig : MethodSignature}
    (h : signature input = .ok (sig, rest)) :
    sig.Spelled ∧ input = sig.text ++ rest := by
  cases input with
  | nil => simp [signature] at h
  | cons c tail =>
    simp only [signature] at h
    split at h
    · rename_i hopen
      split at h
      · cases h
      · rename_i readParameters
        split at h
        · cases h
        · rename_i readResult
          cases h
          obtain ⟨hparameters, rfl⟩ := parameters_sound readParameters
          obtain ⟨hresult, rfl⟩ := returnType_sound readResult
          exact ⟨⟨hparameters, hresult⟩, by simp [MethodSignature.text, hopen]⟩
    · cases h

/-- A reader that takes exactly the texts of some values reads a whole text if it is one. -/
theorem complete_eq_ok_iff {α : Type} {read : List Char → Except Stop (α × List Char)}
    {Written : α → Prop} {write : α → List Char}
    (hwrite : ∀ value, Written value → ∀ rest, read (write value ++ rest) = .ok (value, rest))
    (hread : ∀ input value rest, read input = .ok (value, rest) →
      Written value ∧ input = write value ++ rest) (text : String) (value : α) :
    complete read text = .ok value ↔ Written value ∧ String.ofList (write value) = text := by
  have hcomplete : complete read text = .ok value ↔ read text.toList = .ok (value, []) := by
    unfold complete
    split <;> simp_all
  rw [hcomplete]
  constructor
  · intro h
    obtain ⟨hvalue, htext⟩ := hread _ _ _ h
    refine ⟨hvalue, ?_⟩
    rw [← List.append_nil (write value), ← htext, String.ofList_toList]
  · rintro ⟨hvalue, rfl⟩
    simpa using hwrite value hvalue []

theorem excess?_eq_none_iff (types : List JavaType) :
    excess? types = none ↔ ∀ type ∈ types, type.dimensions ≤ maxDimensions := by
  induction types with
  | nil => simp [excess?]
  | cons type types ih =>
    cases type with
    | array dimensions element =>
      rw [excess?, List.forall_mem_cons, ← ih]
      by_cases h : maxDimensions < dimensions
      · simp [JavaType.dimensions, h, Nat.not_le_of_gt h]
      · simp [JavaType.dimensions, h, Nat.le_of_not_lt h]
    | primitive | object => simp [excess?, JavaType.dimensions, ih]

end Descriptor

theorem JavaType.wellFormedResult_iff (type : JavaType) :
    type.WellFormedResult ↔ type.SpelledResult ∧ type.dimensions ≤ maxDimensions := by
  constructor
  · rintro (rfl | ⟨hspelled, hbounded⟩)
    · exact ⟨Or.inl rfl, Nat.zero_le _⟩
    · exact ⟨Or.inr hspelled, hbounded⟩
  · rintro ⟨hvoid | hspelled, hbounded⟩
    · exact Or.inl hvoid
    · exact Or.inr ⟨hspelled, hbounded⟩

theorem MethodSignature.wellFormed_iff (sig : MethodSignature) :
    sig.WellFormed ↔ sig.Spelled ∧
      ∀ type ∈ sig.parameters ++ [sig.result], type.dimensions ≤ maxDimensions := by
  constructor
  · intro h
    obtain ⟨hresult, hbound⟩ := sig.result.wellFormedResult_iff.mp h.result
    refine ⟨⟨fun type ht => (h.parameters type ht).spelled, hresult⟩, ?_⟩
    simpa [or_imp, forall_and, hbound] using fun type ht => (h.parameters type ht).bounded
  · rintro ⟨hspelled, hbound⟩
    refine ⟨fun type ht => ⟨hspelled.parameters type ht, hbound type (by simp [ht])⟩, ?_⟩
    exact sig.result.wellFormedResult_iff.mpr ⟨hspelled.result, hbound _ (by simp)⟩

theorem JavaType.parse_eq_ok_iff_complete (text : String) (type : JavaType) :
    JavaType.parse text = .ok type ↔
      complete returnType text = .ok type ∧ excess? [type] = none := by
  unfold JavaType.parse
  cases complete returnType text with
  | error cause => simp
  | ok found => cases h : excess? [found] <;> grind

theorem MethodSignature.parse_eq_ok_iff_complete (text : String) (sig : MethodSignature) :
    MethodSignature.parse text = .ok sig ↔
      complete signature text = .ok sig ∧ excess? (sig.parameters ++ [sig.result]) = none := by
  unfold MethodSignature.parse
  cases complete signature text with
  | error cause => simp
  | ok found => cases h : excess? (found.parameters ++ [found.result]) <;> grind

theorem JavaType.parse_eq_ok_iff (text : String) (type : JavaType) :
    JavaType.parse text = .ok type ↔ type.WellFormedResult ∧ type.encode = text := by
  rw [parse_eq_ok_iff_complete, complete_eq_ok_iff (fun _ => returnType_text)
    (fun _ _ _ => returnType_sound), excess?_eq_none_iff, wellFormedResult_iff, encode]
  simp [and_right_comm]

theorem MethodSignature.parse_eq_ok_iff (text : String) (sig : MethodSignature) :
    MethodSignature.parse text = .ok sig ↔ sig.WellFormed ∧ sig.encode = text := by
  rw [parse_eq_ok_iff_complete, complete_eq_ok_iff (fun _ => signature_text)
    (fun _ _ _ => signature_sound), excess?_eq_none_iff, wellFormed_iff, encode, and_right_comm]

/-- What is read from a text is well formed and has this text, and every well-formed type or
signature is read from its text. -/
theorem descriptors_read_exactly_what_is_written (text : String) :
    (∀ sig, MethodSignature.parse text = .ok sig ↔ sig.WellFormed ∧ sig.encode = text) ∧
    (∀ type, JavaType.parse text = .ok type ↔ type.WellFormedResult ∧ type.encode = text) :=
  ⟨MethodSignature.parse_eq_ok_iff text, JavaType.parse_eq_ok_iff text⟩

end JniHeaders
