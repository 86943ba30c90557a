import JniHeaders.Proofs.CommittedReading
import Mathlib.Logic.ExistsUnique

/-!
Why a text is refused. No descriptor begins another, and a reader that stops has read as much of a
text as any descriptor shares with it: it runs out of characters exactly where more could complete
the text, and meets a wrong one exactly where nothing could. So what is told of a text is how it
stands to the grammar. Dimensions are counted only once the whole text is a descriptor.
-/

namespace JniHeaders

namespace Descriptor

def Accepts {α : Type} (read : List Char → Except Stop (α × List Char)) (word : List Char) : Prop :=
  ∃ value, read word = .ok (value, [])

/-- How a text stands to a language in which no word begins another: it is a word, goes on after
one, begins one, or has left them all. -/
inductive Standing where
  | word
  | goesOn (rest : List Char)
  | begins
  | strays
  deriving DecidableEq, Repr

namespace Standing

def Holds (IsWord : List Char → Prop) (text : List Char) : Standing → Prop
  | word => IsWord text
  | goesOn rest => rest ≠ [] ∧ ∃ word, IsWord word ∧ word ++ rest = text
  | begins => ∃ rest, rest ≠ [] ∧ IsWord (text ++ rest)
  | strays => (∀ word rest, IsWord word → word ++ rest ≠ text) ∧ ∀ rest, ¬ IsWord (text ++ rest)

def ofReading {α : Type} : Except Stop (α × List Char) → Standing
  | .ok (_, []) => word
  | .ok (_, c :: rest) => goesOn (c :: rest)
  | .error .endOfInput => begins
  | .error .unexpected => strays

variable {α : Type} {read : List Char → Except Stop (α × List Char)} {text : List Char}

theorem ofReading_ok {value : α} {rest : List Char} (h : rest ≠ []) :
    ofReading (.ok (value, rest)) = goesOn rest := by
  cases rest with
  | nil => exact absurd rfl h
  | cons c rest => rfl

theorem eq_endOfInput {result : Except Stop (α × List Char)} (h : ofReading result = begins) :
    result = .error .endOfInput := by
  match result with
  | .ok (_, []) | .ok (_, _ :: _) | .error .unexpected => cases h
  | .error .endOfInput => rfl

theorem eq_unexpected {result : Except Stop (α × List Char)} (h : ofReading result = strays) :
    result = .error .unexpected := by
  match result with
  | .ok (_, []) | .ok (_, _ :: _) | .error .endOfInput => cases h
  | .error .unexpected => rfl

variable (hread : Committed read)
  (htaken : ∀ {text value rest}, read text = .ok (value, rest) →
    ∃ word, read word = .ok (value, []) ∧ word ++ rest = text)
include hread htaken

theorem eq_ofReading_of_holds {standing : Standing} (h : standing.Holds (Accepts read) text) :
    standing = ofReading (read text) := by
  cases standing with
  | word =>
    obtain ⟨value, hword⟩ := h
    rw [hword]
    rfl
  | goesOn rest =>
    obtain ⟨hrest, word, ⟨value, hword⟩, rfl⟩ := h
    rw [hread.goes_on hword rest, List.nil_append, ofReading_ok hrest]
  | begins =>
    obtain ⟨rest, hrest, value, hword⟩ := h
    match htext : read text with
    | .ok (_, last) =>
      -- What is read of the text would be read of the word, which is longer.
      have hlonger := (hread.goes_on htext rest).symm.trans hword
      simp [hrest] at hlonger
    | .error .endOfInput => rfl
    | .error .unexpected => cases hword.symm.trans (hread.stays htext rest)
  | strays =>
    obtain ⟨hends, hgoesOn⟩ := h
    match htext : read text with
    | .ok (value, last) =>
      obtain ⟨word, hword, heq⟩ := htaken htext
      exact absurd heq (hends word last ⟨value, hword⟩)
    | .error .endOfInput =>
      obtain ⟨more, hmore⟩ := hread.completes htext
      exact absurd hmore (hgoesOn more)
    | .error .unexpected => rfl

theorem holds_ofReading : (ofReading (read text)).Holds (Accepts read) text := by
  match htext : read text with
  | .ok (value, []) => exact ⟨value, htext⟩
  | .ok (value, c :: rest) =>
    obtain ⟨word, hword, heq⟩ := htaken htext
    exact ⟨List.cons_ne_nil c rest, word, ⟨value, hword⟩, heq⟩
  | .error .endOfInput =>
    obtain ⟨more, value, hmore⟩ := hread.completes htext
    refine ⟨more, ?_, value, hmore⟩
    rintro rfl
    rw [List.append_nil, htext] at hmore
    cases hmore
  | .error .unexpected =>
    constructor
    · rintro word rest ⟨value, hword⟩ rfl
      cases htext.symm.trans (hread.goes_on hword rest)
    · rintro rest ⟨value, hword⟩
      cases hword.symm.trans (hread.stays htext rest)

theorem holds_iff (standing : Standing) :
    standing.Holds (Accepts read) text ↔ standing = ofReading (read text) :=
  ⟨eq_ofReading_of_holds hread htaken, fun h => h ▸ holds_ofReading hread htaken⟩

end Standing

def readBounded {α : Type} (read : List Char → Except Stop (α × List Char))
    (types : α → List JavaType) (text : String) : Except DescriptorError α :=
  match complete read text with
  | .error cause => .error cause
  | .ok value =>
    match excess? (types value) with
    | some count => .error (.dimensions count text)
    | none => .ok value

theorem typeParse_eq (text : String) :
    JavaType.parse text = readBounded returnType (fun type => [type]) text := by
  unfold JavaType.parse readBounded
  cases complete returnType text <;> rfl

theorem signatureParse_eq (text : String) :
    MethodSignature.parse text =
      readBounded signature (fun sig => sig.parameters ++ [sig.result]) text := by
  unfold MethodSignature.parse readBounded
  cases complete signature text <;> rfl

def IsSentence (Sentence : List (List Char) → List Char → Prop) (text : List Char) : Prop :=
  ∃ types, Sentence types text

/-- What a parser tells of a text: how it stands to the sentences of a language and, of a sentence,
the first type in it that has too many dimensions. -/
structure Explains {α : Type} (Sentence : List (List Char) → List Char → Prop)
    (parse : String → Except DescriptorError α) (text : String) : Prop where
  one_standing : ∃! standing : Standing,
    standing.Holds (IsSentence Sentence) text.toList
  bounded : ∀ types, Sentence types text.toList → (∀ type ∈ types, brackets type ≤ 255) →
    ∃ value, parse text = .ok value
  excessive : ∀ types before type after, Sentence types text.toList →
    types = before ++ type :: after → (∀ earlier ∈ before, brackets earlier ≤ 255) →
    255 < brackets type →
    (parse text).mapError DescriptorError.message =
      .error ("'" ++ text ++ "': array has " ++ toString (brackets type) ++
        " dimensions, at most 255 are allowed")
  goesOn : ∀ rest,
    (Standing.goesOn rest).Holds (IsSentence Sentence) text.toList →
    (parse text).mapError DescriptorError.message =
      .error ("trailing input '" ++ String.ofList rest ++ "' while parsing '" ++ text ++ "'")
  begins : Standing.begins.Holds (IsSentence Sentence) text.toList →
    (parse text).mapError DescriptorError.message =
      .error ("'" ++ text ++ "': unexpected end of input")
  strays : Standing.strays.Holds (IsSentence Sentence) text.toList →
    (parse text).mapError DescriptorError.message = .error ("'" ++ text ++ "': unexpected parse")

theorem message_dimensions (count : Nat) (text : String) :
    (DescriptorError.dimensions count text).message =
      "'" ++ text ++ "': array has " ++ toString count ++
        " dimensions, at most 255 are allowed" := by
  have hmax : toString maxDimensions = "255" := by decide
  have htail : " dimensions, at most " ++ ("255" ++ " are allowed") =
      " dimensions, at most 255 are allowed" := by decide
  -- The equations of the function are slow to make, so it is unfolded.
  unfold DescriptorError.message
  dsimp only
  rw [hmax]
  generalize "'" ++ text ++ "': array has " ++ toString count = opening
  rw [String.append_assoc, String.append_assoc, htail]

theorem excess?_of_first {before after : List JavaType} {type : JavaType}
    (hbefore : ∀ earlier ∈ before, earlier.dimensions ≤ maxDimensions)
    (htype : maxDimensions < type.dimensions) :
    excess? (before ++ type :: after) = some type.dimensions := by
  induction before with
  | nil =>
    cases type with
    | primitive | object => cases htype
    | array dimensions element => exact if_pos htype
  | cons earlier before ih =>
    obtain ⟨hearlier, hothers⟩ := List.forall_mem_cons.mp hbefore
    rw [List.cons_append]
    cases earlier with
    | primitive | object => exact ih hothers
    | array dimensions element => exact (if_neg (Nat.not_lt_of_le hearlier)).trans (ih hothers)

section

variable {α : Type} {read : List Char → Except Stop (α × List Char)} {types : α → List JavaType}
  {text : String} {value : α} {rest : List Char}

theorem readBounded_of_word (h : read text.toList = .ok (value, [])) :
    readBounded read types text =
      match excess? (types value) with
      | some count => .error (.dimensions count text)
      | none => .ok value := by
  simp [readBounded, complete, h]

theorem readBounded_of_rest (h : read text.toList = .ok (value, rest)) (hrest : rest ≠ []) :
    readBounded read types text = .error (.trailing (String.ofList rest) text) := by
  cases rest with
  | nil => exact absurd rfl hrest
  | cons c rest => simp [readBounded, complete, h]

theorem readBounded_of_stop {stop : Stop} (h : read text.toList = .error stop) :
    readBounded read types text = .error (.stopped stop text) := by
  simp [readBounded, complete, h]

end

section

variable {α : Type} {Sentence : List (List Char) → List Char → Prop}
  {read : List Char → Except Stop (α × List Char)} {types : α → List JavaType}

theorem explains (hread : Committed read)
    (htaken : ∀ {text value rest}, read text = .ok (value, rest) →
      ∃ word, read word = .ok (value, []) ∧ word ++ rest = text)
    (hsentence : ∀ texts text, Sentence texts text ↔
      ∃ value, read text = .ok (value, []) ∧ texts = (types value).map JavaType.text)
    (hspelled : ∀ {text value}, read text = .ok (value, []) →
      ∀ type ∈ types value, type.SpelledResult) (text : String) :
    Explains Sentence (readBounded read types) text := by
  have hwords : IsSentence Sentence = Accepts read := by
    funext word
    simp only [IsSentence, hsentence, Accepts, eq_iff_iff]
    constructor
    · rintro ⟨texts, value, hvalue, -⟩
      exact ⟨value, hvalue⟩
    · rintro ⟨value, hvalue⟩
      exact ⟨_, value, hvalue, rfl⟩
  have hiff := @Standing.holds_iff α read text.toList hread htaken
  constructor
  case one_standing =>
    rw [hwords]
    exact ⟨_, (hiff _).mpr rfl, fun other h => (hiff other).mp h⟩
  case bounded =>
    intro texts htexts hbounded
    obtain ⟨value, hvalue, rfl⟩ := (hsentence _ _).mp htexts
    refine ⟨value, ?_⟩
    rw [readBounded_of_word hvalue, (excess?_eq_none_iff _).mpr]
    intro type hmem
    rw [← brackets_text (hspelled hvalue type hmem)]
    exact hbounded _ (List.mem_map_of_mem hmem)
  case excessive =>
    intro texts before type after htexts hsplit hbefore htype
    obtain ⟨value, hvalue, rfl⟩ := (hsentence _ _).mp htexts
    obtain ⟨earlier, rest, hvalues, rfl, hrest⟩ := List.map_eq_append_iff.mp hsplit
    obtain ⟨excessive, later, rfl, rfl, rfl⟩ := List.map_eq_cons_iff.mp hrest
    have hall := hspelled hvalue
    rw [hvalues] at hall
    simp only [List.forall_mem_append, List.forall_mem_cons] at hall
    rw [brackets_text hall.2.1] at htype ⊢
    have hexcess : excess? (types value) = some excessive.dimensions := by
      rw [hvalues]
      refine excess?_of_first (fun first hmem => ?_) htype
      rw [← brackets_text (hall.1 first hmem)]
      exact hbefore _ (List.mem_map_of_mem hmem)
    rw [readBounded_of_word hvalue, hexcess, ← message_dimensions]
    rfl
  case goesOn =>
    rintro rest hrest
    rw [hwords] at hrest
    obtain ⟨hnonempty, word, ⟨value, hword⟩, heq⟩ := hrest
    have hvalue := hread.goes_on hword rest
    rw [heq] at hvalue
    rw [readBounded_of_rest hvalue hnonempty]
    rfl
  case begins =>
    intro h
    rw [hwords, hiff] at h
    rw [readBounded_of_stop (Standing.eq_endOfInput h.symm)]
    rfl
  case strays =>
    intro h
    rw [hwords, hiff] at h
    rw [readBounded_of_stop (Standing.eq_unexpected h.symm)]
    rfl

end

end Descriptor

open Descriptor

theorem JavaType.explains_text (text : String) : Explains TypeSentence JavaType.parse text := by
  have hparse : JavaType.parse = readBounded returnType (fun type => [type]) :=
    funext typeParse_eq
  rw [hparse]
  apply explains returnType_committed
  · intro text type rest h
    obtain ⟨hspelled, rfl⟩ := returnType_sound h
    exact ⟨type.text, by simpa using returnType_text hspelled [], rfl⟩
  · intro texts text
    rw [typeSentence_iff]
    constructor
    · rintro ⟨type, hspelled, htexts, rfl⟩
      exact ⟨type, by simpa using returnType_text hspelled [], htexts⟩
    · rintro ⟨type, hvalue, htexts⟩
      obtain ⟨hspelled, htext⟩ := returnType_sound hvalue
      exact ⟨type, hspelled, htexts, by simpa using htext.symm⟩
  · intro text type h other hmem
    rw [List.mem_singleton.mp hmem]
    exact (returnType_sound h).1

theorem MethodSignature.explains_text (text : String) :
    Explains SignatureSentence MethodSignature.parse text := by
  have hparse : MethodSignature.parse =
      readBounded signature (fun sig => sig.parameters ++ [sig.result]) :=
    funext signatureParse_eq
  rw [hparse]
  apply explains signature_committed
  · intro text sig rest h
    obtain ⟨hspelled, rfl⟩ := signature_sound h
    exact ⟨sig.text, by simpa using signature_text hspelled [], rfl⟩
  · intro texts text
    rw [signatureSentence_iff]
    constructor
    · rintro ⟨sig, hspelled, htexts, rfl⟩
      exact ⟨sig, by simpa using signature_text hspelled [], htexts⟩
    · rintro ⟨sig, hvalue, htexts⟩
      obtain ⟨hspelled, htext⟩ := signature_sound hvalue
      exact ⟨sig, hspelled, htexts, by simpa using htext.symm⟩
  · intro text sig h type hmem
    obtain ⟨hspelled, -⟩ := signature_sound h
    rcases List.mem_append.mp hmem with hparameter | hresult
    · exact Or.inr (hspelled.parameters type hparameter)
    · rw [List.mem_singleton.mp hresult]
      exact hspelled.result

/-- Of every text it is told whether it is a descriptor, goes on after one, could still become one,
or neither, and of a descriptor whether one of its types has too many dimensions, and how many. -/
theorem every_refusal_is_explained (text : String) :
    Explains SignatureSentence MethodSignature.parse text ∧
      Explains TypeSentence JavaType.parse text :=
  ⟨MethodSignature.explains_text text, JavaType.explains_text text⟩

example : JavaType.parse "La/" = .error (.stopped .endOfInput "La/") := by rfl

example : JavaType.parse "[V" = .error (.stopped .unexpected "[V") := by rfl

end JniHeaders
