import JniHeaders.ClassInfo
import JniHeaders.Proofs.DescriptorTexts
import JniHeaders.Proofs.SymbolIdentity

/-!
A symbol from the text of a class file. A class name and the parameters of a descriptor can be
written into a symbol as they stand, character by character, with slashes for separators. This gives
the same symbol as dotted names and types that were read, although neither is looked at.
-/

namespace JniHeaders.Symbol

open Descriptor

def plainChar (c : Char) : List Char := if c = '/' then ['_'] else escapeChar c

def plainText (text : String) : String := String.ofList (text.toList.flatMap plainChar)

def IsParameterText (text : List Char) : Prop :=
  ∃ parameters : List (List Char),
    (∀ parameter ∈ parameters, IsFieldText parameter) ∧ text = parameters.flatten

theorem isParameterText_iff (text : List Char) :
    IsParameterText text ↔ ∃ types : List JavaType,
      (∀ type ∈ types, type.Spelled) ∧ types.flatMap JavaType.text = text := by
  constructor
  · rintro ⟨parameters, hparameters, rfl⟩
    obtain ⟨types, hspelled, rfl⟩ := (isFieldText_all_iff parameters).mp hparameters
    exact ⟨types, hspelled, List.flatMap_def⟩
  · rintro ⟨types, hspelled, rfl⟩
    exact ⟨_, (isFieldText_all_iff _).mpr ⟨types, hspelled, rfl⟩, List.flatMap_def⟩

theorem mangleChar_qualified {c : Char} (h : c ≠ '.') :
    mangleChar (if c = '/' then '.' else c) = plainChar c := by
  by_cases hslash : c = '/'
  · simp [hslash, mangleChar, plainChar]
  · simp [hslash, h, mangleChar, plainChar]

theorem mangleText_qualifiedName {internal : String} (h : '.' ∉ internal.toList) :
    mangleText (qualifiedName internal) = internal.toList.flatMap plainChar := by
  rw [mangleText, qualifiedName, String.toList_ofList, List.flatMap_map]
  exact List.flatMap_congr fun c hc => mangleChar_qualified (ne_of_mem_of_not_mem hc h)

theorem descriptorGlyph_text (c : Char) : (descriptorGlyph c).text = plainChar c := by
  by_cases hslash : c = '/'
  · simp [hslash, descriptorGlyph, plainChar, Glyph.text]
  · simp [hslash, descriptorGlyph, plainChar, Glyph.text]

theorem parameterText_eq {types : List JavaType} (h : ∀ type ∈ types, type.Spelled) :
    parameterText types = (types.flatMap JavaType.text).flatMap plainChar := by
  rw [parameterText_eq_glyphText h, glyphText, parameterGlyphs, List.flatMap_map]
  exact List.flatMap_congr fun c _ => descriptorGlyph_text c

theorem parameters_of_parse {text parameters result : String} {sig : MethodSignature}
    (hparse : MethodSignature.parse text = .ok sig)
    (htext : text = "(" ++ parameters ++ ")" ++ result)
    (hparameters : IsParameterText parameters.toList) :
    (∀ type ∈ sig.parameters, type.Spelled) ∧
      sig.parameters.flatMap JavaType.text = parameters.toList := by
  obtain ⟨hwell, hencode⟩ := (MethodSignature.parse_eq_ok_iff text sig).mp hparse
  have hspelled := ((MethodSignature.wellFormed_iff sig).mp hwell).1
  obtain ⟨types, htypes, hflat⟩ := (isParameterText_iff _).mp hparameters
  have hsame : sig.parameters.flatMap JavaType.text ++ ')' :: sig.result.text =
      types.flatMap JavaType.text ++ ')' :: result.toList := by
    have hlists := congrArg String.toList (hencode.trans htext)
    simpa [MethodSignature.encode, MethodSignature.text, hflat] using hlists
  have hread := parameters_text hspelled.parameters sig.result.text
  rw [hsame, parameters_text htypes] at hread
  obtain ⟨rfl, -⟩ := Prod.mk.inj (Except.ok.inj hread)
  exact ⟨hspelled.parameters, hflat⟩

theorem exists_parameterText {text : String} {sig : MethodSignature}
    (hparse : MethodSignature.parse text = .ok sig) :
    ∃ parameters result : String, text = "(" ++ parameters ++ ")" ++ result ∧
      IsParameterText parameters.toList := by
  obtain ⟨hwell, rfl⟩ := (MethodSignature.parse_eq_ok_iff text sig).mp hparse
  have hspelled := ((MethodSignature.wellFormed_iff sig).mp hwell).1
  refine ⟨String.ofList (sig.parameters.flatMap JavaType.text), sig.result.encode, ?_, ?_⟩
  · apply String.toList_inj.mp
    simp [MethodSignature.encode, MethodSignature.text, JavaType.encode]
  · rw [String.toList_ofList, isParameterText_iff]
    exact ⟨sig.parameters, hspelled.parameters, rfl⟩

theorem short_of_text {internal : String} (h : '.' ∉ internal.toList) (method : String) :
    shortName (qualifiedName internal) method =
      "Java_" ++ plainText internal ++ "_" ++ escape method := by
  apply String.toList_inj.mp
  simp [shortName, shortText, mangleText_qualifiedName h, plainText, escape]

theorem long_of_text (className method : String) {parameters : String} {types : List JavaType}
    (hspelled : ∀ type ∈ types, type.Spelled)
    (htext : types.flatMap JavaType.text = parameters.toList) :
    longName className method types =
      shortName className method ++ "__" ++ plainText parameters := by
  apply String.toList_inj.mp
  simp [longName, longText, shortName, parameterText_eq hspelled, htext, plainText]

/-- The symbols of a method are its class name, its name and the text of its parameters, escaped as
they stand in the class file. That text is there in every descriptor that is read. A class name in a
class file has no dot (`dot_not_mem`), which is all that is asked of it. -/
theorem symbols_are_escaped_text {internal text : String} (method : String)
    {sig : MethodSignature} (hname : '.' ∉ internal.toList)
    (hparse : MethodSignature.parse text = .ok sig) :
    (∃ parameters result : String, text = "(" ++ parameters ++ ")" ++ result ∧
      IsParameterText parameters.toList) ∧
    ∀ parameters result : String, text = "(" ++ parameters ++ ")" ++ result →
      IsParameterText parameters.toList →
        (mangle (qualifiedName internal) method sig.parameters).short =
          "Java_" ++ plainText internal ++ "_" ++ escape method ∧
        (mangle (qualifiedName internal) method sig.parameters).long =
          (mangle (qualifiedName internal) method sig.parameters).short ++ "__" ++
            plainText parameters := by
  refine ⟨exists_parameterText hparse, fun parameters result htext hparameters => ?_⟩
  obtain ⟨hspelled, hflat⟩ := parameters_of_parse hparse htext hparameters
  exact ⟨short_of_text hname method, long_of_text _ method hspelled hflat⟩

theorem parenthesis_is_escaped :
    '.' ∉ "a/b_c/D$E".toList ∧
    IsParameterText "[La/b);I".toList ∧
    (∃ sig, MethodSignature.parse "([La/b);I)V" = .ok sig ∧
      (mangle (qualifiedName "a/b_c/D$E") "m_1" sig.parameters).short =
        "Java_" ++ plainText "a/b_c/D$E" ++ "_" ++ escape "m_1" ∧
      (mangle (qualifiedName "a/b_c/D$E") "m_1" sig.parameters).long =
        (mangle (qualifiedName "a/b_c/D$E") "m_1" sig.parameters).short ++ "__" ++
          plainText "[La/b);I") ∧
    plainText "[La/b);I" = "_3La_b_00029_2I" := by
  have hname : '.' ∉ "a/b_c/D$E".toList := dot_not_mem (by decide)
  have hparse : MethodSignature.parse "([La/b);I)V" =
      .ok ⟨[.array 1 (.object "a.b)"), .primitive .int], .primitive .void⟩ :=
    (MethodSignature.parse_eq_ok_iff _ _).mpr
      ⟨(MethodSignature.wellFormed_iff _).mpr ⟨⟨by decide, Or.inl rfl⟩, by decide⟩, by decide⟩
  have hparameters : IsParameterText "[La/b);I".toList :=
    (isParameterText_iff _).mpr
      ⟨[.array 1 (.object "a.b)"), .primitive .int], by decide, by decide⟩
  obtain ⟨-, hsymbols⟩ := symbols_are_escaped_text "m_1" hname hparse
  have hsymbol := hsymbols "[La/b);I" "V" (by decide) hparameters
  exact ⟨hname, hparameters, ⟨_, hparse, hsymbol⟩, by decide⟩

end JniHeaders.Symbol
