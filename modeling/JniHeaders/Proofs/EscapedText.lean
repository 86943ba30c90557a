import JniHeaders.Proofs.Identifier
import JniHeaders.Proofs.SymbolIdentity

/-!
Escaped text read back. A text has no separators, so its escape spells letters only, and these can
be told apart whatever they are: an escape in the text is itself escaped, and a character beyond the
basic plane is two code units that no other character has. Escapes and symbols hold the characters
of identifiers and no others.
-/

namespace JniHeaders.Symbol

def Glyph.letter? : Glyph → Option Char
  | separator => none
  | letter c => some c

/-- Reads an escaped text. A bare underscore is not part of one. -/
def unescape (text : String) : Option String :=
  ((readGlyphs text.toList).mapM Glyph.letter?).map String.ofList

/-- A code unit in lowercase hexadecimal digits, always four of them. -/
def EscapedUnit (unit : Nat) (text : List Char) : Prop :=
  ∃ digits, text = '_' :: '0' :: digits ∧ digits.length = 4 ∧
    (∀ digit ∈ digits, digit ∈ "0123456789abcdef".toList) ∧ hexValue digits = unit

structure SurrogatePair (c : Char) (high low : Nat) : Prop where
  high_range : 0xD800 ≤ high ∧ high < 0xDC00
  low_range : 0xDC00 ≤ low ∧ low < 0xE000
  value : c.toNat = 0x10000 + (high - 0xD800) * 0x400 + (low - 0xDC00)

theorem letters_precede (text : List Char) : (letters text).IsChain Glyph.Precedes := by
  have hjoins := letters_joins text List.isChain_nil
  rw [List.append_nil] at hjoins
  exact hjoins.imp fun _ _ => precedes_of_joins

theorem readGlyphs_escapeText (s : String) : readGlyphs (escapeText s) = letters s.toList := by
  rw [escapeText, ← glyphText_letters]
  exact readGlyphs_glyphText (letters_precede s.toList)

theorem mapM_letter?_letters (text : List Char) :
    (letters text).mapM Glyph.letter? = some text := by
  induction text with
  | nil => rfl
  | cons c text ih =>
    rw [letters, List.map_cons, List.mapM_cons]
    rw [letters] at ih
    rw [ih]
    rfl

theorem unescape_escape (s : String) : unescape (escape s) = some s := by
  rw [unescape, escape, String.toList_ofList, readGlyphs_escapeText, mapM_letter?_letters,
    Option.map_some, String.ofList_toList]

theorem digitChar_lowercase : ∀ n < 16, n.digitChar ∈ "0123456789abcdef".toList := by decide

theorem escapedUnit_hexDigits4 {unit : Nat} (h : unit < 0x10000) :
    EscapedUnit unit ('_' :: '0' :: hexDigits4 unit) := by
  refine ⟨hexDigits4 unit, rfl, rfl, ?_, hexValue_hexDigits4 h⟩
  intro digit hdigit
  obtain ⟨n, hn, rfl⟩ := List.mem_map.mp hdigit
  apply digitChar_lowercase
  simp only [List.mem_cons, List.not_mem_nil, or_false] at hn
  omega

theorem exists_surrogatePair {c : Char} (h : 0x10000 ≤ c.toNat) :
    ∃ high low, SurrogatePair c high low ∧ utf16Units c = [high, low] := by
  have hc := toNat_lt c
  refine ⟨0xD800 + (c.toNat - 0x10000) / 0x400, 0xDC00 + (c.toNat - 0x10000) % 0x400, ?_, ?_⟩
  · constructor <;> omega
  · rw [utf16Units, if_neg (Nat.not_lt.mpr h)]

theorem escapeChar_of_rare {c : Char} (h : 0x10000 ≤ c.toNat) :
    escapeChar c = (utf16Units c).flatMap fun unit => '_' :: '0' :: hexDigits4 unit := by
  have hother : ∀ d : Char, d.toNat < 0x10000 → c ≠ d := by
    rintro d hd rfl
    omega
  have halphanum : ¬ c.isAlphanum := by
    intro halphanum
    obtain ⟨high, low, -, hunits⟩ := exists_surrogatePair h
    rw [utf16Units_alphanum halphanum] at hunits
    cases hunits
  rw [escapeChar, if_neg (hother '_' (by decide)), if_neg (hother ';' (by decide)),
    if_neg (hother '[' (by decide)), if_neg halphanum]

theorem escape_singleton (c : Char) : (escape (String.singleton c)).toList = escapeChar c := by
  simp [escape, escapeText]

theorem exists_escapedUnits {c : Char} (h : 0x10000 ≤ c.toNat) :
    ∃ high low first second, SurrogatePair c high low ∧ EscapedUnit high first ∧
      EscapedUnit low second ∧ (escape (String.singleton c)).toList = first ++ second := by
  obtain ⟨high, low, hpair, hunits⟩ := exists_surrogatePair h
  have hsmall : high < 0x10000 ∧ low < 0x10000 := by
    obtain ⟨hhigh, hlow, -⟩ := hpair
    omega
  refine ⟨high, low, _, _, hpair, escapedUnit_hexDigits4 hsmall.1,
    escapedUnit_hexDigits4 hsmall.2, ?_⟩
  rw [escape_singleton, escapeChar_of_rare h, hunits]
  simp

theorem shortText_opening (className methodName : String) :
    "Java_".toList <+: shortText className methodName := by
  rw [shortText_eq_glyphText]
  exact List.prefix_append _ _

theorem shortName_opening (className methodName : String) :
    "Java_".toList <+: (shortName className methodName).toList := by
  have htext : (shortName className methodName).toList = shortText className methodName :=
    String.toList_ofList
  rw [htext]
  exact shortText_opening className methodName

theorem longName_opening (className methodName : String) (types : List JavaType) :
    "Java_".toList <+: (longName className methodName types).toList := by
  have htext : (longName className methodName types).toList =
      shortText className methodName ++ '_' :: '_' :: parameterText types := String.toList_ofList
  rw [htext]
  exact (shortText_opening className methodName).trans (List.prefix_append _ _)

/-- A text can be told from its escape, whatever it is, and neither an escape nor a symbol has a
character that an identifier could not have. -/
theorem escapes_are_read_back_and_symbols_are_plain :
    (∀ s, unescape (escape s) = some s ∧ ∀ c ∈ (escape s).toList, isIdentifierChar c) ∧
    (∀ c : Char, 0x10000 ≤ c.toNat →
      ∃ high low first second, SurrogatePair c high low ∧ EscapedUnit high first ∧
        EscapedUnit low second ∧ (escape (String.singleton c)).toList = first ++ second) ∧
    ∀ className methodName types,
      ∀ name ∈ [(mangle className methodName types).short,
          (mangle className methodName types).long],
        "Java_".toList <+: name.toList ∧ ∀ c ∈ name.toList, isIdentifierChar c := by
  refine ⟨fun s => ⟨unescape_escape s, ?_⟩, fun c => exists_escapedUnits, ?_⟩
  · rw [escape, String.toList_ofList]
    exact isIdentifierChar_escapeText s
  · intro className methodName types name hname
    simp only [List.mem_cons, List.not_mem_nil, or_false] at hname
    rcases hname with rfl | rfl
    · exact ⟨shortName_opening className methodName,
        (isIdentifier_shortName className methodName).isIdentifierChar_of_mem⟩
    · exact ⟨longName_opening className methodName types,
        (isIdentifier_longName className methodName types).isIdentifierChar_of_mem⟩

/-- The spelling of the first half of a musical clef, then the clef itself. -/
def clefText : String := "_0d834" ++ String.singleton (Char.ofNat 0x1D11E)

theorem clef_is_told_from_spelling_of_its_half :
    escape clefText = "_10d834_0d834_0dd1e" ∧ unescape (escape clefText) = some clefText ∧
    0x10000 ≤ (Char.ofNat 0x1D11E).toNat ∧
    ∃ high low first second, SurrogatePair (Char.ofNat 0x1D11E) high low ∧
      EscapedUnit high first ∧ EscapedUnit low second ∧
      (escape (String.singleton (Char.ofNat 0x1D11E))).toList = first ++ second := by
  obtain ⟨hread, hpair, -⟩ := escapes_are_read_back_and_symbols_are_plain
  have hrare : 0x10000 ≤ (Char.ofNat 0x1D11E).toNat := by decide
  exact ⟨by decide, (hread clefText).1, hrare, hpair _ hrare⟩

end JniHeaders.Symbol
