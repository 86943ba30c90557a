import JniHeaders.Proofs.DottedName
import JniHeaders.Symbol
import Mathlib.Data.List.Chain

/-!
Symbols read back. What a symbol spells is a list of separators and letters, where a letter may
be any character. It can be recovered as long as no separator stands before an escape digit:
first as code units, then with the two units of a rare character joined.
-/

namespace JniHeaders.Symbol

inductive Glyph where
  | separator
  | letter (c : Char)
  deriving DecidableEq, Repr

namespace Glyph

def text : Glyph → List Char
  | separator => ['_']
  | letter c => escapeChar c

/-- What may come next where the spelling is to be read back. -/
def Precedes : Glyph → Glyph → Prop
  | separator, letter c => isEscapeDigit c = false
  | _, _ => True

end Glyph

def glyphText (glyphs : List Glyph) : List Char := glyphs.flatMap Glyph.text

def hexDigitValue (c : Char) : Nat := if c.toNat < 58 then c.toNat - 48 else c.toNat - 87

def hexValue (digits : List Char) : Nat :=
  digits.foldl (fun value c => value * 16 + hexDigitValue c) 0

/-- The code units of a symbol. A separator has none. -/
def readUnits : List Char → List (Option Nat)
  | '_' :: '0' :: a :: b :: c :: d :: rest => some (hexValue [a, b, c, d]) :: readUnits rest
  | '_' :: '1' :: rest => some '_'.toNat :: readUnits rest
  | '_' :: '2' :: rest => some ';'.toNat :: readUnits rest
  | '_' :: '3' :: rest => some '['.toNat :: readUnits rest
  | '_' :: rest => none :: readUnits rest
  | c :: rest => some c.toNat :: readUnits rest
  | [] => []

/-- A unit between 0xD800 and 0xDC00 is the first half of a character. -/
def joinUnits : List (Option Nat) → List Glyph
  | some first :: some second :: rest =>
    if 0xD800 ≤ first ∧ first < 0xDC00 then
      .letter (Char.ofNat (0x10000 + (first - 0xD800) * 0x400 + (second - 0xDC00))) ::
        joinUnits rest
    else .letter (Char.ofNat first) :: joinUnits (some second :: rest)
  | some unit :: rest => .letter (Char.ofNat unit) :: joinUnits rest
  | none :: rest => .separator :: joinUnits rest
  | [] => []

def readGlyphs (text : List Char) : List Glyph := joinUnits (readUnits text)

theorem hexDigitValue_digitChar : ∀ n < 16, hexDigitValue n.digitChar = n := by decide

theorem hexValue_hexDigits4 {n : Nat} (h : n < 0x10000) : hexValue (hexDigits4 n) = n := by
  have hdigit (k : Nat) : hexDigitValue (k % 16).digitChar = k % 16 :=
    hexDigitValue_digitChar _ (Nat.mod_lt _ (by decide))
  simp only [hexValue, hexDigits4, List.map_cons, List.map_nil, List.foldl_cons, List.foldl_nil,
    hdigit]
  omega

theorem readUnits_hexDigits4 {n : Nat} (h : n < 0x10000) (rest : List Char) :
    readUnits ('_' :: '0' :: (hexDigits4 n ++ rest)) = some n :: readUnits rest := by
  have hvalue := hexValue_hexDigits4 h
  simp only [hexDigits4, List.map_cons, List.map_nil] at hvalue ⊢
  simp only [List.cons_append, List.nil_append]
  rw [readUnits, hvalue]

theorem toNat_lt (c : Char) : c.toNat < 0x110000 := by
  have hvalid := c.valid
  simp only [UInt32.isValidChar, Nat.isValidChar] at hvalid
  change c.val.toNat < _
  omega

theorem utf16Units_lt {c : Char} {unit : Nat} (h : unit ∈ utf16Units c) : unit < 0x10000 := by
  have hc := toNat_lt c
  unfold utf16Units at h
  split at h
  · simp only [List.mem_singleton] at h
    omega
  · simp only [List.mem_cons, List.not_mem_nil, or_false] at h
    rcases h with h | h
    · omega
    · omega

theorem utf16Units_alphanum {c : Char} (h : c.isAlphanum) : utf16Units c = [c.toNat] := by
  have hsmall : c.val ≤ 122 := by
    rcases Bool.or_eq_true_iff.mp h with h | h
    · rcases Bool.or_eq_true_iff.mp h with h | h
      · have hupper : 65 ≤ c.val ∧ c.val ≤ 90 := of_decide_eq_true h
        exact UInt32.le_trans hupper.2 (by decide)
      · exact of_decide_eq_true (Bool.and_eq_true_iff.mp h).2
    · have hdigit : c.val ≤ 57 := of_decide_eq_true (Bool.and_eq_true_iff.mp h).2
      exact UInt32.le_trans hdigit (by decide)
  have hbasic : c.toNat < 0x10000 := by
    have hnat : c.toNat ≤ 122 := UInt32.le_iff_toNat_le.mp hsmall
    omega
  simp [utf16Units, hbasic]

theorem readUnits_escaped (units : List Nat) (h : ∀ unit ∈ units, unit < 0x10000)
    (rest : List Char) :
    readUnits ((units.flatMap fun unit => '_' :: '0' :: hexDigits4 unit) ++ rest) =
      units.map some ++ readUnits rest := by
  induction units with
  | nil => rfl
  | cons unit units ih =>
    obtain ⟨hunit, hunits⟩ := List.forall_mem_cons.mp h
    simp only [List.flatMap_cons, List.cons_append, List.append_assoc, List.map_cons]
    rw [readUnits_hexDigits4 hunit, ih hunits]

theorem readUnits_plain {c : Char} (h : c ≠ '_') (rest : List Char) :
    readUnits (c :: rest) = some c.toNat :: readUnits rest := by
  rw [readUnits] <;> simp_all

theorem readUnits_escapeChar (c : Char) (rest : List Char) :
    readUnits (escapeChar c ++ rest) = (utf16Units c).map some ++ readUnits rest := by
  unfold escapeChar
  split
  · rename_i h
    subst h
    rfl
  · rename_i hunderscore
    split
    · rename_i h
      subst h
      rfl
    · split
      · rename_i h
        subst h
        rfl
      · split
        · rename_i halphanum
          rw [utf16Units_alphanum halphanum]
          exact readUnits_plain hunderscore rest
        · exact readUnits_escaped _ (fun _ => utf16Units_lt) rest

theorem joinUnits_letter (c : Char) (rest : List (Option Nat)) :
    joinUnits ((utf16Units c).map some ++ rest) = .letter c :: joinUnits rest := by
  have hvalid := c.valid
  simp only [UInt32.isValidChar, Nat.isValidChar] at hvalid
  unfold utf16Units
  split
  · rename_i hbasic
    have hplain : ¬ (0xD800 ≤ c.toNat ∧ c.toNat < 0xDC00) := by
      simp only [Char.toNat] at *
      omega
    cases rest with
    | nil => simp [joinUnits]
    | cons unit rest => cases unit <;> simp [joinUnits, hplain]
  · rename_i hrare
    have hfirst : 0xD800 ≤ 0xD800 + (c.toNat - 0x10000) / 0x400 ∧
        0xD800 + (c.toNat - 0x10000) / 0x400 < 0xDC00 := by
      simp only [Char.toNat] at *
      omega
    have hvalue : 0x10000 + (0xD800 + (c.toNat - 0x10000) / 0x400 - 0xD800) * 0x400 +
        (0xDC00 + (c.toNat - 0x10000) % 0x400 - 0xDC00) = c.toNat := by
      omega
    simp only [List.map_cons, List.map_nil, List.cons_append, List.nil_append, joinUnits]
    rw [if_pos hfirst, hvalue, Char.ofNat_toNat]

/-- An escape digit is the only thing that makes an escape of an underscore. -/
theorem readUnits_separator {rest : List Char}
    (h : ∀ c ∈ rest.head?, isEscapeDigit c = false) :
    readUnits ('_' :: rest) = none :: readUnits rest := by
  cases rest with
  | nil => rfl
  | cons c rest =>
    have hc : isEscapeDigit c = false := h c rfl
    simp only [isEscapeDigit, Bool.or_eq_false_iff, decide_eq_false_iff_not] at hc
    obtain ⟨⟨⟨h0, h1⟩, h2⟩, h3⟩ := hc
    rw [readUnits] <;> simp_all

theorem head_escapeChar (c : Char) :
    ∃ rest, escapeChar c = '_' :: rest ∨ escapeChar c = c :: rest := by
  unfold escapeChar
  split
  · exact ⟨_, Or.inl rfl⟩
  · split
    · exact ⟨_, Or.inl rfl⟩
    · split
      · exact ⟨_, Or.inl rfl⟩
      · split
        · exact ⟨[], Or.inr rfl⟩
        · unfold utf16Units
          split
          · exact ⟨_, Or.inl rfl⟩
          · exact ⟨_, Or.inl rfl⟩

theorem head_glyphText {glyphs : List Glyph} {rest : List Char}
    (h : (Glyph.separator :: glyphs).IsChain Glyph.Precedes)
    (hrest : ∀ c ∈ rest.head?, isEscapeDigit c = false) :
    ∀ c ∈ (glyphText glyphs ++ rest).head?, isEscapeDigit c = false := by
  intro c hc
  cases glyphs with
  | nil => exact hrest c (by simpa [glyphText] using hc)
  | cons glyph glyphs =>
    have hnext : Glyph.separator.Precedes glyph := (List.isChain_cons_cons.mp h).1
    cases glyph with
    | separator =>
      obtain rfl : '_' = c := by simpa [glyphText, Glyph.text] using hc
      rfl
    | letter d =>
      obtain ⟨tail, hd | hd⟩ := head_escapeChar d
      · obtain rfl : '_' = c := by simpa [glyphText, Glyph.text, hd] using hc
        rfl
      · obtain rfl : d = c := by simpa [glyphText, Glyph.text, hd] using hc
        exact hnext

theorem readGlyphs_append {glyphs : List Glyph} (h : glyphs.IsChain Glyph.Precedes)
    {rest : List Char} (hrest : ∀ c ∈ rest.head?, isEscapeDigit c = false) :
    readGlyphs (glyphText glyphs ++ rest) = glyphs ++ readGlyphs rest := by
  induction glyphs with
  | nil => rfl
  | cons glyph glyphs ih =>
    have htail := ih h.tail
    unfold readGlyphs at htail ⊢
    cases glyph with
    | separator =>
      change joinUnits (readUnits ('_' :: (glyphText glyphs ++ rest))) = _
      rw [readUnits_separator (head_glyphText h hrest), joinUnits, htail, List.cons_append]
    | letter c =>
      rw [glyphText, List.flatMap_cons, List.append_assoc]
      change joinUnits (readUnits (escapeChar c ++ (glyphText glyphs ++ rest))) = _
      rw [readUnits_escapeChar, joinUnits_letter, htail, List.cons_append]

/-- A spelling can be read back where no separator stands before an escape digit. -/
theorem readGlyphs_glyphText {glyphs : List Glyph} (h : glyphs.IsChain Glyph.Precedes) :
    readGlyphs (glyphText glyphs) = glyphs := by
  have hend : ∀ c ∈ ([] : List Char).head?, isEscapeDigit c = false := by simp
  have hread := readGlyphs_append h hend
  simpa [readGlyphs, readUnits, joinUnits] using hread

end JniHeaders.Symbol
