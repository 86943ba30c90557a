import JniHeaders.Proofs.Identifier
import JniHeaders.Proofs.SymbolReading

/-!
Class names that are mangled alike. The underscore of an escape is told from a separator by the
digit after it, but a segment may begin with that digit. A dot and the digits of an escape are then
mangled like the character that is escaped. Two names are mangled alike in this way only.
-/

namespace JniHeaders.Symbol

/-- An escape, with dots for its underscores. -/
def dotted (text : List Char) : List Char := text.map fun c => if c = '_' then '.' else c

/-- The names are the same but for characters of one in whose place the other has their escapes,
with dots. -/
inductive Disguised : List Char → List Char → Prop where
  | nil : Disguised [] []
  | same (c : Char) {first second : List Char} :
      Disguised first second → Disguised (c :: first) (c :: second)
  | left {c : Char} {first second : List Char} : c ≠ '.' → Disguised first second →
      Disguised (c :: first) (dotted (escapeChar c) ++ second)
  | right {c : Char} {first second : List Char} : c ≠ '.' → Disguised first second →
      Disguised (dotted (escapeChar c) ++ first) (c :: second)

/-- A segment after the first begins like the digits of an escape. -/
def OpensLikeEscape (name : String) : Prop :=
  ['.', '0'] <:+: name.toList ∨ ['.', '1'] <:+: name.toList

instance (name : String) : Decidable (OpensLikeEscape name) :=
  inferInstanceAs (Decidable (_ ∨ _))

theorem mangleChar_of_ne {c : Char} (h : c ≠ '.') : mangleChar c = escapeChar c := if_neg h

/-- Each segment of a name is escaped by itself, and underscores join them. -/
theorem mangleText_eq_intercalate (name : String) :
    mangleText name = ['_'].intercalate ((segments name).map (·.flatMap escapeChar)) := by
  rw [mangleText, segments]
  induction name.toList with
  | nil => rfl
  | cons c text ih =>
    obtain ⟨first, others, hsplit⟩ := List.exists_cons_of_ne_nil (List.splitOn_ne_nil '.' text)
    rw [List.flatMap_cons, ih, List.splitOn_cons_eq_if_modifyHead, hsplit]
    by_cases hdot : c = '.'
    · simp [hdot, mangleChar, List.intercalate_cons_cons]
    · cases others <;> simp [hdot, mangleChar, List.intercalate_cons_cons]

theorem escapeChar_of_alphanum {c : Char} (h : c.isAlphanum) : escapeChar c = [c] := by
  have hother : ∀ d : Char, d.isAlphanum = false → c ≠ d := by
    rintro d hd rfl
    rw [h] at hd
    cases hd
  simp [escapeChar, h, hother]

theorem isAlphanum_hexDigits4 (n : Nat) : ∀ d ∈ hexDigits4 n, d.isAlphanum := by
  have hdigit : ∀ n < 16, n.digitChar.isAlphanum := by decide
  intro d hd
  obtain ⟨digit, hmem, rfl⟩ := List.mem_map.mp hd
  apply hdigit
  simp only [List.mem_cons, List.not_mem_nil, or_false] at hmem
  omega

/-- What is escaped is an underscore and digits, and a rare character is two such escapes, of which
the second can't begin a character. -/
theorem escapeChar_forms (c : Char) :
    (c.isAlphanum ∧ escapeChar c = [c]) ∨
    (∃ digits, (∀ d ∈ digits, d.isAlphanum) ∧ escapeChar c = '_' :: digits) ∨
    ∃ digits low, (∀ d ∈ digits, d.isAlphanum) ∧ 0xDC00 ≤ low ∧ low < 0xE000 ∧
      escapeChar c = '_' :: digits ++ '_' :: '0' :: hexDigits4 low := by
  have hdigits : ∀ n, ∀ d ∈ '0' :: hexDigits4 n, d.isAlphanum := fun n =>
    List.forall_mem_cons.mpr ⟨rfl, isAlphanum_hexDigits4 n⟩
  have hdigit : ∀ digit : Char, digit.isAlphanum → ∀ d ∈ [digit], d.isAlphanum :=
    fun digit h d hd => List.mem_singleton.mp hd ▸ h
  by_cases halphanum : c.isAlphanum
  · exact Or.inl ⟨halphanum, escapeChar_of_alphanum halphanum⟩
  refine Or.inr ?_
  unfold escapeChar
  split
  · exact Or.inl ⟨_, hdigit '1' rfl, rfl⟩
  · split
    · exact Or.inl ⟨_, hdigit '2' rfl, rfl⟩
    · split
      · exact Or.inl ⟨_, hdigit '3' rfl, rfl⟩
      · unfold utf16Units
        split
        · exact Or.inl ⟨_, hdigits c.toNat, by simp⟩
        · exact Or.inr ⟨_, 0xDC00 + (c.toNat - 0x10000) % 0x400,
            hdigits (0xD800 + (c.toNat - 0x10000) / 0x400), by omega, by omega, by simp⟩

theorem escapeChar_ne_nil (c : Char) : escapeChar c ≠ [] := by
  obtain ⟨rest, h | h⟩ := head_escapeChar c <;> simp [h]

theorem escapeChar_plain_or_escape (c : Char) :
    (c.isAlphanum ∧ escapeChar c = [c]) ∨ ∃ digits, escapeChar c = '_' :: digits := by
  rcases escapeChar_forms c with hplain | ⟨digits, -, h⟩ | ⟨digits, low, -, -, -, h⟩
  · exact Or.inl hplain
  · exact Or.inr ⟨digits, h⟩
  · exact Or.inr ⟨_, h⟩

theorem dotted_of_alphanum {text : List Char} (h : ∀ c ∈ text, c.isAlphanum) :
    dotted text = text := by
  have hsame : ∀ c ∈ text, (if c = '_' then '.' else c) = c := by
    intro c hc
    have hother : c ≠ '_' := by
      rintro rfl
      exact absurd (h _ hc) (by decide)
    rw [if_neg hother]
  rw [dotted, List.map_congr_left hsame, List.map_id']

theorem dotted_underscore (text : List Char) : dotted ('_' :: text) = '.' :: dotted text := rfl

/-- An escape with dots is mangled like the character. -/
theorem mangle_dotted_escapeChar (c : Char) :
    (dotted (escapeChar c)).flatMap mangleChar = escapeChar c := by
  have hsame : ∀ d ∈ escapeChar c, mangleChar (if d = '_' then '.' else d) = [d] := by
    intro d hd
    by_cases hunderscore : d = '_'
    · simp [hunderscore, mangleChar]
    · have hidentifier := isIdentifierChar_escapeChar c d hd
      have halphanum : d.isAlphanum := by simpa [isIdentifierChar, hunderscore] using hidentifier
      have hdot : d ≠ '.' := by
        rintro rfl
        exact absurd halphanum (by decide)
      rw [if_neg hunderscore, mangleChar_of_ne hdot, escapeChar_of_alphanum halphanum]
  rw [dotted, List.flatMap_map, List.flatMap_congr hsame, List.flatMap_singleton']

theorem flatMap_mangleChar_of_disguised {first second : List Char} (h : Disguised first second) :
    first.flatMap mangleChar = second.flatMap mangleChar := by
  induction h with
  | nil => rfl
  | same c _ ih => rw [List.flatMap_cons, List.flatMap_cons, ih]
  | left hc _ ih =>
    rw [List.flatMap_cons, List.flatMap_append, mangle_dotted_escapeChar, mangleChar_of_ne hc, ih]
  | right hc _ ih =>
    rw [List.flatMap_cons, List.flatMap_append, mangle_dotted_escapeChar, mangleChar_of_ne hc, ih]

section

variable {name rest : List Char} {c : Char}

theorem name_of_alphanum (hc : c.isAlphanum) (h : name.flatMap mangleChar = c :: rest) :
    ∃ after, name = c :: after ∧ after.flatMap mangleChar = rest := by
  have hunderscore : '_' ≠ c := by
    rintro rfl
    exact absurd hc (by decide)
  cases name with
  | nil => cases h
  | cons d after =>
    rw [List.flatMap_cons] at h
    by_cases hdot : d = '.'
    · rw [mangleChar, if_pos hdot] at h
      exact absurd (List.cons.inj h).1 hunderscore
    · rw [mangleChar_of_ne hdot] at h
      rcases escapeChar_plain_or_escape d with ⟨-, hplain⟩ | ⟨digits, hescape⟩
      · rw [hplain] at h
        obtain ⟨rfl, hrest⟩ := List.cons.inj h
        exact ⟨after, rfl, hrest⟩
      · rw [hescape] at h
        exact absurd (List.cons.inj h).1 hunderscore

theorem name_of_digits {digits : List Char} (hdigits : ∀ d ∈ digits, d.isAlphanum)
    (h : name.flatMap mangleChar = digits ++ rest) :
    ∃ after, name = digits ++ after ∧ after.flatMap mangleChar = rest := by
  induction digits generalizing name with
  | nil => exact ⟨name, rfl, h⟩
  | cons d digits ih =>
    obtain ⟨hfirst, hothers⟩ := List.forall_mem_cons.mp hdigits
    obtain ⟨middle, rfl, hmiddle⟩ := name_of_alphanum hfirst h
    obtain ⟨after, rfl, hafter⟩ := ih hothers hmiddle
    exact ⟨after, rfl, hafter⟩

/-- No character is escaped with the second half of a rare one first. -/
theorem utf16Units_head (c : Char) :
    ∃ unit units, utf16Units c = unit :: units ∧ ¬ (0xDC00 ≤ unit ∧ unit < 0xE000) := by
  have hvalid := c.valid
  simp only [UInt32.isValidChar, Nat.isValidChar] at hvalid
  unfold utf16Units
  split
  · refine ⟨_, _, rfl, ?_⟩
    simp only [Char.toNat] at *
    omega
  · have hbound := toNat_lt c
    refine ⟨_, _, rfl, ?_⟩
    omega

/-- The second half of a rare character is there as a dot and digits, or after its first half. -/
theorem name_of_second_half {low : Nat} (hlow : 0xDC00 ≤ low ∧ low < 0xE000)
    (h : name.flatMap mangleChar = '_' :: '0' :: (hexDigits4 low ++ rest)) :
    ∃ after, name = '.' :: '0' :: (hexDigits4 low ++ after) ∧
      after.flatMap mangleChar = rest := by
  cases name with
  | nil => cases h
  | cons d after =>
    rw [List.flatMap_cons] at h
    by_cases hdot : d = '.'
    · rw [mangleChar, if_pos hdot] at h
      have hdigits : ∀ d ∈ '0' :: hexDigits4 low, d.isAlphanum :=
        List.forall_mem_cons.mpr ⟨rfl, isAlphanum_hexDigits4 low⟩
      obtain ⟨last, rfl, hlast⟩ := name_of_digits hdigits (List.cons.inj h).2
      exact ⟨last, by rw [hdot]; rfl, hlast⟩
    · rw [mangleChar_of_ne hdot] at h
      have hread := congrArg readUnits h
      rw [readUnits_escapeChar, readUnits_hexDigits4 (by omega)] at hread
      obtain ⟨unit, units, hunits, hunit⟩ := utf16Units_head d
      rw [hunits] at hread
      obtain rfl : unit = low := Option.some.inj (List.cons.inj hread).1
      exact absurd hlow hunit

/-- A name that is mangled to the escape of a character and more has the character there, or its
disguise. -/
theorem name_of_escape (hc : c ≠ '.') (h : name.flatMap mangleChar = escapeChar c ++ rest) :
    ∃ after, after.flatMap mangleChar = rest ∧
      (name = c :: after ∨ name = dotted (escapeChar c) ++ after) := by
  cases name with
  | nil => exact absurd (List.append_eq_nil_iff.mp h.symm).1 (escapeChar_ne_nil c)
  | cons d after =>
    rw [List.flatMap_cons] at h
    by_cases hdot : d = '.'
    · rw [mangleChar, if_pos hdot] at h
      rcases escapeChar_forms c with ⟨halphanum, hform⟩ | ⟨digits, hdigits, hform⟩ |
        ⟨digits, low, hdigits, hge, hlt, hform⟩
      · rw [hform] at h
        obtain rfl : '_' = c := (List.cons.inj h).1
        exact absurd halphanum (by decide)
      · rw [hform] at h
        obtain ⟨last, rfl, hlast⟩ := name_of_digits hdigits (List.cons.inj h).2
        refine ⟨last, hlast, Or.inr ?_⟩
        rw [hform, dotted_underscore, dotted_of_alphanum hdigits, hdot]
        rfl
      · rw [hform, List.append_assoc] at h
        obtain ⟨middle, rfl, hmiddle⟩ := name_of_digits hdigits (List.cons.inj h).2
        obtain ⟨last, rfl, hlast⟩ := name_of_second_half ⟨hge, hlt⟩ hmiddle
        refine ⟨last, hlast, Or.inr ?_⟩
        have hhalf : dotted ('_' :: '0' :: hexDigits4 low) = '.' :: '0' :: hexDigits4 low := by
          rw [dotted_underscore, dotted_of_alphanum]
          exact List.forall_mem_cons.mpr ⟨rfl, isAlphanum_hexDigits4 low⟩
        have hwhole : dotted (escapeChar c) = '.' :: digits ++ '.' :: '0' :: hexDigits4 low := by
          rw [hform, ← hhalf, dotted, List.map_append, ← dotted, ← dotted, dotted_underscore,
            dotted_of_alphanum hdigits]
        rw [hwhole, hdot]
        simp
    · rw [mangleChar_of_ne hdot] at h
      have hread := congrArg readGlyphs h
      unfold readGlyphs at hread
      rw [readUnits_escapeChar, readUnits_escapeChar, joinUnits_letter, joinUnits_letter] at hread
      obtain rfl : d = c := Glyph.letter.inj (List.cons.inj hread).1
      exact ⟨after, List.append_cancel_left h, Or.inl rfl⟩

end

theorem length_lt_of_disguise {name after : List Char} {c d : Char}
    (h : d :: name = dotted (escapeChar c) ++ after) : after.length < name.length + 1 := by
  have hlength := congrArg List.length h
  have hsome := List.length_pos_iff.mpr (escapeChar_ne_nil c)
  simp only [dotted, List.length_cons, List.length_append, List.length_map] at hlength
  omega

theorem disguised_of_flatMap_mangleChar {first second : List Char}
    (h : first.flatMap mangleChar = second.flatMap mangleChar) : Disguised first second := by
  -- a disguise takes several characters of a name at once, so the induction is on the length
  induction hlength : first.length using Nat.strong_induction_on generalizing first second with
  | _ length ih =>
  subst hlength
  have hsome : ∀ c name, (c :: name).flatMap mangleChar ≠ [] := by
    intro c name
    by_cases hdot : c = '.' <;> simp [mangleChar, hdot, escapeChar_ne_nil]
  cases first with
  | nil =>
    cases second with
    | nil => exact .nil
    | cons d second => exact absurd h.symm (hsome d second)
  | cons c first =>
    by_cases hdot : c = '.'
    · subst hdot
      cases second with
      | nil => exact absurd h (hsome _ first)
      | cons d second =>
        by_cases hother : d = '.'
        · subst hother
          exact .same _ (ih _ (Nat.lt_succ_self _) (List.append_cancel_left h) rfl)
        · have hescape : ('.' :: first).flatMap mangleChar =
              escapeChar d ++ second.flatMap mangleChar := by
            rw [h, List.flatMap_cons, mangleChar_of_ne hother]
          obtain ⟨after, hafter, hname | hname⟩ := name_of_escape hother hescape
          · exact absurd (List.cons.inj hname).1.symm hother
          · rw [hname]
            exact .right hother (ih _ (length_lt_of_disguise hname) hafter rfl)
    · rw [List.flatMap_cons, mangleChar_of_ne hdot] at h
      obtain ⟨after, hafter, rfl | rfl⟩ := name_of_escape hdot h.symm
      · exact .same c (ih _ (Nat.lt_succ_self _) hafter.symm rfl)
      · exact .left hdot (ih _ (Nat.lt_succ_self _) hafter.symm rfl)

theorem mangleName_eq_iff (first second : String) :
    mangleName first = mangleName second ↔ Disguised first.toList second.toList := by
  unfold mangleName
  rw [String.ofList_inj]
  exact ⟨disguised_of_flatMap_mangleChar, flatMap_mangleChar_of_disguised⟩

theorem dotted_escapeChar_of_alphanum {c : Char} (h : c.isAlphanum) :
    dotted (escapeChar c) = [c] := by
  rw [escapeChar_of_alphanum h, dotted_of_alphanum (by simpa using h)]

/-- A name has a character that another has the disguise of. -/
structure Disguises (name other : List Char) (c : Char) : Prop where
  escaped : c.isAlphanum = false
  ne_dot : c ≠ '.'
  mem : c ∈ name
  disguise : dotted (escapeChar c) <:+: other

theorem Disguises.append {name other : List Char} {c : Char} (h : Disguises name other c)
    (before earlier : List Char) : Disguises (before ++ name) (earlier ++ other) c where
  escaped := h.escaped
  ne_dot := h.ne_dot
  mem := List.mem_append_right _ h.mem
  disguise := h.disguise.trans (List.suffix_append _ _).isInfix

theorem plain_or_disguises {c : Char} (hc : c ≠ '.') (name other : List Char) :
    dotted (escapeChar c) = [c] ∨ Disguises (c :: name) (dotted (escapeChar c) ++ other) c := by
  cases hplain : c.isAlphanum with
  | true => exact Or.inl (dotted_escapeChar_of_alphanum hplain)
  | false =>
    exact Or.inr ⟨hplain, hc, List.mem_cons_self, (List.prefix_append _ _).isInfix⟩

theorem exists_disguise_cons (c : Char) {first second : List Char}
    (h : ∃ d, Disguises first second d ∨ Disguises second first d) :
    ∃ d, Disguises (c :: first) (c :: second) d ∨ Disguises (c :: second) (c :: first) d := by
  obtain ⟨d, hd⟩ := h
  exact ⟨d, hd.imp (·.append [c] [c]) (·.append [c] [c])⟩

theorem Disguised.exists_disguise {first second : List Char} (h : Disguised first second)
    (hne : first ≠ second) : ∃ c, Disguises first second c ∨ Disguises second first c := by
  induction h with
  | nil => exact absurd rfl hne
  | same c _ ih => exact exists_disguise_cons c (ih fun heq => hne (by rw [heq]))
  | @left c first second hc _ ih =>
    rcases plain_or_disguises hc first second with hplain | hdisguise
    · rw [hplain] at hne ⊢
      exact exists_disguise_cons c (ih fun heq => hne (by rw [heq]; rfl))
    · exact ⟨c, Or.inl hdisguise⟩
  | @right c first second hc _ ih =>
    rcases plain_or_disguises hc second first with hplain | hdisguise
    · rw [hplain] at hne ⊢
      exact exists_disguise_cons c (ih fun heq => hne (by rw [heq]; rfl))
    · exact ⟨c, Or.inr hdisguise⟩

theorem escapeChar_opens_with_zero {c : Char} (hplain : c.isAlphanum = false)
    (hunderscore : c ≠ '_') (hsemicolon : c ≠ ';') (hbracket : c ≠ '[') :
    ∃ rest, escapeChar c = '_' :: '0' :: rest := by
  obtain ⟨unit, units, hunits, -⟩ := utf16Units_head c
  simp [escapeChar, hplain, hunderscore, hsemicolon, hbracket, hunits]

/-- The disguise of a character that a legal name can have begins with a zero or a one. -/
theorem Disguises.opensLikeEscape {name other : String} {c : Char} (hname : LegalName name)
    (h : Disguises name.toList other.toList c) : OpensLikeEscape other := by
  have hlegal := ((legalName_iff_segmented name).mp hname).dot_or_holds h.mem
  have hunqualified := hlegal.resolve_left h.ne_dot
  simp only [Descriptor.isUnqualified, Bool.and_eq_true, decide_eq_true_iff] at hunqualified
  obtain ⟨⟨⟨-, hsemicolon⟩, hbracket⟩, -⟩ := hunqualified
  by_cases hunderscore : c = '_'
  · have hopening : ['.', '1'] <+: dotted (escapeChar c) := by
      rw [hunderscore]
      decide
    exact Or.inr (hopening.isInfix.trans h.disguise)
  · obtain ⟨rest, hrest⟩ := escapeChar_opens_with_zero h.escaped hunderscore hsemicolon hbracket
    have hopening : ['.', '0'] <+: dotted (escapeChar c) := by
      rw [hrest]
      exact ⟨dotted rest, rfl⟩
    exact Or.inl (hopening.isInfix.trans h.disguise)

theorem names_are_mangled_alike_in_disguise_only (first second : String) :
    (mangleName first = mangleName second ↔ Disguised first.toList second.toList) ∧
    (mangleName first = mangleName second → first ≠ second →
      ∃ c, Disguises first.toList second.toList c ∨ Disguises second.toList first.toList c) ∧
    (LegalName first → LegalName second → ¬ OpensLikeEscape first → ¬ OpensLikeEscape second →
      first ≠ second → mangleName first ≠ mangleName second) := by
  have hdisguise : mangleName first = mangleName second → first ≠ second →
      ∃ c, Disguises first.toList second.toList c ∨ Disguises second.toList first.toList c := by
    intro heq hne
    refine ((mangleName_eq_iff first second).mp heq).exists_disguise fun hsame => hne ?_
    exact String.toList_inj.mp hsame
  refine ⟨mangleName_eq_iff first second, hdisguise, ?_⟩
  intro hfirst hsecond hplain hother hne heq
  obtain ⟨c, hc | hc⟩ := hdisguise heq hne
  · exact hother (hc.opensLikeEscape hfirst)
  · exact hplain (hc.opensLikeEscape hsecond)

theorem digits_after_separator_are_kept :
    Disguised "a.1b".toList "a_b".toList ∧
    (∃ c, Disguises "a.1b".toList "a_b".toList c ∨ Disguises "a_b".toList "a.1b".toList c) ∧
    mangleName "a.2b" ≠ mangleName "a_b" :=
  ⟨(names_are_mangled_alike_in_disguise_only "a.1b" "a_b").1.mp (by decide),
    (names_are_mangled_alike_in_disguise_only "a.1b" "a_b").2.1 (by decide) (by decide),
    (names_are_mangled_alike_in_disguise_only "a.2b" "a_b").2.2 (by decide) (by decide)
      (by decide) (by decide) (by decide)⟩

theorem separator_is_confused_with_escape :
    LegalName "a.1b" ∧ LegalName "a_b" ∧ "a.1b" ≠ "a_b" ∧
      mangleName "a.1b" = mangleName "a_b" := by
  decide

end JniHeaders.Symbol
