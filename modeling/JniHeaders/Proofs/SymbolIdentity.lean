import JniHeaders.Proofs.DescriptorGrammar
import JniHeaders.Proofs.SymbolReading

/-!
Which method a symbol stands for. A symbol spells the class, a separator and the method; a long
one goes on with two separators and the descriptors of the parameters. No two separators meet
anywhere else, so the parts can be told apart, and each of them can be read back.
-/

namespace JniHeaders

def JavaType.objectName? : JavaType → Option String
  | primitive _ => none
  | object name => some name
  | array _ element => element.objectName?

/-- Names and parameters of a method whose symbols can be read back. -/
structure Distinguishable (className methodName : String) (types : List JavaType) : Prop where
  className : PlainName className
  methodName : opensPlainly methodName.toList
  spelled : ∀ type ∈ types, type.Spelled
  parameters : ∀ type ∈ types, ∀ name ∈ type.objectName?, PlainName name

namespace Symbol

open Descriptor

/-- As `Precedes`, but without separators that meet. -/
def Glyph.Joins : Glyph → Glyph → Prop
  | separator, separator => False
  | separator, letter c => isEscapeDigit c = false
  | letter _, _ => True

def letters (text : List Char) : List Glyph := text.map .letter

def nameGlyphs (name : List Char) : List Glyph :=
  name.map fun c => if c = '.' then .separator else .letter c

def descriptorGlyph (c : Char) : Glyph := if c = '/' then .separator else .letter c

def shortGlyphs (className methodName : String) : List Glyph :=
  nameGlyphs className.toList ++ .separator :: letters methodName.toList

def parameterGlyphs (types : List JavaType) : List Glyph :=
  (types.flatMap JavaType.text).map descriptorGlyph

@[simp] theorem glyphText_append (first second : List Glyph) :
    glyphText (first ++ second) = glyphText first ++ glyphText second := by
  simp [glyphText]

@[simp] theorem glyphText_separator (glyphs : List Glyph) :
    glyphText (.separator :: glyphs) = '_' :: glyphText glyphs := rfl

@[simp] theorem glyphText_letter (c : Char) (glyphs : List Glyph) :
    glyphText (.letter c :: glyphs) = escapeChar c ++ glyphText glyphs := rfl

theorem glyphText_letters (text : List Char) :
    glyphText (letters text) = text.flatMap escapeChar := by
  simp [glyphText, letters, List.flatMap_map, Glyph.text]

theorem glyphText_nameGlyphs (name : List Char) :
    glyphText (nameGlyphs name) = name.flatMap mangleChar := by
  induction name with
  | nil => rfl
  | cons c name ih =>
    simp only [nameGlyphs, glyphText, List.map_cons, List.flatMap_cons] at ih ⊢
    rw [ih]
    by_cases hdot : c = '.'
    · simp [hdot, mangleChar, Glyph.text]
    · simp [hdot, mangleChar, Glyph.text]

theorem object_descriptorGlyphs {name : String} (h : LegalName name) :
    (JavaType.object name).text.map descriptorGlyph =
      .letter 'L' :: nameGlyphs name.toList ++ [.letter ';'] := by
  have hslash : '/' ∉ name.toList := slash_not_mem ((legalName_iff_segmented name).mp h)
  have hname : name.toList.map (descriptorGlyph ∘ slashed) = nameGlyphs name.toList := by
    refine List.map_congr_left fun c hc => ?_
    have hc : c ≠ '/' := fun heq => hslash (heq ▸ hc)
    by_cases hdot : c = '.'
    · simp [hdot, slashed, descriptorGlyph]
    · simp [hdot, slashed, descriptorGlyph, hc]
  simp [object_text, hname, descriptorGlyph]

theorem typeText_eq_glyphText {type : JavaType} (h : type.Spelled) :
    typeText type = glyphText (type.text.map descriptorGlyph) := by
  induction type with
  | primitive kind => cases kind <;> rfl
  | object name =>
    rw [object_descriptorGlyphs h, List.cons_append, typeText, mangleText]
    simp [glyphText_nameGlyphs, glyphText_letter]
    rfl
  | array dimensions element ih =>
    rw [typeText, ih h.2.2, JavaType.text, List.map_append, glyphText_append]
    congr 1
    simp [glyphText, List.flatMap, descriptorGlyph]
    rfl

theorem parameterText_eq_glyphText {types : List JavaType} (h : ∀ type ∈ types, type.Spelled) :
    parameterText types = glyphText (parameterGlyphs types) := by
  induction types with
  | nil => rfl
  | cons type types ih =>
    obtain ⟨hfirst, hothers⟩ := List.forall_mem_cons.mp h
    rw [parameterText, List.flatMap_cons, typeText_eq_glyphText hfirst]
    rw [parameterGlyphs, List.flatMap_cons, List.map_append, glyphText_append]
    exact congrArg _ (ih hothers)

theorem shortText_eq_glyphText (className methodName : String) :
    shortText className methodName =
      "Java_".toList ++ glyphText (shortGlyphs className methodName) := by
  change "Java_".toList ++ mangleText className ++ '_' :: escapeText methodName = _
  rw [shortGlyphs, glyphText_append, glyphText_separator, glyphText_nameGlyphs,
    glyphText_letters, mangleText, escapeText, List.append_assoc]

theorem joins_letter_cons (c : Char) (glyphs : List Glyph) :
    (Glyph.letter c :: glyphs).IsChain Glyph.Joins ↔ glyphs.IsChain Glyph.Joins := by
  cases glyphs with
  | nil => simp
  | cons glyph glyphs => simp [Glyph.Joins]

/-- The glyph before a name ends a segment only if the name starts with one. -/
theorem nameGlyphs_joins {fresh : Bool} {name : List Char}
    (h : Segmented (fun c => !isEscapeDigit c) (fun _ => true) fresh name) (before : Glyph)
    (hbefore : fresh = false → before ≠ .separator) {after : List Glyph}
    (hafter : after.IsChain Glyph.Joins) :
    (before :: (nameGlyphs name ++ after)).IsChain Glyph.Joins := by
  induction name generalizing fresh before with
  | nil =>
    cases before with
    | separator => exact absurd rfl (hbefore h)
    | letter c => exact (joins_letter_cons c after).mpr hafter
  | cons c name ih =>
    rcases h.uncons with ⟨rfl, hfresh, htail⟩ | ⟨hdot, hc, htail⟩
    · have hrest := ih htail .separator (by simp)
      cases before with
      | separator => exact absurd rfl (hbefore hfresh)
      | letter c => exact (joins_letter_cons c _).mpr hrest
    · have hrest := ih htail (.letter c) (by simp)
      simp only [nameGlyphs, List.map_cons, if_neg hdot] at hrest ⊢
      cases before with
      | separator =>
        obtain rfl : fresh = true := by
          by_contra hfresh
          exact hbefore (by simpa using hfresh) rfl
        exact List.isChain_cons_cons.mpr ⟨by simpa [Glyph.Joins] using hc, hrest⟩
      | letter d => exact (joins_letter_cons d _).mpr hrest

theorem letters_joins (text : List Char) {after : List Glyph}
    (h : after.IsChain Glyph.Joins) : (letters text ++ after).IsChain Glyph.Joins := by
  induction text with
  | nil => exact h
  | cons c text ih => exact (joins_letter_cons c _).mpr ih

theorem shortGlyphs_joins {className methodName : String} (hclass : PlainName className)
    (hmethod : opensPlainly methodName.toList) :
    (shortGlyphs className methodName ++ [Glyph.separator]).IsChain Glyph.Joins := by
  have hletters : (Glyph.separator :: (letters methodName.toList ++ [Glyph.separator])).IsChain
      Glyph.Joins := by
    have hrest := letters_joins methodName.toList (List.isChain_singleton Glyph.separator)
    cases hname : methodName.toList with
    | nil => simp [hname, opensPlainly] at hmethod
    | cons c rest =>
      rw [hname] at hrest hmethod
      exact List.isChain_cons_cons.mpr ⟨by simpa [opensPlainly, Glyph.Joins] using hmethod, hrest⟩
  have hname := nameGlyphs_joins ((plainName_iff_segmented className).mp hclass)
    .separator (by simp) hletters
  simpa [shortGlyphs] using hname.tail

theorem plain_letter_joins {c : Char} (h : isEscapeDigit c = false) (before : Glyph)
    {after : List Glyph} (hafter : after.IsChain Glyph.Joins) :
    (before :: .letter c :: after).IsChain Glyph.Joins := by
  refine List.isChain_cons_cons.mpr ⟨?_, (joins_letter_cons c after).mpr hafter⟩
  cases before with
  | separator => exact h
  | letter d => trivial

theorem code_joins (kind : Primitive) :
    descriptorGlyph kind.code = .letter kind.code ∧ isEscapeDigit kind.code = false := by
  cases kind <;> decide

theorem descriptorGlyphs_joins {type : JavaType} (hspelled : type.Spelled)
    (hplain : ∀ name ∈ type.objectName?, PlainName name) (before : Glyph) {after : List Glyph}
    (hafter : after.IsChain Glyph.Joins) :
    (before :: (type.text.map descriptorGlyph ++ after)).IsChain Glyph.Joins := by
  induction type generalizing before with
  | primitive kind =>
    obtain ⟨hcode, hplainCode⟩ := code_joins kind
    rw [JavaType.text, List.map_singleton, hcode]
    exact plain_letter_joins hplainCode before hafter
  | object name =>
    have hend := (joins_letter_cons ';' after).mpr hafter
    have hname := nameGlyphs_joins ((plainName_iff_segmented name).mp (hplain name rfl))
      (.letter 'L') (by simp) hend
    rw [object_descriptorGlyphs hspelled]
    simp only [List.cons_append, List.append_assoc, List.nil_append]
    exact plain_letter_joins (by decide) before hname.tail
  | array dimensions element ih =>
    obtain ⟨-, -, helement⟩ := hspelled
    rw [JavaType.text, List.map_append, List.map_replicate, List.append_assoc]
    induction dimensions generalizing before with
    | zero => exact ih helement hplain before
    | succ n ihn =>
      rw [List.replicate_succ, List.cons_append]
      exact plain_letter_joins (by decide) before (ihn hplain before).tail

theorem parameterGlyphs_joins {types : List JavaType} (hspelled : ∀ type ∈ types, type.Spelled)
    (hplain : ∀ type ∈ types, ∀ name ∈ type.objectName?, PlainName name) (before : Glyph) :
    (before :: parameterGlyphs types).IsChain Glyph.Joins := by
  induction types generalizing before with
  | nil => exact List.isChain_singleton before
  | cons type types ih =>
    obtain ⟨hfirst, hothers⟩ := List.forall_mem_cons.mp hspelled
    obtain ⟨hfirstPlain, hothersPlain⟩ := List.forall_mem_cons.mp hplain
    have hrest : (parameterGlyphs types).IsChain Glyph.Joins :=
      (ih hothers hothersPlain before).tail
    have htype := descriptorGlyphs_joins hfirst hfirstPlain before hrest
    simpa [parameterGlyphs] using htype

theorem precedes_of_joins {first second : Glyph} (h : first.Joins second) :
    first.Precedes second := by
  cases first <;> cases second <;> first | exact h | trivial

theorem not_joins_gap (first after : List Glyph) :
    ¬ (first ++ .separator :: .separator :: after).IsChain Glyph.Joins := by
  intro h
  exact (List.isChain_append_cons_cons.mp h).2.1

theorem gap_ne_cons {glyph : Glyph} {rest after later : List Glyph}
    (h : (glyph :: rest ++ [Glyph.separator]).IsChain Glyph.Joins) :
    Glyph.separator :: .separator :: after ≠ glyph :: rest ++ .separator :: .separator :: later := by
  intro heq
  obtain ⟨rfl, hrest⟩ := List.cons.inj heq
  cases rest with
  | nil => exact not_joins_gap [] _ h
  | cons next rest =>
    obtain ⟨rfl, -⟩ := List.cons.inj hrest
    exact not_joins_gap [] _ h

/-- Where separators meet for the first time, a list can be split in one way only. -/
theorem first_gap_unique {first second after later : List Glyph}
    (hfirst : (first ++ [Glyph.separator]).IsChain Glyph.Joins)
    (hsecond : (second ++ [Glyph.separator]).IsChain Glyph.Joins)
    (h : first ++ .separator :: .separator :: after =
      second ++ .separator :: .separator :: later) :
    first = second ∧ after = later := by
  induction first generalizing second with
  | nil =>
    cases second with
    | nil => simpa using h
    | cons glyph rest => exact absurd h (gap_ne_cons hsecond)
  | cons glyph first ih =>
    cases second with
    | nil => exact absurd h.symm (gap_ne_cons hfirst)
    | cons next second =>
      obtain ⟨rfl, hrest⟩ := List.cons.inj h
      obtain ⟨rfl, rfl⟩ := ih hfirst.tail hsecond.tail hrest
      exact ⟨rfl, rfl⟩

theorem letters_injective : Function.Injective letters :=
  List.map_injective_iff.mpr fun _ _ => Glyph.letter.inj

theorem separator_not_mem_letters (text : List Char) : Glyph.separator ∉ letters text := by
  simp [letters]

theorem last_separator_unique {first second : List Glyph} {after later : List Char}
    (h : first ++ .separator :: letters after = second ++ .separator :: letters later) :
    first = second ∧ after = later := by
  rcases List.append_eq_append_iff.mp h with ⟨middle, rfl, hmiddle⟩ | ⟨middle, rfl, hmiddle⟩
  · cases middle with
    | nil => exact ⟨(List.append_nil _).symm, letters_injective (List.cons.inj hmiddle).2⟩
    | cons glyph middle =>
      have hmem : Glyph.separator ∈ letters after := by
        rw [(List.cons.inj hmiddle).2]
        simp
      exact absurd hmem (separator_not_mem_letters after)
  · cases middle with
    | nil => exact ⟨List.append_nil _, (letters_injective (List.cons.inj hmiddle).2).symm⟩
    | cons glyph middle =>
      have hmem : Glyph.separator ∈ letters later := by
        rw [(List.cons.inj hmiddle).2]
        simp
      exact absurd hmem (separator_not_mem_letters later)

theorem nameGlyphs_injective {first second : List Char} (h : nameGlyphs first = nameGlyphs second) :
    first = second := by
  refine List.map_injective_iff.mpr ?_ h
  intro c d hcd
  by_cases hc : c = '.' <;> by_cases hd : d = '.' <;> simp_all

theorem descriptorGlyph_injective : Function.Injective descriptorGlyph := by
  intro c d hcd
  unfold descriptorGlyph at hcd
  by_cases hc : c = '/' <;> by_cases hd : d = '/' <;> simp_all

/-- Descriptors that follow each other can be told apart, since they can be read. -/
theorem parameterGlyphs_injective {first second : List JavaType}
    (hfirst : ∀ type ∈ first, type.Spelled) (hsecond : ∀ type ∈ second, type.Spelled)
    (h : parameterGlyphs first = parameterGlyphs second) : first = second := by
  have htext := List.map_injective_iff.mpr descriptorGlyph_injective h
  have hread := parameters_text hfirst []
  rw [htext, parameters_text hsecond] at hread
  cases hread
  rfl

theorem head_typeText (type : JavaType) :
    ∃ c rest, typeText type = c :: rest ∧ isEscapeDigit c = false := by
  induction type with
  | primitive kind => exact ⟨_, _, rfl, (code_joins kind).2⟩
  | object name => exact ⟨'L', _, rfl, by decide⟩
  | array dimensions element ih =>
    cases dimensions with
    | zero => simpa [typeText] using ih
    | succ n =>
      rw [typeText, List.replicate_succ]
      exact ⟨'_', _, rfl, by decide⟩

theorem head_parameterText (types : List JavaType) :
    ∀ c ∈ (parameterText types).head?, isEscapeDigit c = false := by
  intro c hc
  cases types with
  | nil => simp [parameterText] at hc
  | cons type types =>
    obtain ⟨d, rest, htext, hd⟩ := head_typeText type
    obtain rfl : d = c := by simpa [parameterText, htext] using hc
    exact hd

def spelling (symbol : String) : List Glyph := readGlyphs (symbol.toList.drop "Java_".length)

theorem spelling_shortName {className methodName : String} (hclass : PlainName className)
    (hmethod : opensPlainly methodName.toList) :
    spelling (shortName className methodName) = shortGlyphs className methodName := by
  have hchain := (shortGlyphs_joins hclass hmethod).left_of_append.imp
    fun _ _ => precedes_of_joins
  rw [spelling, shortName, String.toList_ofList, shortText_eq_glyphText]
  exact readGlyphs_glyphText hchain

/-- Two separators that meet end the short part, whatever the parameters are. -/
theorem spelling_longName {className methodName : String} (hclass : PlainName className)
    (hmethod : opensPlainly methodName.toList) (types : List JavaType) :
    spelling (longName className methodName types) = shortGlyphs className methodName ++
      .separator :: .separator :: readGlyphs (parameterText types) := by
  have hshort := (shortGlyphs_joins hclass hmethod).imp fun _ _ => precedes_of_joins
  have hchain : (shortGlyphs className methodName ++
      [Glyph.separator, Glyph.separator]).IsChain Glyph.Precedes :=
    List.isChain_append_cons_cons.mpr ⟨hshort, trivial, List.isChain_singleton _⟩
  have hread := readGlyphs_append hchain (head_parameterText types)
  rw [glyphText_append, List.append_assoc, List.append_assoc] at hread
  rw [spelling, longName, String.toList_ofList, longText, shortText_eq_glyphText,
    List.append_assoc]
  exact hread

theorem readGlyphs_parameterText {types : List JavaType} (hspelled : ∀ type ∈ types, type.Spelled)
    (hplain : ∀ type ∈ types, ∀ name ∈ type.objectName?, PlainName name) :
    readGlyphs (parameterText types) = parameterGlyphs types := by
  have hchain : (parameterGlyphs types).IsChain Glyph.Precedes :=
    (parameterGlyphs_joins hspelled hplain .separator).tail.imp fun _ _ => precedes_of_joins
  rw [parameterText_eq_glyphText hspelled, readGlyphs_glyphText hchain]

variable {class₁ class₂ method₁ method₂ : String} {types₁ types₂ : List JavaType}

theorem shortGlyphs_injective (h : shortGlyphs class₁ method₁ = shortGlyphs class₂ method₂) :
    class₁ = class₂ ∧ method₁ = method₂ := by
  obtain ⟨hclass, hmethod⟩ := last_separator_unique h
  exact ⟨String.toList_inj.mp (nameGlyphs_injective hclass), String.toList_inj.mp hmethod⟩

theorem shortName_injective (hclass₁ : PlainName class₁) (hmethod₁ : opensPlainly method₁.toList)
    (hclass₂ : PlainName class₂) (hmethod₂ : opensPlainly method₂.toList)
    (h : shortName class₁ method₁ = shortName class₂ method₂) :
    class₁ = class₂ ∧ method₁ = method₂ := by
  have hspelling := congrArg spelling h
  rw [spelling_shortName hclass₁ hmethod₁, spelling_shortName hclass₂ hmethod₂] at hspelling
  exact shortGlyphs_injective hspelling

theorem longName_parts (hclass₁ : PlainName class₁) (hmethod₁ : opensPlainly method₁.toList)
    (hclass₂ : PlainName class₂) (hmethod₂ : opensPlainly method₂.toList)
    (h : longName class₁ method₁ types₁ = longName class₂ method₂ types₂) :
    (class₁ = class₂ ∧ method₁ = method₂) ∧
      readGlyphs (parameterText types₁) = readGlyphs (parameterText types₂) := by
  have hspelling := congrArg spelling h
  rw [spelling_longName hclass₁ hmethod₁, spelling_longName hclass₂ hmethod₂] at hspelling
  obtain ⟨hshort, htypes⟩ := first_gap_unique (shortGlyphs_joins hclass₁ hmethod₁)
    (shortGlyphs_joins hclass₂ hmethod₂) hspelling
  exact ⟨shortGlyphs_injective hshort, htypes⟩

theorem shortName_ne_longName (hclass₁ : PlainName class₁)
    (hmethod₁ : opensPlainly method₁.toList) (hclass₂ : PlainName class₂)
    (hmethod₂ : opensPlainly method₂.toList) :
    shortName class₁ method₁ ≠ longName class₂ method₂ types₂ := by
  intro h
  have hspelling := congrArg spelling h
  rw [spelling_shortName hclass₁ hmethod₁, spelling_longName hclass₂ hmethod₂] at hspelling
  have hchain := (shortGlyphs_joins hclass₁ hmethod₁).left_of_append
  rw [hspelling] at hchain
  exact not_joins_gap _ _ hchain

theorem longName_injective (h₁ : Distinguishable class₁ method₁ types₁)
    (h₂ : Distinguishable class₂ method₂ types₂)
    (h : longName class₁ method₁ types₁ = longName class₂ method₂ types₂) :
    class₁ = class₂ ∧ method₁ = method₂ ∧ types₁ = types₂ := by
  obtain ⟨⟨hclass, hmethod⟩, htypes⟩ :=
    longName_parts h₁.className h₁.methodName h₂.className h₂.methodName h
  rw [readGlyphs_parameterText h₁.spelled h₁.parameters,
    readGlyphs_parameterText h₂.spelled h₂.parameters] at htypes
  exact ⟨hclass, hmethod, parameterGlyphs_injective h₁.spelled h₂.spelled htypes⟩

/-- A long symbol stands for one class, method and parameters, a short one for one class and
method, and no symbol is both short and long. -/
theorem symbols_identify_methods (h₁ : Distinguishable class₁ method₁ types₁)
    (h₂ : Distinguishable class₂ method₂ types₂) :
    ((mangle class₁ method₁ types₁).long = (mangle class₂ method₂ types₂).long →
      class₁ = class₂ ∧ method₁ = method₂ ∧ types₁ = types₂) ∧
    ((mangle class₁ method₁ types₁).short = (mangle class₂ method₂ types₂).short →
      class₁ = class₂ ∧ method₁ = method₂) ∧
    (mangle class₁ method₁ types₁).short ≠ (mangle class₂ method₂ types₂).long := by
  refine ⟨longName_injective h₁ h₂, ?_, ?_⟩
  · exact shortName_injective h₁.className h₁.methodName h₂.className h₂.methodName
  · exact shortName_ne_longName h₁.className h₁.methodName h₂.className h₂.methodName

/-- Names that look alike once underscores stand for dots. -/
theorem look_alikes_have_distinct_symbols :
    Distinguishable "a.b_c" "d" [.array 2 (.object "p.q_R"), .primitive .int] ∧
    Distinguishable "a.b" "c_d" [.array 2 (.object "p_q.R"), .primitive .int] ∧
    longName "a.b_c" "d" [.array 2 (.object "p.q_R"), .primitive .int] ≠
      longName "a.b" "c_d" [.array 2 (.object "p_q.R"), .primitive .int] ∧
    shortName "a.b_c" "d" ≠ shortName "a.b" "c_d" ∧
    shortName "a.b_c" "d" ≠
      longName "a.b" "c_d" [.array 2 (.object "p_q.R"), .primitive .int] := by
  have h₁ : Distinguishable "a.b_c" "d" [.array 2 (.object "p.q_R"), .primitive .int] :=
    ⟨by decide, by decide, by decide +kernel, by decide +kernel⟩
  have h₂ : Distinguishable "a.b" "c_d" [.array 2 (.object "p_q.R"), .primitive .int] :=
    ⟨by decide, by decide, by decide +kernel, by decide +kernel⟩
  obtain ⟨hlong, hshort, hmixed⟩ := symbols_identify_methods h₁ h₂
  refine ⟨h₁, h₂, ?_, ?_, hmixed⟩
  · intro h
    exact absurd (hlong h).1 (by decide)
  · intro h
    exact absurd (hshort h).1 (by decide)

end Symbol

end JniHeaders
