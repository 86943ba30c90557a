import JniHeaders.Proofs.HeaderText

/-!
Headers without comments read back. A line is told by its first word: the first line of a header
names its guard, and each export comes with the line of its types. So the text of such a header
says what its guard is and what a linker and a compiler see of each declaration, and nothing else.
-/

namespace JniHeaders

structure Prototype where
  symbol : String
  isStatic : Bool
  result : NativeType
  parameters : List NativeType
  deriving DecidableEq, Repr

def Declaration.prototype (declaration : Declaration) : Prototype where
  symbol := declaration.symbol
  isStatic := declaration.isStatic
  result := declaration.result
  parameters := declaration.parameters

namespace NativeType

def all : List NativeType := [.void, .jboolean, .jbyte, .jchar, .jshort, .jint, .jlong, .jfloat,
  .jdouble, .jobject, .jclass, .jstring, .jthrowable, .jbooleanArray, .jbyteArray, .jcharArray,
  .jshortArray, .jintArray, .jlongArray, .jfloatArray, .jdoubleArray, .jobjectArray]

def ofCName? (name : String) : Option NativeType := all.find? (·.cName = name)

theorem ofCName?_cName (type : NativeType) : ofCName? type.cName = some type := by
  cases type <;> decide +kernel

def ofWord? (word : String) : Option NativeType :=
  ofCName? (String.ofList (word.toList.takeWhile Char.isAlphanum))

theorem ofWord?_append (type : NativeType) (punctuation : String)
    (h : punctuation.toList.takeWhile Char.isAlphanum = []) :
    ofWord? (type.cName ++ punctuation) = some type := by
  rw [ofWord?, String.toList_append, List.takeWhile_append_of_pos type.isAlphanum_cName, h,
    List.append_nil, String.ofList_toList, ofCName?_cName]

theorem blank_not_mem_cName (type : NativeType) : ' ' ∉ type.cName.toList :=
  not_mem_of_forall type.isAlphanum_cName rfl

end NativeType

theorem IsIdentifier.blank_not_mem {name : String} (h : IsIdentifier name) : ' ' ∉ name.toList :=
  not_mem_of_forall h.isIdentifierChar_of_mem rfl

def words (text : List Char) : List String := (text.splitOn ' ').map String.ofList

theorem words_of_not_mem {word : String} (h : ' ' ∉ word.toList) : words word.toList = [word] := by
  simp [words, List.splitOn_eq_singleton h]

theorem words_cons {word : String} (h : ' ' ∉ word.toList) (rest : List Char) :
    words (word.toList ++ ' ' :: rest) = word :: words rest := by
  simp [words, splitOn_append_cons, List.splitOn_eq_singleton h]

theorem words_directive {line directive name : String} (h : IsIdentifier name)
    (hdirective : ' ' ∉ directive.toList)
    (hline : line.toList = directive.toList ++ ' ' :: name.toList) :
    words line.toList = [directive, name] := by
  rw [hline, words_cons hdirective, words_of_not_mem h.blank_not_mem]

theorem words_ifndef {name : String} (h : IsIdentifier name) :
    words ("#ifndef " ++ name).toList = ["#ifndef", name] :=
  words_directive h (by decide) (by simp)

theorem words_define {name : String} (h : IsIdentifier name) :
    words ("#define " ++ name).toList = ["#define", name] :=
  words_directive h (by decide) (by simp)

/-- Four words stand before the types. -/
def readTypes (line : String) : List NativeType :=
  ((words line.toList).drop 4).filterMap NativeType.ofWord?

def readPrototype? (first second : String) : Option Prototype :=
  match words first.toList, readTypes second with
  | ["JNIEXPORT", result, "JNICALL", symbol], receiver :: parameters =>
    (NativeType.ofCName? result).map fun result =>
      ⟨symbol, receiver = .jclass, result, parameters⟩
  | _, _ => none

/-- Lines that do not begin a prototype are passed over. -/
def readPrototypes : List String → List Prototype
  | first :: second :: rest =>
    match readPrototype? first second with
    | some prototype => prototype :: readPrototypes rest
    | none => readPrototypes (second :: rest)
  | _ => []

def readGuard (lines : List String) : Guard :=
  match lines.head?.map fun line => words line.toList with
  | some ["#pragma", "once"] => .pragmaOnce
  | some ["#ifndef", name] => .named name
  | _ => .none

def readHeader (text : String) : Guard × List Prototype :=
  let lines := (text.toList.splitOn '\n').map String.ofList
  (readGuard lines, readPrototypes lines)

def IsPassedOver (line : String) : Prop := (words line.toList).head? ≠ some "JNIEXPORT"

instance (line : String) : Decidable (IsPassedOver line) :=
  inferInstanceAs (Decidable (_ ≠ _))

theorem readPrototypes_cons {line : String} (h : IsPassedOver line) (rest : List String) :
    readPrototypes (line :: rest) = readPrototypes rest := by
  cases rest with
  | nil => rfl
  | cons second rest =>
    have hnone : readPrototype? line second = none := by
      unfold readPrototype?
      split
      · rename_i hwords _
        exact absurd (by rw [hwords]; rfl) h
      · rfl
    rw [readPrototypes, hnone]

theorem readPrototypes_append {lines : List String} (h : ∀ line ∈ lines, IsPassedOver line)
    (rest : List String) : readPrototypes (lines ++ rest) = readPrototypes rest := by
  induction lines with
  | nil => rfl
  | cons line lines ih =>
    obtain ⟨hline, hlines⟩ := List.forall_mem_cons.mp h
    rw [List.cons_append, readPrototypes_cons hline, ih hlines]

namespace Declaration

def typeWords (type : NativeType) : List NativeType → List String
  | [] => [type.cName ++ ");"]
  | next :: types => (type.cName ++ ",") :: typeWords next types

theorem words_types (type : NativeType) (types : List NativeType) :
    words (type.cName ++ types.foldr (fun parameter text => ", " ++ parameter.cName ++ text) "" ++
      ");").toList = typeWords type types := by
  induction types generalizing type with
  | nil =>
    have hword : ' ' ∉ (type.cName ++ ");").toList := by
      simpa using type.blank_not_mem_cName
    simpa [typeWords] using words_of_not_mem hword
  | cons next types ih =>
    have hword : ' ' ∉ (type.cName ++ ",").toList := by
      simpa using type.blank_not_mem_cName
    have hrest := words_cons hword
      (next.cName ++ types.foldr (fun parameter text => ", " ++ parameter.cName ++ text) "" ++
        ");").toList
    rw [ih next] at hrest
    simpa [typeWords] using hrest

theorem filterMap_typeWords (type : NativeType) (types : List NativeType) :
    (typeWords type types).filterMap NativeType.ofWord? = type :: types := by
  induction types generalizing type with
  | nil =>
    have hend := type.ofWord?_append ");" (by decide)
    simp [typeWords, hend]
  | cons next types ih =>
    have hcomma := type.ofWord?_append "," (by decide)
    simp [typeWords, hcomma, ih]

theorem readTypes_parameters (declaration : Declaration) :
    readTypes ("  (JNIEnv *, " ++ declaration.receiver.cName ++ declaration.parameterList ++ ");") =
      declaration.receiver :: declaration.parameters := by
  have hline : ("  (JNIEnv *, " ++ declaration.receiver.cName ++ declaration.parameterList ++
      ");").toList =
      "".toList ++ ' ' :: ("".toList ++ ' ' :: ("(JNIEnv".toList ++ ' ' :: ("*,".toList ++ ' ' ::
        (declaration.receiver.cName ++ declaration.parameterList ++ ");").toList))) := by
    simp
  unfold readTypes
  rw [hline, words_cons (by decide), words_cons (by decide), words_cons (by decide),
    words_cons (by decide), parameterList, words_types]
  exact filterMap_typeWords _ _

theorem words_export {declaration : Declaration} (h : IsIdentifier declaration.symbol) :
    words ("JNIEXPORT " ++ declaration.result.cName ++ " JNICALL " ++ declaration.symbol).toList =
      ["JNIEXPORT", declaration.result.cName, "JNICALL", declaration.symbol] := by
  have hline : ("JNIEXPORT " ++ declaration.result.cName ++ " JNICALL " ++
      declaration.symbol).toList =
      "JNIEXPORT".toList ++ ' ' :: (declaration.result.cName.toList ++ ' ' ::
        ("JNICALL".toList ++ ' ' :: declaration.symbol.toList)) := by
    simp
  rw [hline, words_cons (by decide), words_cons declaration.result.blank_not_mem_cName,
    words_cons (by decide), words_of_not_mem h.blank_not_mem]

theorem isStatic_iff_receiver (declaration : Declaration) :
    decide (declaration.receiver = .jclass) = declaration.isStatic := by
  unfold receiver
  cases declaration.isStatic <;> rfl

theorem readPrototypes_prototypeLines {declaration : Declaration}
    (h : IsIdentifier declaration.symbol) (rest : List String) :
    readPrototypes (declaration.prototypeLines ++ rest) =
      declaration.prototype :: readPrototypes rest := by
  have hread : readPrototype?
      ("JNIEXPORT " ++ declaration.result.cName ++ " JNICALL " ++ declaration.symbol)
      ("  (JNIEnv *, " ++ declaration.receiver.cName ++ declaration.parameterList ++ ");") =
      some declaration.prototype := by
    unfold readPrototype?
    rw [words_export h, readTypes_parameters]
    simp only [NativeType.ofCName?_cName, Option.map_some, isStatic_iff_receiver]
    rfl
  have hblank : IsPassedOver "" := by decide
  simp only [prototypeLines, List.cons_append, List.nil_append]
  rw [readPrototypes, hread]
  dsimp only
  rw [readPrototypes_cons hblank]

theorem readPrototypes_flatMap {declarations : List Declaration}
    (h : ∀ declaration ∈ declarations, IsIdentifier declaration.symbol) (rest : List String) :
    readPrototypes (declarations.flatMap prototypeLines ++ rest) =
      declarations.map prototype ++ readPrototypes rest := by
  induction declarations with
  | nil => rfl
  | cons declaration declarations ih =>
    obtain ⟨hfirst, hothers⟩ := List.forall_mem_cons.mp h
    rw [List.flatMap_cons, List.append_assoc, readPrototypes_prototypeLines hfirst, ih hothers]
    rfl

theorem prototypeLines_congr {first second : Declaration}
    (h : first.prototype = second.prototype) : first.prototypeLines = second.prototypeLines := by
  obtain ⟨hsymbol, hstatic, hresult, hparameters⟩ := Prototype.mk.inj h
  simp only [prototypeLines, parameterList, receiver, hsymbol, hstatic, hresult, hparameters]

theorem flatMap_prototypeLines_congr {first second : List Declaration}
    (h : first.map prototype = second.map prototype) :
    first.flatMap prototypeLines = second.flatMap prototypeLines := by
  induction first generalizing second with
  | nil =>
    obtain rfl : second = [] := List.map_eq_nil_iff.mp h.symm
    rfl
  | cons declaration first ih =>
    cases second with
    | nil => cases h
    | cons other second =>
      obtain ⟨hprototype, hothers⟩ := List.cons.inj h
      rw [List.flatMap_cons, List.flatMap_cons, prototypeLines_congr hprototype, ih hothers]

end Declaration

namespace Header

/-- A header without comments whose symbols, and the name of whose guard, are identifiers. -/
structure IsBare (header : Header) : Prop where
  comments : header.comments = .terse
  guard : header.guard.IsProper
  symbols : ∀ declaration ∈ header.declarations, IsIdentifier declaration.symbol

variable {header : Header}

theorem IsBare.lines_eq (h : header.IsBare) :
    header.lines = header.head ++ languageOpening ++
      header.declarations.flatMap Declaration.prototypeLines ++ languageClosing ++
      guardClosing header.guard := by
  rw [lines, h.comments]
  rfl

theorem IsBare.head_eq (h : header.IsBare) :
    header.head = match header.guard with
      | .none => []
      | guard => guardOpening guard ++ [""] := by
  unfold head
  rw [h.comments]
  cases header.guard <;> rfl

theorem IsBare.isInert_head (h : header.IsBare) : ∀ line ∈ header.head, IsInert line := by
  have hopening := isInert_guardOpening h.guard
  have hblank : IsInert "" := by decide
  rw [h.head_eq]
  cases hguard : header.guard with
  | none => nofun
  | pragmaOnce | named =>
    rw [hguard] at hopening
    exact List.forall_mem_append.mpr ⟨hopening, List.forall_mem_singleton.mpr hblank⟩

theorem IsBare.isInert_lines (h : header.IsBare) : ∀ line ∈ header.lines, IsInert line := by
  rw [h.lines_eq]
  simp only [List.forall_mem_append, List.forall_mem_flatMap]
  exact ⟨⟨⟨⟨h.isInert_head, isInert_languageOpening⟩, fun declaration hmem =>
    Declaration.isInert_prototypeLines (h.symbols declaration hmem).isInert⟩,
    isInert_languageClosing⟩, isInert_guardClosing header.guard⟩

theorem IsBare.isPassedOver_head (h : header.IsBare) :
    ∀ line ∈ header.head, IsPassedOver line := by
  have hblank : IsPassedOver "" := by decide
  have hname := h.guard
  rw [h.head_eq]
  cases hguard : header.guard with
  | none => exact List.forall_mem_nil _
  | pragmaOnce => decide
  | named name =>
    rw [hguard] at hname
    simp only [guardOpening, List.cons_append, List.nil_append, List.forall_mem_cons]
    refine ⟨?_, ?_, hblank, List.forall_mem_nil _⟩
    · rw [IsPassedOver, words_ifndef hname]
      simp
    · rw [IsPassedOver, words_define hname]
      simp

theorem IsBare.readPrototypes_lines (h : header.IsBare) :
    readPrototypes (header.lines ++ [""]) = header.declarations.map (·.prototype) := by
  have hopening : ∀ line ∈ languageOpening, IsPassedOver line := by decide
  have hclosing : ∀ line ∈ languageClosing ++ guardClosing header.guard ++ [""],
      IsPassedOver line := by
    cases header.guard <;> simp only [guardClosing] <;> decide
  have hend := readPrototypes_append hclosing []
  rw [h.lines_eq]
  simp only [List.append_assoc, List.append_nil] at hend ⊢
  rw [readPrototypes_append h.isPassedOver_head, readPrototypes_append hopening,
    Declaration.readPrototypes_flatMap h.symbols, hend]
  exact List.append_nil _

theorem IsBare.readGuard_lines (h : header.IsBare) (rest : List String) :
    readGuard (header.lines ++ rest) = header.guard := by
  have hname := h.guard
  rw [h.lines_eq, h.head_eq]
  cases hguard : header.guard with
  | none => rfl
  | pragmaOnce => rfl
  | named name =>
    rw [hguard] at hname
    simp only [readGuard, guardOpening, List.cons_append, List.head?_cons, Option.map_some,
      words_ifndef hname]

theorem IsBare.readHeader_render (h : header.IsBare) :
    readHeader header.render = (header.guard, header.declarations.map (·.prototype)) := by
  have hbreaks : ∀ line ∈ header.lines, '\n' ∉ line.toList := fun line hline =>
    (h.isInert_lines line hline).1
  have hlines : (header.render.toList.splitOn '\n').map String.ofList = header.lines ++ [""] := by
    rw [render, String.toList_ofList, text_eq_lineText, splitOn_lineText hbreaks]
    simp
  rw [readHeader, hlines, h.readGuard_lines, h.readPrototypes_lines]

theorem render_congr {first second : Header} (hfirst : first.IsBare) (hsecond : second.IsBare)
    (hguard : first.guard = second.guard)
    (hprototypes : first.declarations.map (·.prototype) =
      second.declarations.map (·.prototype)) : first.render = second.render := by
  have hlines : first.lines = second.lines := by
    rw [hfirst.lines_eq, hsecond.lines_eq, hfirst.head_eq, hsecond.head_eq, hguard,
      Declaration.flatMap_prototypeLines_congr hprototypes]
  rw [render, render, text, text, hlines]

end Header

/-- Headers without comments are read back from their texts, but for what only comments tell. So
two of them have one text exactly if they have one guard and, place by place, declarations with the
same symbol, receiver, result and parameters. -/
theorem text_tells_guard_and_prototypes :
    (∀ header : Header, header.IsBare →
      readHeader header.render = (header.guard, header.declarations.map (·.prototype))) ∧
    ∀ first second : Header, first.IsBare → second.IsBare →
      (first.render = second.render ↔ first.guard = second.guard ∧
        first.declarations.map (·.prototype) = second.declarations.map (·.prototype)) := by
  refine ⟨fun header h => h.readHeader_render, fun first second hfirst hsecond => ⟨?_, ?_⟩⟩
  · intro htext
    have hread := hfirst.readHeader_render
    rw [htext, hsecond.readHeader_render] at hread
    obtain ⟨hguard, hprototypes⟩ := Prod.mk.inj hread
    exact ⟨hguard.symm, hprototypes.symm⟩
  · rintro ⟨hguard, hprototypes⟩
    exact Header.render_congr hfirst hsecond hguard hprototypes

def overloadHeader : Header where
  guard := .named "JNIEXPORT"
  comments := .terse
  declarations := [
    ⟨"p.A", "f", "()V", "Java_p_A_f__", false, .void, []⟩,
    ⟨"p.A", "f", "([ILp/Q;)Lp/Q;", "Java_p_A_f___3ILp_Q_2", true, .jobject,
      [.jintArray, .jobject]⟩]

def overloadHeaderOfObject : Header :=
  { overloadHeader with
    declarations := overloadHeader.declarations.map fun declaration =>
      { declaration with isStatic := false } }

theorem overloads_are_read_back :
    overloadHeader.IsBare ∧ overloadHeaderOfObject.IsBare ∧
    readHeader overloadHeader.render = (.named "JNIEXPORT",
      [⟨"Java_p_A_f__", false, .void, []⟩,
        ⟨"Java_p_A_f___3ILp_Q_2", true, .jobject, [.jintArray, .jobject]⟩]) ∧
    overloadHeader.render ≠ overloadHeaderOfObject.render := by
  obtain ⟨hread, htext⟩ := text_tells_guard_and_prototypes
  have hbare : overloadHeader.IsBare := ⟨rfl, by decide, by decide⟩
  have hother : overloadHeaderOfObject.IsBare := ⟨rfl, by decide, by decide⟩
  refine ⟨hbare, hother, hread overloadHeader hbare, ?_⟩
  intro hsame
  have hprototypes := ((htext _ _ hbare hother).mp hsame).2
  revert hprototypes
  decide

end JniHeaders
