import JniHeaders.ClassFile.Name
import JniHeaders.Proofs.CommentReading
import JniHeaders.Proofs.IncludeGuards
import JniHeaders.Proofs.MergedHeader

/-!
What a compiler sees of a header with comments. The comments leave nothing behind, and with them
it is the header without comments, unless a descriptor holds what closes a comment.
-/

namespace JniHeaders

open Descriptor

def SlashesApart : List Char → Prop
  | [] => True
  | c :: rest => (c = '/' → ∃ next after, rest = next :: after ∧ next ≠ '/') ∧ SlashesApart rest

theorem slashesApart_append {first second : List Char} (hfirst : SlashesApart first)
    (hsecond : SlashesApart second) : SlashesApart (first ++ second) := by
  induction first with
  | nil => exact hsecond
  | cons c first ih =>
    obtain ⟨hslash, hrest⟩ := hfirst
    refine ⟨?_, ih hrest⟩
    intro hc
    obtain ⟨next, after, rfl, hnext⟩ := hslash hc
    exact ⟨next, after ++ second, rfl, hnext⟩

theorem slashesApart_flatMap {α : Type} {write : α → List Char} {list : List α}
    (h : ∀ a ∈ list, SlashesApart (write a)) : SlashesApart (list.flatMap write) := by
  induction list with
  | nil => exact trivial
  | cons a list ih =>
    obtain ⟨hfirst, hothers⟩ := List.forall_mem_cons.mp h
    exact slashesApart_append hfirst (ih hothers)

theorem slashesApart_of_not_mem {text : List Char} (h : '/' ∉ text) : SlashesApart text := by
  induction text with
  | nil => exact trivial
  | cons c text ih =>
    obtain ⟨hc, htext⟩ := not_or.mp (List.mem_cons.not.mp h)
    exact ⟨fun hslash => absurd hslash.symm hc, ih htext⟩

/-- A slash ends a segment of a name, and the next segment has a character. -/
theorem slashesApart_className {fresh : Bool} {name : List Char}
    (h : Segmented isUnqualified isUnqualified fresh name) :
    SlashesApart (name.map slashed ++ [';']) ∧
      (fresh = true → ∃ next after, name.map slashed ++ [';'] = next :: after ∧ next ≠ '/') := by
  induction name generalizing fresh with
  | nil =>
    obtain rfl : fresh = false := h
    have hend : '/' ∉ [';'] := by decide
    exact ⟨slashesApart_of_not_mem hend, nofun⟩
  | cons c name ih =>
    rcases h.uncons with ⟨rfl, rfl, htail⟩ | ⟨-, hc, htail⟩
    · obtain ⟨hrest, hnext⟩ := ih htail
      exact ⟨⟨fun _ => hnext rfl, hrest⟩, nofun⟩
    · have hchar : isUnqualified c := by simpa using hc
      have hslash : slashed c ≠ '/' := by
        rw [slashed_of_unqualified hchar]
        rintro rfl
        exact absurd hchar (by decide)
      exact ⟨⟨fun heq => absurd heq hslash, (ih htail).1⟩, fun _ => ⟨_, _, rfl, hslash⟩⟩

theorem slashesApart_type {type : JavaType} (h : type.Spelled) : SlashesApart type.text := by
  induction type with
  | primitive kind => cases kind <;> exact slashesApart_of_not_mem (by decide)
  | object name =>
    have hname := slashesApart_className ((legalName_iff_segmented name).mp h)
    exact ⟨nofun, hname.1⟩
  | array dimensions element ih =>
    refine slashesApart_append (slashesApart_of_not_mem ?_) (ih h.2.2)
    intro hmem
    exact absurd (List.eq_of_mem_replicate hmem) (by decide)

theorem slashesApart_descriptor {descriptor : String} {sig : MethodSignature}
    (h : MethodSignature.parse descriptor = .ok sig) : SlashesApart descriptor.toList := by
  obtain ⟨hwellFormed, rfl⟩ := (MethodSignature.parse_eq_ok_iff _ _).mp h
  have hresult : SlashesApart sig.result.text := by
    rcases hwellFormed.result with hvoid | hresult
    · rw [hvoid]
      exact slashesApart_of_not_mem (by decide)
    · exact slashesApart_type hresult.spelled
  have hparameters : SlashesApart (sig.parameters.flatMap JavaType.text) :=
    slashesApart_flatMap fun type htype =>
      slashesApart_type (hwellFormed.parameters type htype).spelled
  have hclosing : SlashesApart (')' :: sig.result.text) :=
    ⟨fun heq => absurd heq (by decide), hresult⟩
  rw [MethodSignature.encode, String.toList_ofList]
  exact ⟨fun heq => absurd heq (by decide), slashesApart_append hparameters hclosing⟩

theorem comment_is_left {text : List Char} (hclose : "*/".toList <:+: text)
    (happart : SlashesApart text) (hbreak : '\n' ∉ text) (rest : List Char) :
    ∃ c tail, withoutComments true (text ++ rest) = c :: tail ∧ c ≠ '\n' := by
  induction text with
  | nil => exact absurd hclose (by decide)
  | cons c text ih =>
    by_cases hhere : "*/".toList <+: c :: text
    · obtain ⟨after, heq⟩ := hhere
      obtain ⟨rfl, rfl⟩ : '*' = c ∧ '/' :: after = text := List.cons.inj heq
      obtain ⟨next, tail, rfl, hslash⟩ := happart.2.1 rfl
      have hline : next ≠ '\n' := by
        rintro rfl
        simp at hbreak
      refine ⟨next, withoutComments false (tail ++ rest), ?_, hline⟩
      simp only [List.cons_append, withoutComments]
      rw [withoutComments]
      exact fun _ hnext => absurd hnext hslash
    · have hlater : "*/".toList <:+: text := (List.infix_cons_iff.mp hclose).resolve_left hhere
      obtain ⟨d, tail, hleft, hd⟩ := ih hlater happart.2 (List.not_mem_of_not_mem_cons hbreak)
      refine ⟨d, tail, ?_, hd⟩
      rw [List.cons_append, withoutComments, hleft]
      rintro after rfl hafter
      cases text with
      | nil => exact absurd hlater (by decide)
      | cons e text =>
        obtain ⟨rfl, -⟩ := List.cons.inj hafter
        exact hhere ⟨text, rfl⟩

namespace Declaration

/-- A compiler sees nothing of the comment. -/
def CommentHolds (declaration : Declaration) : Prop :=
  codeLines (lineText declaration.commentLines) = []

instance (declaration : Declaration) : Decidable declaration.CommentHolds :=
  inferInstanceAs (Decidable (_ = _))

/-- The text of a comment up to its descriptor, less the delimiter it begins with. -/
def commentHead (declaration : Declaration) : List Char :=
  ("\n * Class:     " ++ Symbol.mangleName declaration.className ++ "\n * Method:    " ++
    declaration.methodName ++ "\n * Signature:").toList

theorem lineText_commentLines (declaration : Declaration) :
    lineText declaration.commentLines = '/' :: '*' :: (declaration.commentHead ++
      ' ' :: (declaration.descriptor.toList ++ '\n' :: " */\n".toList)) := by
  simp [lineText, commentLines, commentHead]

/-- Whatever a comment holds, it is closed where the prototype begins. -/
theorem codeLines_commentLines_append (declaration : Declaration) (rest : List Char) :
    codeLines (lineText declaration.commentLines ++ rest) =
      codeLines (lineText declaration.commentLines) ++ codeLines rest := by
  generalize hbody : '/' :: '*' :: (declaration.commentHead ++ ' ' ::
    declaration.descriptor.toList) = body
  have hbreak : '\n' ≠ '/' ∧ '\n' ≠ '*' := by decide
  have hclosed : endsInComment false (body ++ '\n' :: " */".toList) = false := by
    rw [endsInComment_append hbreak.1 hbreak.2]
    cases endsInComment false body <;> rfl
  have htext : ∀ tail, lineText declaration.commentLines ++ tail =
      (body ++ '\n' :: " */".toList) ++ '\n' :: tail := by
    intro tail
    rw [lineText_commentLines, ← hbody]
    simp
  have hcomment := htext []
  rw [List.append_nil] at hcomment
  rw [htext, hcomment, codeLines_append_break hclosed, codeLines_append_break hclosed]
  simp [codeLines, visibleLines, withoutComments]

theorem codeLines_commentLines {declaration : Declaration}
    (hname : '/' ∉ declaration.methodName.toList) :
    codeLines (lineText declaration.commentLines) =
      visibleLines (withoutComments true
        (declaration.descriptor.toList ++ '\n' :: " */\n".toList)) := by
  have hblank : ' ' ≠ '/' ∧ ' ' ≠ '*' := by decide
  have hclass : '/' ∉ (Symbol.mangleName declaration.className).toList := by
    rw [Symbol.mangleName, String.toList_ofList]
    exact not_mem_of_forall (Symbol.isIdentifierChar_mangleText _) rfl
  have hhead : '/' ∉ declaration.commentHead := by
    simpa [commentHead] using ⟨hclass, hname⟩
  unfold codeLines
  rw [lineText_commentLines, withoutComments, withoutComments_append hblank.1 hblank.2,
    withoutComments_of_not_mem hhead, endsInComment_of_not_mem hhead,
    withoutComments_cons hblank.1 hblank.2]
  rfl

theorem commentHolds_of_unclosed (declaration : Declaration)
    (hname : '/' ∉ declaration.methodName.toList)
    (hdescriptor : ¬ "*/".toList <:+: declaration.descriptor.toList) :
    declaration.CommentHolds := by
  have hbreak : '\n' ≠ '/' ∧ '\n' ≠ '*' := by decide
  obtain ⟨hnothing, hinside⟩ := comment_goes_on hdescriptor
  unfold CommentHolds
  rw [codeLines_commentLines hname, withoutComments_append hbreak.1 hbreak.2, hnothing, hinside]
  rfl

theorem unclosed_of_commentHolds (declaration : Declaration)
    (hname : '/' ∉ declaration.methodName.toList)
    (hslashes : SlashesApart declaration.descriptor.toList)
    (hline : '\n' ∉ declaration.descriptor.toList) (hholds : declaration.CommentHolds) :
    ¬ "*/".toList <:+: declaration.descriptor.toList := by
  intro hclose
  obtain ⟨c, tail, hleft, hc⟩ :=
    comment_is_left hclose hslashes hline ('\n' :: " */\n".toList)
  unfold CommentHolds at hholds
  rw [codeLines_commentLines hname, hleft] at hholds
  exact visibleLines_ne_nil hc tail hholds

theorem codeLines_flatMap {declarations : List Declaration}
    (h : ∀ declaration ∈ declarations, IsInert declaration.symbol) (rest : List Char) :
    codeLines (lineText (declarations.flatMap (·.lines .verbose)) ++ rest) =
      declarations.flatMap (fun declaration =>
        codeLines (lineText declaration.commentLines) ++
          visibleLines (lineText declaration.prototypeLines)) ++ codeLines rest := by
  induction declarations with
  | nil => rfl
  | cons declaration declarations ih =>
    obtain ⟨hfirst, hothers⟩ := List.forall_mem_cons.mp h
    rw [List.flatMap_cons, lines, lineText_append, lineText_append, List.append_assoc,
      List.append_assoc, codeLines_commentLines_append,
      codeLines_lineText_append (isInert_prototypeLines hfirst), ih hothers, List.flatMap_cons]
    simp only [List.append_assoc]

theorem visibleLines_flatMap (declarations : List Declaration) (rest : List Char) :
    visibleLines (lineText (declarations.flatMap (·.lines .terse)) ++ rest) =
      declarations.flatMap (fun declaration =>
        visibleLines (lineText declaration.prototypeLines)) ++ visibleLines rest := by
  induction declarations with
  | nil => rfl
  | cons declaration declarations ih =>
    rw [List.flatMap_cons, lines, lineText_append, List.append_assoc,
      visibleLines_lineText_append, ih, List.flatMap_cons, List.append_assoc]

end Declaration

/-- If something is put before each of some pieces, nothing changes only where nothing is put. -/
theorem flatMap_append_eq_iff {α β : Type} (added kept : α → List β) (list : List α) :
    (list.flatMap fun a => added a ++ kept a) = list.flatMap kept ↔ ∀ a ∈ list, added a = [] := by
  have hlonger : ∀ pieces : List α,
      (pieces.flatMap kept).length ≤ (pieces.flatMap fun a => added a ++ kept a).length := by
    intro pieces
    induction pieces with
    | nil => exact Nat.le_refl _
    | cons a pieces ih =>
      simp only [List.flatMap_cons, List.length_append]
      omega
  induction list with
  | nil => simp
  | cons a list ih =>
    rw [List.forall_mem_cons, List.flatMap_cons, List.flatMap_cons]
    refine Iff.trans ?_ (and_congr_right fun _ => ih)
    constructor
    · intro heq
      have hlength := congrArg List.length heq
      have hrest := hlonger list
      simp only [List.length_append] at hlength
      have hnothing : added a = [] := List.eq_nil_of_length_eq_zero (by omega)
      rw [hnothing, List.nil_append] at heq
      exact ⟨hnothing, List.append_cancel_left heq⟩
    · rintro ⟨hnothing, heq⟩
      rw [hnothing, List.nil_append, heq]

namespace Header

variable {guard : Guard} {declarations : List Declaration}

/-- The header with comments is the header without them for a compiler. -/
def HidesComments (commented plain : Header) : Prop :=
  codeLines commented.text = visibleLines plain.text

instance (commented plain : Header) : Decidable (HidesComments commented plain) :=
  inferInstanceAs (Decidable (_ = _))

theorem codeLines_head (hguard : guard.IsProper) (rest : List Char) :
    codeLines (lineText (head ⟨guard, .verbose, declarations⟩) ++ rest) =
      visibleLines (lineText (guardOpening guard)) ++ codeLines rest := by
  have hhead : head ⟨guard, .verbose, declarations⟩ =
      bannerLines .verbose ++ (guardOpening guard ++ [""]) := by
    cases guard <;> rfl
  have hclosed : endsInComment false
      "/* DO NOT EDIT THIS FILE - it is machine generated */".toList = false := by decide
  have hbanner : ∀ tail, codeLines (lineText (bannerLines .verbose) ++ tail) = codeLines tail :=
    fun tail => codeLines_append_break hclosed tail
  have hblank : ∀ line ∈ [""], IsInert line := by decide
  have hempty : visibleLines (lineText [""]) = [] := by decide
  rw [hhead, lineText_append, List.append_assoc, hbanner, lineText_append, List.append_assoc,
    codeLines_lineText_append (isInert_guardOpening hguard), codeLines_lineText_append hblank,
    hempty, List.nil_append]

theorem visibleLines_head (rest : List Char) :
    visibleLines (lineText (head ⟨guard, .terse, declarations⟩) ++ rest) =
      visibleLines (lineText (guardOpening guard)) ++ visibleLines rest := by
  have hempty : visibleLines (lineText [""]) = [] := by decide
  have hblank : ∀ opening : List String,
      visibleLines (lineText (opening ++ [""])) = visibleLines (lineText opening) := by
    intro opening
    rw [lineText_append, visibleLines_lineText_append, hempty, List.append_nil]
  rw [visibleLines_lineText_append]
  congr 1
  cases guard with
  | none => rfl
  | pragmaOnce => exact hblank (guardOpening .pragmaOnce)
  | named name => exact hblank (guardOpening (.named name))

theorem codeLines_text (hguard : guard.IsProper)
    (hsymbols : ∀ declaration ∈ declarations, IsInert declaration.symbol) :
    codeLines (text ⟨guard, .verbose, declarations⟩) =
      visibleLines (lineText (guardOpening guard)) ++
        (visibleLines (lineText languageOpening) ++
          (declarations.flatMap (fun declaration =>
            codeLines (lineText declaration.commentLines) ++
              visibleLines (lineText declaration.prototypeLines)) ++
            (visibleLines (lineText languageClosing) ++
              visibleLines (lineText (guardClosing guard))))) := by
  simp only [text_eq_lineText, lines, lineText_append, List.append_assoc]
  rw [codeLines_head hguard, codeLines_lineText_append isInert_languageOpening,
    Declaration.codeLines_flatMap hsymbols, codeLines_lineText_append isInert_languageClosing,
    codeLines_lineText (isInert_guardClosing guard)]

theorem visibleLines_text :
    visibleLines (text ⟨guard, .terse, declarations⟩) =
      visibleLines (lineText (guardOpening guard)) ++
        (visibleLines (lineText languageOpening) ++
          (declarations.flatMap (fun declaration =>
            visibleLines (lineText declaration.prototypeLines)) ++
            (visibleLines (lineText languageClosing) ++
              visibleLines (lineText (guardClosing guard))))) := by
  simp only [text_eq_lineText, lines, lineText_append, List.append_assoc]
  rw [visibleLines_head, visibleLines_lineText_append, Declaration.visibleLines_flatMap,
    visibleLines_lineText_append]

theorem hidesComments_iff (hguard : guard.IsProper)
    (hsymbols : ∀ declaration ∈ declarations, IsInert declaration.symbol) :
    HidesComments ⟨guard, .verbose, declarations⟩ ⟨guard, .terse, declarations⟩ ↔
      ∀ declaration ∈ declarations, declaration.CommentHolds := by
  unfold HidesComments
  rw [codeLines_text hguard hsymbols, visibleLines_text, List.append_cancel_left_eq,
    List.append_cancel_left_eq, List.append_cancel_right_eq]
  exact flatMap_append_eq_iff _ _ declarations

end Header

theorem slash_not_mem_of_unqualified {name : String} (h : ClassFile.isUnqualifiedName name) :
    '/' ∉ name.toList := by
  obtain ⟨-, hchars⟩ := Bool.and_eq_true_iff.mp h
  exact not_mem_of_forall (List.all_eq_true.mp hchars) rfl

namespace Extraction

variable {classes : List ClassInfo} {extraction : Extraction}
  (hsorted : Sorted (candidates classes) extraction.methods extraction.skipped)
include hsorted

theorem isIdentifier_symbolOf {record : NativeMethod} (hrecord : record ∈ extraction.methods) :
    IsIdentifier (extraction.symbolOf record) := by
  have hsymbol := symbol_of_recorded hsorted hrecord
  rcases symbolOf_short_or_long extraction record with hshort | hlong
  · rw [hshort, hsymbol]
    exact Symbol.isIdentifier_shortName record.className record.methodName
  · rw [hlong, hsymbol]
    exact Symbol.isIdentifier_longName record.className record.methodName _

theorem declarations_hideComments_iff {guard : Guard} (hguard : guard.IsProper)
    {methods : List NativeMethod} (hmethods : methods ⊆ extraction.methods) :
    Header.HidesComments ⟨guard, .verbose, extraction.declarations methods⟩
        ⟨guard, .terse, extraction.declarations methods⟩ ↔
      ∀ declaration ∈ extraction.declarations methods, declaration.CommentHolds := by
  apply Header.hidesComments_iff hguard
  intro declaration hdeclaration
  obtain ⟨record, hrecord, rfl⟩ := List.mem_map.mp hdeclaration
  exact (isIdentifier_symbolOf hsorted (hmethods (mem_of_mem_firsts hrecord).1)).isInert

theorem merged_hidesComments_iff {guard : Guard} (hguard : guard.IsProper) :
    Header.HidesComments (extraction.merged ⟨.verbose, guard⟩)
        (extraction.merged ⟨.terse, guard⟩) ↔
      ∀ declaration ∈ (extraction.merged ⟨.verbose, guard⟩).declarations,
        declaration.CommentHolds :=
  declarations_hideComments_iff hsorted hguard (List.Subset.refl _)

theorem perClass_hideComments_iff (guard : Guard) :
    List.Forall₂
      (fun commented plain => commented.1 = plain.1 ∧
        (Header.HidesComments commented.2 plain.2 ↔
          ∀ declaration ∈ commented.2.declarations, declaration.CommentHolds))
      (extraction.perClass ⟨.verbose, guard⟩) (extraction.perClass ⟨.terse, guard⟩) := by
  have hproper : ∀ stem, (classGuard guard stem).IsProper := by
    intro stem
    cases guard with
    | pragmaOnce => trivial
    | none | named => exact isIdentifier_includeGuard stem
  rw [perClass_eq, perClass_eq, List.forall₂_map_left_iff, List.forall₂_map_right_iff,
    List.forall₂_same]
  intro stem _
  exact ⟨rfl, declarations_hideComments_iff hsorted (hproper stem) List.filter_sublist.subset⟩

theorem declare_commentHolds
    (hnames : ∀ info ∈ classes, ∀ method ∈ info.nativeMethods,
      ClassFile.isUnqualifiedName method.name)
    {record : NativeMethod} (hrecord : record ∈ extraction.methods) :
    (¬ "*/".toList <:+: record.descriptor.toList → (extraction.declare record).CommentHolds) ∧
      ('\n' ∉ record.descriptor.toList → (extraction.declare record).CommentHolds →
        ¬ "*/".toList <:+: record.descriptor.toList) := by
  obtain ⟨className, method, hmem, hrecords⟩ := hsorted.exists_recorded hrecord
  obtain ⟨info, hinfo, -, hnative⟩ := mem_candidates.mp hmem
  have hname : '/' ∉ record.methodName.toList := by
    rw [hrecords.methodName]
    exact slash_not_mem_of_unqualified (hnames info hinfo method hnative)
  have hslashes : SlashesApart record.descriptor.toList := by
    rw [hrecords.descriptor]
    exact slashesApart_descriptor hrecords.signature
  constructor
  · exact (extraction.declare record).commentHolds_of_unclosed hname
  · exact (extraction.declare record).unclosed_of_commentHolds hname hslashes

end Extraction

variable {σ : Type} {classes : List ClassInfo}

/-- The comments of a header, for the batch or for one class, are nothing but comments exactly if
this is so for the comment of each declaration. It is so where the descriptor does not hold what
closes a comment, and if the descriptor has one line, only there. -/
theorem comments_hide_unless_descriptor_closes_them
    (hnames : ∀ info ∈ classes, ∀ method ∈ info.nativeMethods,
      ClassFile.isUnqualifiedName method.name)
    (oracle : Oracle σ) (state : σ) {extraction : Extraction}
    (hof : (Extraction.of oracle classes state).1 = extraction)
    {guard : Guard} (hguard : guard.IsProper) :
    (Header.HidesComments (extraction.merged ⟨.verbose, guard⟩)
        (extraction.merged ⟨.terse, guard⟩) ↔
      ∀ declaration ∈ (extraction.merged ⟨.verbose, guard⟩).declarations,
        declaration.CommentHolds) ∧
    List.Forall₂
      (fun commented plain => commented.1 = plain.1 ∧
        (Header.HidesComments commented.2 plain.2 ↔
          ∀ declaration ∈ commented.2.declarations, declaration.CommentHolds))
      (extraction.perClass ⟨.verbose, guard⟩) (extraction.perClass ⟨.terse, guard⟩) ∧
    (∀ record ∈ extraction.methods,
      (¬ "*/".toList <:+: record.descriptor.toList → (extraction.declare record).CommentHolds) ∧
      ('\n' ∉ record.descriptor.toList → (extraction.declare record).CommentHolds →
        ¬ "*/".toList <:+: record.descriptor.toList)) ∧
    ((∀ record ∈ extraction.methods, ¬ "*/".toList <:+: record.descriptor.toList) →
      Header.HidesComments (extraction.merged ⟨.verbose, guard⟩)
        (extraction.merged ⟨.terse, guard⟩) ∧
      List.Forall₂
        (fun commented plain =>
          commented.1 = plain.1 ∧ Header.HidesComments commented.2 plain.2)
        (extraction.perClass ⟨.verbose, guard⟩) (extraction.perClass ⟨.terse, guard⟩)) := by
  have hsorted := extraction_sorted oracle classes state
  rw [hof] at hsorted
  have hmerged := Extraction.merged_hidesComments_iff hsorted hguard
  have hperClass := Extraction.perClass_hideComments_iff hsorted guard
  have hrecords : ∀ record ∈ extraction.methods, _ :=
    fun record hrecord => Extraction.declare_commentHolds hsorted hnames hrecord
  refine ⟨hmerged, hperClass, hrecords, ?_⟩
  intro hopen
  have hholds : ∀ methods ⊆ extraction.methods,
      ∀ declaration ∈ extraction.declarations methods, declaration.CommentHolds := by
    intro methods hmethods declaration hdeclaration
    obtain ⟨record, hkept, rfl⟩ := List.mem_map.mp hdeclaration
    have hrecord := hmethods (Extraction.mem_of_mem_firsts hkept).1
    exact (hrecords record hrecord).1 (hopen record hrecord)
  constructor
  · exact hmerged.mpr (hholds _ (List.Subset.refl _))
  · refine List.forall₂_iff_zip.mpr ⟨hperClass.length_eq, fun {commented plain} hmem => ?_⟩
    obtain ⟨hstem, hlaw⟩ := (List.forall₂_iff_zip.mp hperClass).2 hmem
    obtain ⟨-, hheader⟩ := Extraction.mem_perClass_iff.mp (List.of_mem_zip hmem).1
    refine ⟨hstem, hlaw.mpr ?_⟩
    rw [hheader]
    exact hholds _ List.filter_sublist.subset

def starred : ClassInfo where
  name := "p.C"
  superclass := none
  interfaces := []
  isInterface := false
  methods := [⟨"f", "([La*/b;)V", false, true⟩]

theorem tame_comments_are_hidden :
    (∀ info ∈ [overloaded], ∀ method ∈ info.nativeMethods,
      ClassFile.isUnqualifiedName method.name) ∧
    (Guard.named "P_C_H").IsProper ∧
    Header.HidesComments
      ((Extraction.of unrelated [overloaded] ()).1.merged ⟨.verbose, .named "P_C_H"⟩)
      ((Extraction.of unrelated [overloaded] ()).1.merged ⟨.terse, .named "P_C_H"⟩) := by
  have hnames : ∀ info ∈ [overloaded], ∀ method ∈ info.nativeMethods,
      ClassFile.isUnqualifiedName method.name := by decide
  have hguard : (Guard.named "P_C_H").IsProper := by decide
  have hopen : ∀ record ∈ (Extraction.of unrelated [overloaded] ()).1.methods,
      ¬ "*/".toList <:+: record.descriptor.toList := by decide +kernel
  obtain ⟨-, -, -, hhidden⟩ :=
    comments_hide_unless_descriptor_closes_them hnames unrelated () rfl hguard
  exact ⟨hnames, hguard, (hhidden hopen).1⟩

theorem starred_package_leaves_its_comment :
    (∀ info ∈ [starred], ∀ method ∈ info.nativeMethods,
      ClassFile.isUnqualifiedName method.name ∧ ClassFile.isMethodDescriptor method.descriptor) ∧
    "b;)V".toList ∈
      codeLines ((Extraction.of unrelated [starred] ()).1.merged ⟨.verbose, .none⟩).text ∧
    "b;)V".toList ∉
      visibleLines ((Extraction.of unrelated [starred] ()).1.merged ⟨.terse, .none⟩).text ∧
    ¬ Header.HidesComments ((Extraction.of unrelated [starred] ()).1.merged ⟨.verbose, .none⟩)
      ((Extraction.of unrelated [starred] ()).1.merged ⟨.terse, .none⟩) ∧
    ¬ List.Forall₂ (fun commented plain => Header.HidesComments commented.2 plain.2)
      ((Extraction.of unrelated [starred] ()).1.perClass ⟨.verbose, .none⟩)
      ((Extraction.of unrelated [starred] ()).1.perClass ⟨.terse, .none⟩) := by
  decide +kernel

end JniHeaders
