import JniHeaders.Header
import JniHeaders.Proofs.Identifier

/-!
The text of a header, line by line. Where names are identifiers, no line but those of comments
holds a line break or a slash, so the lines can be told apart and no comment begins in one.
-/

namespace JniHeaders

theorem splitOn_append_cons {α : Type} [BEq α] [LawfulBEq α] (separator : α)
    (before after : List α) :
    (before ++ separator :: after).splitOn separator =
      before.splitOn separator ++ after.splitOn separator :=
  List.splitOnP_append_cons _ _ (by simp)

/-- Text that neither ends a line nor has a part in opening or closing a comment. -/
def IsInert (text : String) : Prop := '\n' ∉ text.toList ∧ '/' ∉ text.toList

instance (text : String) : Decidable (IsInert text) :=
  inferInstanceAs (Decidable (_ ∧ _))

theorem isInert_append {first second : String} (hfirst : IsInert first)
    (hsecond : IsInert second) : IsInert (first ++ second) := by
  unfold IsInert
  rw [String.toList_append, List.mem_append, List.mem_append, not_or, not_or]
  exact ⟨⟨hfirst.1, hsecond.1⟩, ⟨hfirst.2, hsecond.2⟩⟩

theorem IsIdentifier.isInert {name : String} (h : IsIdentifier name) : IsInert name :=
  ⟨not_mem_of_forall h.isIdentifierChar_of_mem rfl,
    not_mem_of_forall h.isIdentifierChar_of_mem rfl⟩

theorem NativeType.isAlphanum_cName (type : NativeType) :
    ∀ c ∈ type.cName.toList, c.isAlphanum := by
  cases type <;> exact List.all_eq_true.mp rfl

theorem NativeType.isInert_cName (type : NativeType) : IsInert type.cName :=
  ⟨not_mem_of_forall type.isAlphanum_cName rfl, not_mem_of_forall type.isAlphanum_cName rfl⟩

def Guard.IsProper : Guard → Prop
  | .named name => IsIdentifier name
  | _ => True

instance : (guard : Guard) → Decidable guard.IsProper
  | .named name => inferInstanceAs (Decidable (IsIdentifier name))
  | .none | .pragmaOnce => inferInstanceAs (Decidable True)

def lineText (lines : List String) : List Char := lines.flatMap fun line => line.toList ++ ['\n']

theorem lineText_append (first second : List String) :
    lineText (first ++ second) = lineText first ++ lineText second := List.flatMap_append

theorem splitOn_lineText {lines : List String} (h : ∀ line ∈ lines, '\n' ∉ line.toList) :
    (lineText lines).splitOn '\n' = lines.map String.toList ++ [[]] := by
  induction lines with
  | nil => rfl
  | cons line lines ih =>
    obtain ⟨hline, hlines⟩ := List.forall_mem_cons.mp h
    have hstep : lineText (line :: lines) = line.toList ++ '\n' :: lineText lines := by
      simp [lineText]
    rw [hstep, splitOn_append_cons, List.splitOn_eq_singleton hline, ih hlines]
    rfl

namespace Declaration

theorem isInert_parameterList (declaration : Declaration) :
    IsInert declaration.parameterList := by
  unfold parameterList
  induction declaration.parameters with
  | nil => decide
  | cons parameter parameters ih =>
    have hcomma : IsInert ", " := by decide
    exact isInert_append (isInert_append hcomma parameter.isInert_cName) ih

theorem isInert_prototypeLines {declaration : Declaration} (h : IsInert declaration.symbol) :
    ∀ line ∈ declaration.prototypeLines, IsInert line := by
  have hexport : IsInert "JNIEXPORT " := by decide
  have hcall : IsInert " JNICALL " := by decide
  have hopen : IsInert "  (JNIEnv *, " := by decide
  have hclose : IsInert ");" := by decide
  simp only [prototypeLines, List.forall_mem_cons]
  refine ⟨?_, ?_, by decide, nofun⟩
  · exact isInert_append (isInert_append (isInert_append hexport
      declaration.result.isInert_cName) hcall) h
  · exact isInert_append (isInert_append (isInert_append hopen
      declaration.receiver.isInert_cName) declaration.isInert_parameterList) hclose

end Declaration

namespace Header

theorem text_eq_lineText (header : Header) : header.text = lineText header.lines := rfl

theorem isInert_guardOpening {guard : Guard} (h : guard.IsProper) :
    ∀ line ∈ guardOpening guard, IsInert line := by
  cases guard with
  | none => nofun
  | pragmaOnce => decide
  | named name =>
    have hname : IsInert name := IsIdentifier.isInert h
    have hifndef : IsInert "#ifndef " := by decide
    have hdefine : IsInert "#define " := by decide
    simp only [guardOpening, List.forall_mem_cons]
    exact ⟨isInert_append hifndef hname, isInert_append hdefine hname, nofun⟩

theorem isInert_guardClosing (guard : Guard) : ∀ line ∈ guardClosing guard, IsInert line := by
  cases guard <;> simp only [guardClosing] <;> decide

theorem isInert_languageOpening : ∀ line ∈ languageOpening, IsInert line := by decide

theorem isInert_languageClosing : ∀ line ∈ languageClosing, IsInert line := by decide

end Header

end JniHeaders
