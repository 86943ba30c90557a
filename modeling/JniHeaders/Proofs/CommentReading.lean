import JniHeaders.Proofs.HeaderText

/-!
Text with comments. It is read from left to right, inside or outside of a comment, and a line break
changes neither, so a text can be read piece by piece.
-/

namespace JniHeaders

/-- A text without its comments. `inside` says whether one is open where the text begins. One that
is not closed goes on to the end. -/
def withoutComments : Bool → List Char → List Char
  | false, '/' :: '*' :: rest => withoutComments true rest
  | true, '*' :: '/' :: rest => withoutComments false rest
  | false, c :: rest => c :: withoutComments false rest
  | true, _ :: rest => withoutComments true rest
  | _, [] => []

def endsInComment : Bool → List Char → Bool
  | false, '/' :: '*' :: rest => endsInComment true rest
  | true, '*' :: '/' :: rest => endsInComment false rest
  | inside, _ :: rest => endsInComment inside rest
  | inside, [] => inside

def visibleLines (text : List Char) : List (List Char) := (text.splitOn '\n').filter (· ≠ [])

def codeLines (text : List Char) : List (List Char) := visibleLines (withoutComments false text)

theorem append_cons_ne {c d : Char} (hne : c ≠ d) {text after : List Char}
    (h : ∀ tail, text ≠ d :: tail) (tail : List Char) : text ++ c :: after ≠ d :: tail := by
  intro hsame
  cases text with
  | nil => exact hne (List.cons.inj hsame).1
  | cons e text =>
    obtain ⟨rfl, -⟩ := List.cons.inj hsame
    exact h text rfl

section

variable {c : Char} (hslash : c ≠ '/') (hstar : c ≠ '*')
include hslash hstar

theorem withoutComments_cons (inside : Bool) (rest : List Char) :
    withoutComments inside (c :: rest) =
      (if inside then [] else [c]) ++ withoutComments inside rest := by
  cases inside with
  | false => rw [withoutComments] <;> simp_all
  | true => rw [withoutComments] <;> simp_all

/-- Reading can be stopped before a character that has no part in opening or closing a comment. -/
theorem withoutComments_append (inside : Bool) (before after : List Char) :
    withoutComments inside (before ++ c :: after) =
      withoutComments inside before ++
        withoutComments (endsInComment inside before) (c :: after) := by
  fun_induction withoutComments inside before with
  | case1 rest ih => simpa [withoutComments, endsInComment] using ih
  | case2 rest ih => simpa [withoutComments, endsInComment] using ih
  | case3 d rest hopen ih =>
    have hends : endsInComment false (d :: rest) = endsInComment false rest := by
      rw [endsInComment] <;> simp_all
    rw [hends, List.cons_append, withoutComments, ih, List.cons_append]
    rintro tail rfl hrest
    exact append_cons_ne hstar (fun tail => hopen tail rfl) tail hrest
  | case4 d rest hclose ih =>
    have hends : endsInComment true (d :: rest) = endsInComment true rest := by
      rw [endsInComment] <;> simp_all
    rw [hends, List.cons_append, withoutComments, ih]
    rintro tail rfl hrest
    exact append_cons_ne hslash (fun tail => hclose tail rfl) tail hrest
  | case5 inside => cases inside <;> rfl

theorem endsInComment_append (inside : Bool) (before after : List Char) :
    endsInComment inside (before ++ c :: after) =
      endsInComment (endsInComment inside before) (c :: after) := by
  fun_induction endsInComment inside before with
  | case1 rest ih => simpa [endsInComment] using ih
  | case2 rest ih => simpa [endsInComment] using ih
  | case3 inside d rest hopen hclose ih =>
    rw [List.cons_append, endsInComment, ih]
    · rintro tail rfl rfl hrest
      exact append_cons_ne hstar (fun tail => hopen tail rfl rfl) tail hrest
    · rintro tail rfl rfl hrest
      exact append_cons_ne hslash (fun tail => hclose tail rfl rfl) tail hrest
  | case4 inside => rfl

end

theorem withoutComments_of_not_mem {text : List Char} (h : '/' ∉ text) (inside : Bool) :
    withoutComments inside text = if inside then [] else text := by
  fun_induction withoutComments inside text with
  | case1 rest ih => simp at h
  | case2 rest ih => simp at h
  | case3 c rest hopen ih => simpa using ih (List.not_mem_of_not_mem_cons h)
  | case4 c rest hclose ih => simpa using ih (List.not_mem_of_not_mem_cons h)
  | case5 inside => simp

theorem endsInComment_of_not_mem {text : List Char} (h : '/' ∉ text) (inside : Bool) :
    endsInComment inside text = inside := by
  fun_induction endsInComment inside text with
  | case1 rest ih => simp at h
  | case2 rest ih => simp at h
  | case3 inside c rest hopen hclose ih => exact ih (List.not_mem_of_not_mem_cons h)
  | case4 inside => rfl

theorem comment_goes_on {text : List Char} (h : ¬ "*/".toList <:+: text) :
    withoutComments true text = [] ∧ endsInComment true text = true := by
  induction text with
  | nil => exact ⟨rfl, rfl⟩
  | cons c text ih =>
    have hrest : ¬ "*/".toList <:+: text := fun hin =>
      h (hin.trans (List.suffix_cons c text).isInfix)
    have hclose : ∀ tail, c = '*' → text ≠ '/' :: tail := by
      rintro tail rfl rfl
      exact h ⟨[], tail, rfl⟩
    rw [withoutComments, endsInComment]
    · exact ih hrest
    · nofun
    · exact fun tail _ => hclose tail
    · exact hclose

theorem visibleLines_append_break (before after : List Char) :
    visibleLines (before ++ '\n' :: after) = visibleLines before ++ visibleLines after := by
  simp [visibleLines, splitOn_append_cons]

theorem visibleLines_lineText_append (lines : List String) (rest : List Char) :
    visibleLines (lineText lines ++ rest) = visibleLines (lineText lines) ++ visibleLines rest := by
  induction lines with
  | nil => rfl
  | cons line lines ih =>
    have hstep : ∀ tail, lineText (line :: lines) ++ tail =
        line.toList ++ '\n' :: (lineText lines ++ tail) := by
      simp [lineText]
    have hline := hstep []
    rw [List.append_nil, List.append_nil] at hline
    rw [hstep, hline, visibleLines_append_break, visibleLines_append_break, ih, List.append_assoc]

theorem visibleLines_ne_nil {c : Char} (h : c ≠ '\n') (tail : List Char) :
    visibleLines (c :: tail) ≠ [] := by
  obtain ⟨first, others, hsplit⟩ := List.exists_cons_of_ne_nil (List.splitOn_ne_nil '\n' tail)
  rw [visibleLines, List.splitOn_cons_eq_if_modifyHead, hsplit]
  simp [h]

theorem codeLines_append_break {before : List Char} (h : endsInComment false before = false)
    (after : List Char) :
    codeLines (before ++ '\n' :: after) = codeLines before ++ codeLines after := by
  have hslash : '\n' ≠ '/' := by decide
  have hstar : '\n' ≠ '*' := by decide
  rw [codeLines, withoutComments_append hslash hstar, h, withoutComments_cons hslash hstar]
  exact visibleLines_append_break _ _

theorem codeLines_lineText_append {lines : List String} (h : ∀ line ∈ lines, IsInert line)
    (rest : List Char) :
    codeLines (lineText lines ++ rest) = visibleLines (lineText lines) ++ codeLines rest := by
  induction lines with
  | nil => rfl
  | cons line lines ih =>
    obtain ⟨⟨-, hline⟩, hlines⟩ := List.forall_mem_cons.mp h
    have hstep : lineText (line :: lines) = line.toList ++ '\n' :: lineText lines := by
      simp [lineText]
    rw [hstep, List.append_assoc, List.cons_append,
      codeLines_append_break (endsInComment_of_not_mem hline false), ih hlines,
      visibleLines_append_break, List.append_assoc, codeLines,
      withoutComments_of_not_mem hline false]
    rfl

theorem codeLines_lineText {lines : List String} (h : ∀ line ∈ lines, IsInert line) :
    codeLines (lineText lines) = visibleLines (lineText lines) := by
  have hnothing : codeLines [] = [] := rfl
  have hlines := codeLines_lineText_append h []
  rwa [List.append_nil, hnothing, List.append_nil] at hlines

end JniHeaders
