import JniHeaders.Proofs.DescriptorTexts

/-!
Readers of descriptors never go back. What has decided the answer for a text decides it for every
longer text, and a reader that runs out of characters can be given more and will come to an end.
-/

namespace JniHeaders

namespace Descriptor

structure Committed {α : Type} (read : List Char → Except Stop (α × List Char)) : Prop where
  goes_on : ∀ {text value rest}, read text = .ok (value, rest) →
    ∀ more, read (text ++ more) = .ok (value, rest ++ more)
  stays : ∀ {text}, read text = .error .unexpected →
    ∀ more, read (text ++ more) = .error .unexpected
  completes : ∀ {text}, read text = .error .endOfInput →
    ∃ more value, read (text ++ more) = .ok (value, [])

theorem className_committed (fresh : Bool) : Committed (className fresh) where
  goes_on := by
    intro text name rest h more
    obtain ⟨hname, rfl⟩ := className_sound h
    rw [List.append_assoc]
    exact className_text hname _
  stays := by
    intro text h more
    fun_induction className fresh text with
    | case1 | case2 | case5 | case7 => cases h
    | case3 fresh c rest hc stop found ih =>
      cases h
      simp [className, hc, ih found]
    | case4 c rest hc => simp [className, hc]
    | case6 fresh rest hfresh stop found hslash ih =>
      cases h
      simp [className, hslash, hfresh, ih found]
    | case8 fresh c rest hc hfresh hslash hend => simp [className, hc, hfresh, hslash, hend]
  completes := by
    intro text h
    fun_induction className fresh text with
    | case1 fresh =>
      -- A segment needs a character before the semicolon.
      cases fresh with
      | true => exact ⟨['a', ';'], ['a'], rfl⟩
      | false => exact ⟨[';'], [], rfl⟩
    | case2 | case4 | case5 | case7 | case8 => cases h
    | case3 fresh c rest hc stop found ih =>
      cases h
      obtain ⟨more, name, hread⟩ := ih found
      exact ⟨more, c :: name, by simp [className, hc, hread]⟩
    | case6 fresh rest hfresh stop found hslash ih =>
      cases h
      obtain ⟨more, name, hread⟩ := ih found
      exact ⟨more, '.' :: name, by simp [className, hslash, hfresh, hread]⟩

theorem fieldType_committed : Committed fieldType where
  goes_on := by
    intro text type rest h more
    obtain ⟨hspelled, rfl⟩ := fieldType_sound h
    rw [List.append_assoc]
    exact fieldType_text hspelled _
  stays := by
    intro text h more
    fun_induction fieldType text with
    | case1 | case2 | case4 | case8 => cases h
    | case3 rest stop found ih =>
      cases h
      simp [fieldType, ih found]
    | case5 rest stop found =>
      cases h
      simp [fieldType, (className_committed true).stays found]
    | case6 c rest hbracket hobject hkind => simp [fieldType, hbracket, hobject, hkind]
    | case7 c rest hbracket hobject hkind => simp [fieldType, hbracket, hobject, hkind]
  completes := by
    intro text h
    fun_induction fieldType text with
    | case1 => exact ⟨['I'], .primitive .int, rfl⟩
    | case2 | case4 | case6 | case7 | case8 => cases h
    | case3 rest stop found ih =>
      cases h
      obtain ⟨more, element, hread⟩ := ih found
      exact ⟨more, element.nest, by simp [fieldType, hread]⟩
    | case5 rest stop found =>
      cases h
      obtain ⟨more, name, hread⟩ := (className_committed true).completes found
      exact ⟨more, .object (String.ofList name), by simp [fieldType, hread]⟩

/-- What a type begins with is neither void nor the end of the parameters. -/
theorem head_of_fieldType {text rest : List Char} {type : JavaType}
    (h : fieldType text = .ok (type, rest)) : text.head? ≠ some ')' ∧ text.head? ≠ some 'V' := by
  obtain ⟨hspelled, rfl⟩ := fieldType_sound h
  obtain ⟨c, tail, htext, hclose, hvoid⟩ := text_head hspelled
  simp [htext, hclose, hvoid]

theorem head_append_of_unexpected {text : List Char} (h : fieldType text = .error .unexpected)
    (more : List Char) : (text ++ more).head? = text.head? := by
  cases text with
  | nil => cases h
  | cons c rest => rfl

theorem returnType_of_head {text : List Char} (h : text.head? ≠ some 'V') :
    returnType text = fieldType text := by
  unfold returnType
  split
  · exact absurd rfl h
  · rfl

theorem head_of_returnType_error {text : List Char} {stop : Stop}
    (h : returnType text = .error stop) : text.head? ≠ some 'V' := by
  intro hvoid
  obtain ⟨rest, rfl⟩ := List.head?_eq_some_iff.mp hvoid
  cases h

theorem returnType_committed : Committed returnType where
  goes_on := by
    intro text type rest h more
    obtain ⟨hspelled, rfl⟩ := returnType_sound h
    rw [List.append_assoc]
    exact returnType_text hspelled _
  stays := by
    intro text h more
    have hhead := head_of_returnType_error h
    rw [returnType_of_head hhead] at h
    rw [← head_append_of_unexpected h more] at hhead
    rw [returnType_of_head hhead]
    exact fieldType_committed.stays h more
  completes := by
    intro text h
    rw [returnType_of_head (head_of_returnType_error h)] at h
    obtain ⟨more, type, hread⟩ := fieldType_committed.completes h
    refine ⟨more, type, ?_⟩
    rwa [returnType_of_head (head_of_fieldType hread).2]

theorem parameters_close (rest : List Char) : parameters (')' :: rest) = .ok ([], rest) := by
  rw [parameters, if_pos (by rfl)]
  rfl

theorem parameters_of_error {text : List Char} {stop : Stop} (hhead : text.head? ≠ some ')')
    (h : fieldType text = .error stop) : parameters text = .error stop := by
  rw [parameters, if_neg hhead]
  split
  · rename_i found
    exact congrArg _ (Except.error.inj (found.symm.trans h))
  · rename_i found
    cases found.symm.trans h

theorem parameters_of_ok {text rest : List Char} {type : JavaType}
    (h : fieldType text = .ok (type, rest)) :
    parameters text = (parameters rest).map fun (types, rest) => (type :: types, rest) := by
  rw [parameters, if_neg (head_of_fieldType h).1]
  split
  · rename_i found
    cases found.symm.trans h
  · rename_i found
    cases found.symm.trans h
    cases parameters rest with
    | error stop => rfl
    | ok result => rfl

theorem parameters_committed : Committed parameters where
  goes_on := by
    intro text types rest h more
    obtain ⟨hspelled, rfl⟩ := parameters_sound h
    rw [List.append_assoc, List.cons_append]
    exact parameters_text hspelled _
  stays := by
    intro text h more
    fun_induction parameters text with
    | case1 | case4 => cases h
    | case2 text hhead stop found =>
      cases h
      rw [← head_append_of_unexpected found more] at hhead
      exact parameters_of_error hhead (fieldType_committed.stays found more)
    | case3 text hhead type rest found stop hothers ih =>
      cases h
      rw [parameters_of_ok (fieldType_committed.goes_on found more), ih hothers]
      rfl
  completes := by
    intro text h
    fun_induction parameters text with
    | case1 | case4 => cases h
    | case2 text hhead stop found =>
      cases h
      obtain ⟨more, type, hread⟩ := fieldType_committed.completes found
      refine ⟨more ++ [')'], [type], ?_⟩
      rw [← List.append_assoc, parameters_of_ok (fieldType_committed.goes_on hread [')']),
        List.nil_append, parameters_close]
      rfl
    | case3 text hhead type rest found stop hothers ih =>
      cases h
      obtain ⟨more, types, hread⟩ := ih hothers
      refine ⟨more, type :: types, ?_⟩
      rw [parameters_of_ok (fieldType_committed.goes_on found more), hread]
      rfl

theorem signature_of_parameters_error {text : List Char} {stop : Stop}
    (h : parameters text = .error stop) : signature ('(' :: text) = .error stop := by
  simp [signature, h]

theorem signature_of_parameters {text rest : List Char} {types : List JavaType}
    (h : parameters text = .ok (types, rest)) :
    signature ('(' :: text) =
      (returnType rest).map fun (result, rest) => (⟨types, result⟩, rest) := by
  simp only [signature, if_true, h]
  cases returnType rest with
  | error stop => rfl
  | ok result => rfl

theorem signature_error {text : List Char} {stop : Stop} (h : signature text = .error stop) :
    (text = [] ∧ stop = .endOfInput) ∨
    (∃ c rest, text = c :: rest ∧ c ≠ '(' ∧ stop = .unexpected) ∨
    (∃ rest, text = '(' :: rest ∧ parameters rest = .error stop) ∨
    ∃ rest types last, text = '(' :: rest ∧ parameters rest = .ok (types, last) ∧
      returnType last = .error stop := by
  cases text with
  | nil =>
    cases h
    exact Or.inl ⟨rfl, rfl⟩
  | cons c rest =>
    by_cases hopen : c = '('
    · subst hopen
      refine Or.inr (Or.inr ?_)
      cases hparameters : parameters rest with
      | error cause =>
        rw [signature_of_parameters_error hparameters] at h
        cases h
        exact Or.inl ⟨rest, rfl, hparameters⟩
      | ok result =>
        rw [signature_of_parameters hparameters] at h
        cases hresult : returnType result.2 with
        | error cause =>
          rw [hresult] at h
          cases h
          exact Or.inr ⟨rest, result.1, result.2, rfl, hparameters, hresult⟩
        | ok value =>
          rw [hresult] at h
          cases h
    · simp only [signature, if_neg hopen] at h
      cases h
      exact Or.inr (Or.inl ⟨c, rest, rfl, hopen, rfl⟩)

theorem signature_committed : Committed signature where
  goes_on := by
    intro text sig rest h more
    obtain ⟨hspelled, rfl⟩ := signature_sound h
    rw [List.append_assoc]
    exact signature_text hspelled _
  stays := by
    intro text h more
    rcases signature_error h with ⟨-, hstop⟩ | ⟨c, rest, rfl, hopen, -⟩ | ⟨rest, rfl, hparameters⟩ |
      ⟨rest, types, last, rfl, hparameters, hresult⟩
    · cases hstop
    · simp [signature, hopen]
    · exact signature_of_parameters_error (parameters_committed.stays hparameters more)
    · rw [List.cons_append, signature_of_parameters (parameters_committed.goes_on hparameters more),
        returnType_committed.stays hresult more]
      rfl
  completes := by
    intro text h
    rcases signature_error h with ⟨rfl, -⟩ | ⟨c, rest, -, -, hstop⟩ | ⟨rest, rfl, hparameters⟩ |
      ⟨rest, types, last, rfl, hparameters, hresult⟩
    · refine ⟨['(', ')', 'V'], ⟨[], .primitive .void⟩, ?_⟩
      rw [List.nil_append, signature_of_parameters (parameters_close ['V'])]
      rfl
    · cases hstop
    · obtain ⟨more, types, hread⟩ := parameters_committed.completes hparameters
      refine ⟨more ++ ['V'], ⟨types, .primitive .void⟩, ?_⟩
      rw [List.cons_append, ← List.append_assoc,
        signature_of_parameters (parameters_committed.goes_on hread ['V'])]
      rfl
    · obtain ⟨more, result, hread⟩ := returnType_committed.completes hresult
      refine ⟨more, ⟨types, result⟩, ?_⟩
      rw [List.cons_append, signature_of_parameters (parameters_committed.goes_on hparameters more),
        hread]
      rfl

end Descriptor

end JniHeaders
