import JniHeaders.Descriptor.Parser

/-!
Class names as segments between dots. A condition on all segments is the same as one pass over
the name that knows whether the current segment has a character yet, which is how names are read.
-/

namespace JniHeaders

def segments (name : String) : List (List Char) := name.toList.splitOn '.'

def LegalName (name : String) : Prop :=
  ∀ segment ∈ segments name, segment ≠ [] ∧ ∀ c ∈ segment, Descriptor.isUnqualified c

instance (name : String) : Decidable (LegalName name) :=
  decidable_of_iff
    ((segments name).all fun segment => !segment.isEmpty && segment.all Descriptor.isUnqualified)
    (by simp [LegalName])

/-- Directly after an underscore such a digit makes an escape of it. -/
def isEscapeDigit (c : Char) : Bool := c = '0' || c = '1' || c = '2' || c = '3'

def opensPlainly : List Char → Bool
  | [] => false
  | c :: _ => !isEscapeDigit c

def PlainName (name : String) : Prop := ∀ segment ∈ segments name, opensPlainly segment

instance (name : String) : Decidable (PlainName name) :=
  inferInstanceAs (Decidable (∀ segment ∈ segments name, opensPlainly segment))

def SegmentOf (opening following : Char → Bool) : List Char → Prop
  | [] => False
  | c :: rest => opening c ∧ ∀ d ∈ rest, following d

/-- One pass over the rest of a name. `fresh` says that the current segment is still empty. -/
def Segmented (opening following : Char → Bool) : Bool → List Char → Prop
  | fresh, [] => fresh = false
  | fresh, c :: rest =>
    if c = '.' then fresh = false ∧ Segmented opening following true rest
    else (if fresh then opening c else following c) ∧ Segmented opening following false rest

variable {opening following : Char → Bool}

theorem Segmented.uncons {fresh : Bool} {c : Char} {rest : List Char}
    (h : Segmented opening following fresh (c :: rest)) :
    (c = '.' ∧ fresh = false ∧ Segmented opening following true rest) ∨
      (c ≠ '.' ∧ (if fresh then opening c else following c) ∧
        Segmented opening following false rest) := by
  rw [Segmented] at h
  by_cases hdot : c = '.'
  · rw [if_pos hdot] at h
    exact Or.inl ⟨hdot, h⟩
  · rw [if_neg hdot] at h
    exact Or.inr ⟨hdot, h⟩

theorem Segmented.dot_or_holds {holds : Char → Bool} {fresh : Bool} {text : List Char}
    (h : Segmented holds holds fresh text) {c : Char} (hc : c ∈ text) : c = '.' ∨ holds c := by
  induction text generalizing fresh with
  | nil => cases hc
  | cons d text ih =>
    rcases h.uncons with ⟨hdot, -, htail⟩ | ⟨-, hd, htail⟩
    · rcases List.mem_cons.mp hc with rfl | hmem
      · exact Or.inl hdot
      · exact ih htail hmem
    · rcases List.mem_cons.mp hc with rfl | hmem
      · exact Or.inr (by simpa using hd)
      · exact ih htail hmem

/-- A pass in the middle of a segment asks less of what is left of it. -/
theorem segmented_iff_splitOn {text first : List Char} {others : List (List Char)}
    (h : text.splitOn '.' = first :: others) :
    (Segmented opening following false text ↔ (∀ c ∈ first, following c) ∧
      ∀ segment ∈ others, SegmentOf opening following segment) ∧
    (Segmented opening following true text ↔ SegmentOf opening following first ∧
      ∀ segment ∈ others, SegmentOf opening following segment) := by
  induction text generalizing first others with
  | nil =>
    obtain ⟨rfl, rfl⟩ : [] = first ∧ [] = others := by simpa using h
    simp [Segmented, SegmentOf]
  | cons c rest ih =>
    obtain ⟨next, later, hrest⟩ := List.exists_cons_of_ne_nil (List.splitOn_ne_nil '.' rest)
    have hih := ih hrest
    rw [List.splitOn_cons_eq_if_modifyHead, hrest] at h
    by_cases hdot : c = '.'
    · obtain ⟨rfl, rfl⟩ : [] = first ∧ next :: later = others := by simpa [hdot] using h
      simp [Segmented, hdot, hih, SegmentOf]
    · obtain ⟨rfl, rfl⟩ : c :: next = first ∧ later = others := by simpa [hdot] using h
      simp [Segmented, hdot, hih, SegmentOf, and_assoc]

theorem segmented_fresh_iff (name : String) :
    Segmented opening following true name.toList ↔
      ∀ segment ∈ segments name, SegmentOf opening following segment := by
  obtain ⟨first, others, h⟩ :=
    List.exists_cons_of_ne_nil (List.splitOn_ne_nil '.' name.toList)
  unfold segments
  rw [(segmented_iff_splitOn h).2, h]
  simp

theorem legalName_iff_segmented (name : String) :
    LegalName name ↔
      Segmented Descriptor.isUnqualified Descriptor.isUnqualified true name.toList := by
  rw [segmented_fresh_iff]
  unfold LegalName
  refine forall₂_congr fun segment _ => ?_
  cases segment with
  | nil => simp [SegmentOf]
  | cons c rest => simp [SegmentOf]

theorem plainName_iff_segmented (name : String) :
    PlainName name ↔
      Segmented (fun c => !isEscapeDigit c) (fun _ => true) true name.toList := by
  rw [segmented_fresh_iff]
  unfold PlainName
  refine forall₂_congr fun segment _ => ?_
  cases segment with
  | nil => simp [SegmentOf, opensPlainly]
  | cons c rest => simp [SegmentOf, opensPlainly]

end JniHeaders
