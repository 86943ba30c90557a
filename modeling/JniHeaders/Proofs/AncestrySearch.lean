import JniHeaders.ClassPath.Oracle
import JniHeaders.Formats.Standard

/-!
What a search for an ancestor finds. The names it comes upon are those that are reached from the
class along parents, not past the ancestor and not past a class that is not found. The search stops
at the ancestor or at a class that is not found, and otherwise has been everywhere.
-/

namespace JniHeaders.Ancestry

section

variable (answers : String → Except Error ClassInfo) (ancestor : String)
  (throughInterfaces : Bool) (start : String)

inductive Reached : String → Prop where
  | start : Reached start
  | parent {name info parent} : Reached name → name ≠ ancestor → answers name = .ok info →
      parent ∈ parents throughInterfaces info → Reached parent

/-- What is pending has been reached. So has what was seen, and the parents of that have been seen
or are pending. -/
structure Explored (pending seen : List String) : Prop where
  pending_reached : ∀ name ∈ pending, Reached answers ancestor throughInterfaces start name
  seen_reached : ∀ name ∈ seen, Reached answers ancestor throughInterfaces start name
  seen_others : ∀ name ∈ seen, name ≠ ancestor
  seen_closed : ∀ name ∈ seen, ∃ info, answers name = .ok info ∧
    ∀ parent ∈ parents throughInterfaces info, parent ∈ seen ∨ parent ∈ pending
  start_met : start ∈ seen ∨ start ∈ pending

def Justifies : Except Error Bool → Prop
  | .ok true => Reached answers ancestor throughInterfaces start ancestor
  | .ok false => ∀ name, Reached answers ancestor throughInterfaces start name →
      name ≠ ancestor ∧ ∃ info, answers name = .ok info
  | .error cause => ∃ name, Reached answers ancestor throughInterfaces start name ∧
      answers name = .error cause

end

variable {answers : String → Except Error ClassInfo} {ancestor : String}
  {throughInterfaces : Bool} {start : String} {pending seen rest : List String} {name : String}
  {info : ClassInfo}

theorem explored_start : Explored answers ancestor throughInterfaces start [start] [] where
  pending_reached other h := by
    rw [List.mem_singleton.mp h]
    exact .start
  seen_reached other h := by cases h
  seen_others other h := by cases h
  seen_closed other h := by cases h
  start_met := Or.inr List.mem_cons_self

namespace Explored

theorem skip (h : Explored answers ancestor throughInterfaces start (name :: rest) seen)
    (hseen : name ∈ seen) : Explored answers ancestor throughInterfaces start rest seen where
  pending_reached other hother := h.pending_reached other (List.mem_cons_of_mem _ hother)
  seen_reached := h.seen_reached
  seen_others := h.seen_others
  seen_closed other hother := by
    obtain ⟨info, hfound, hparents⟩ := h.seen_closed other hother
    refine ⟨info, hfound, fun parent hparent => ?_⟩
    rcases hparents parent hparent with hold | hpending
    · exact Or.inl hold
    · rcases List.mem_cons.mp hpending with rfl | hrest
      · exact Or.inl hseen
      · exact Or.inr hrest
  start_met := by
    rcases h.start_met with hold | hpending
    · exact Or.inl hold
    · rcases List.mem_cons.mp hpending with hsame | hrest
      · exact Or.inl (hsame ▸ hseen)
      · exact Or.inr hrest

theorem seen_or_pending {other : String} (more : List String)
    (h : other ∈ seen ∨ other ∈ name :: rest) :
    other ∈ name :: seen ∨ other ∈ more ++ rest := by
  rcases h with hold | hpending
  · exact Or.inl (List.mem_cons_of_mem _ hold)
  · rcases List.mem_cons.mp hpending with rfl | hrest
    · exact Or.inl List.mem_cons_self
    · exact Or.inr (List.mem_append_right _ hrest)

theorem visit (h : Explored answers ancestor throughInterfaces start (name :: rest) seen)
    (hother : name ≠ ancestor) (hfound : answers name = .ok info) :
    Explored answers ancestor throughInterfaces start
      ((parents throughInterfaces info).reverse ++ rest) (name :: seen) := by
  have hreached := h.pending_reached name List.mem_cons_self
  constructor
  · intro other hpending
    rcases List.mem_append.mp hpending with hparent | hrest
    · exact .parent hreached hother hfound (List.mem_reverse.mp hparent)
    · exact h.pending_reached other (List.mem_cons_of_mem _ hrest)
  · intro other hseen
    rcases List.mem_cons.mp hseen with rfl | hold
    · exact hreached
    · exact h.seen_reached other hold
  · intro other hseen
    rcases List.mem_cons.mp hseen with rfl | hold
    · exact hother
    · exact h.seen_others other hold
  · intro other hseen
    rcases List.mem_cons.mp hseen with rfl | hold
    · refine ⟨info, hfound, fun parent hparent => Or.inr ?_⟩
      exact List.mem_append_left _ (List.mem_reverse.mpr hparent)
    · obtain ⟨info', hfound', hparents⟩ := h.seen_closed other hold
      exact ⟨info', hfound', fun parent hparent =>
        seen_or_pending _ (hparents parent hparent)⟩
  · exact seen_or_pending _ h.start_met

/-- Where nothing is pending, everything that is reached has been seen. -/
theorem seen_of_reached (h : Explored answers ancestor throughInterfaces start [] seen)
    (hreached : Reached answers ancestor throughInterfaces start name) : name ∈ seen := by
  induction hreached with
  | start =>
    rcases h.start_met with hseen | hpending
    · exact hseen
    · cases hpending
  | parent _ _ hfound hparent ih =>
    obtain ⟨info', hfound', hparents⟩ := h.seen_closed _ ih
    rw [hfound] at hfound'
    cases hfound'
    rcases hparents _ hparent with hseen | hpending
    · exact hseen
    · cases hpending

end Explored

section

variable {σ : Type} {states : σ → Prop} {lookup : Lookup σ} (finite : IsFinite lookup states)
  (hanswers : ∀ state, states state → ∀ name, (lookup name state).1 = answers name)
include hanswers

theorem search_justifies {state : σ} (within : states state)
    (known : ∀ name ∈ pending, name ∈ horizon finite start)
    (h : Explored answers ancestor throughInterfaces start pending seen) :
    Justifies answers ancestor throughInterfaces start
      (search lookup finite start ancestor throughInterfaces pending seen state within known).1 := by
  fun_induction search lookup finite start ancestor throughInterfaces pending seen state within
    known with
  | case1 =>
    intro name hreached
    have hseen := h.seen_of_reached hreached
    obtain ⟨info, hfound, -⟩ := h.seen_closed name hseen
    exact ⟨h.seen_others name hseen, info, hfound⟩
  | case2 => exact h.pending_reached ancestor List.mem_cons_self
  | case3 seen state within name rest known hother hseen _ ih => exact ih (h.skip hseen)
  | case4 seen state within name rest known hother hfresh _ cause after hlookup =>
    have hfailed := hanswers state within name
    rw [hlookup] at hfailed
    exact ⟨name, h.pending_reached name List.mem_cons_self, hfailed.symm⟩
  | case5 seen state within name rest known hother hfresh closed info after hlookup _ ih =>
    have hfound := hanswers state within name
    rw [hlookup] at hfound
    exact ih (h.visit hother hfound.symm)

theorem isSubclass_justifies {state : σ} (within : states state) (hother : name ≠ ancestor)
    (hancestor : answers ancestor = .ok info) :
    Justifies answers ancestor info.isInterface name
      (isSubclass lookup finite name ancestor state within).1 := by
  have hlookup := hanswers state within ancestor
  unfold isSubclass
  rw [if_neg hother]
  split
  · rename_i cause after found
    rw [found, hancestor] at hlookup
    cases hlookup
  · rename_i info' after found
    rw [found, hancestor] at hlookup
    cases hlookup
    exact search_justifies finite hanswers _ _ explored_start

theorem isSubclass_of_ancestor_error {state : σ} (within : states state) (hother : name ≠ ancestor)
    {cause : Error} (hancestor : answers ancestor = .error cause) :
    (isSubclass lookup finite name ancestor state within).1 = .error cause := by
  have hlookup := hanswers state within ancestor
  unfold isSubclass
  rw [if_neg hother]
  split
  · rename_i cause' after found
    rw [found, hancestor] at hlookup
    cases hlookup
    rfl
  · rename_i info after found
    rw [found, hancestor] at hlookup
    cases hlookup

end

namespace Justifies

variable {verdict : Except Error Bool}

theorem false_iff (h : Justifies answers ancestor throughInterfaces start verdict) :
    verdict = .ok false ↔ ¬ Reached answers ancestor throughInterfaces start ancestor ∧
      ∀ name, Reached answers ancestor throughInterfaces start name →
        ∃ info, answers name = .ok info := by
  constructor
  · rintro rfl
    exact ⟨fun hreached => (h ancestor hreached).1 rfl, fun name hreached => (h name hreached).2⟩
  · rintro ⟨hunreached, hresolves⟩
    match verdict, h with
    | .ok true, hreached => exact absurd hreached hunreached
    | .ok false, _ => rfl
    | .error cause, ⟨name, hreached, hfailed⟩ =>
      obtain ⟨info, hfound⟩ := hresolves name hreached
      rw [hfound] at hfailed
      cases hfailed

theorem decides (h : Justifies answers ancestor throughInterfaces start verdict)
    (hancestor : answers ancestor = .ok info)
    (hresolves : ∀ name, Reached answers ancestor throughInterfaces start name →
      name ≠ ancestor → ∃ info, answers name = .ok info) :
    ∃ found, verdict = .ok found ∧
      (found = true ↔ Reached answers ancestor throughInterfaces start ancestor) := by
  match verdict, h with
  | .ok true, hreached => exact ⟨true, rfl, fun _ => hreached, fun _ => rfl⟩
  | .ok false, hall =>
    refine ⟨false, rfl, fun hfound => ?_, fun hreached => ?_⟩
    · cases hfound
    · exact absurd rfl (hall ancestor hreached).1
  | .error cause, ⟨name, hreached, hfailed⟩ =>
    by_cases hsame : name = ancestor
    · rw [hsame, hancestor] at hfailed
      cases hfailed
    · obtain ⟨info', hfound⟩ := hresolves name hreached hsame
      rw [hfound] at hfailed
      cases hfailed

end Justifies

end JniHeaders.Ancestry

namespace JniHeaders.ClassPath

section

variable [Formats]

/-- The names that are reached from a class on the way to an ancestor, by way of interfaces too if
the ancestor is one. -/
def Reaches (tree : FileTree) (path : ClassPath) (start ancestor name : String) : Prop :=
  ∃ info, path.answer tree ancestor = .ok info ∧
    Ancestry.Reached (path.answer tree) ancestor info.isInterface start name

theorem resolve_of_same_answers {tree : FileTree} {path : ClassPath} (other : ClassPath)
    (h : other.answer tree = path.answer tree) (name : String) :
    (other.resolve tree name).1 = path.answer tree name := by
  rw [← h]
  rfl

/-- The search always comes to an answer, since it is a total function, and the answer is the right
one or the error of a class that it needs. -/
theorem isSubclass_follows_reachable_classes (tree : FileTree) (path : ClassPath)
    (name ancestor : String) :
    (name = ancestor → (isSubclass tree name ancestor path).1 = .ok true) ∧
    (name ≠ ancestor → ∀ cause, path.answer tree ancestor = .error cause →
      (isSubclass tree name ancestor path).1 = .error cause) ∧
    (name ≠ ancestor → (∃ info, path.answer tree ancestor = .ok info) →
      ((isSubclass tree name ancestor path).1 = .ok true →
        path.Reaches tree name ancestor ancestor) ∧
      ((isSubclass tree name ancestor path).1 = .ok false ↔
        ¬ path.Reaches tree name ancestor ancestor ∧
          ∀ other, path.Reaches tree name ancestor other →
            ∃ info, path.answer tree other = .ok info) ∧
      (∀ cause, (isSubclass tree name ancestor path).1 = .error cause →
        ∃ other, path.Reaches tree name ancestor other ∧
          path.answer tree other = .error cause) ∧
      ((∀ other, path.Reaches tree name ancestor other → other ≠ ancestor →
          ∃ info, path.answer tree other = .ok info) →
        ∃ found, (isSubclass tree name ancestor path).1 = .ok found ∧
          (found = true ↔ path.Reaches tree name ancestor ancestor))) := by
  refine ⟨?_, ?_, ?_⟩
  · rintro rfl
    unfold isSubclass Ancestry.isSubclass
    rw [if_pos rfl]
  · intro hother cause hancestor
    exact Ancestry.isSubclass_of_ancestor_error (path.isFinite tree) resolve_of_same_answers rfl
      hother hancestor
  · rintro hother ⟨info, hancestor⟩
    have hverdict : Ancestry.Justifies (path.answer tree) ancestor info.isInterface name
        (isSubclass tree name ancestor path).1 :=
      Ancestry.isSubclass_justifies (path.isFinite tree) resolve_of_same_answers rfl hother
        hancestor
    have hreaches : ∀ other, path.Reaches tree name ancestor other ↔
        Ancestry.Reached (path.answer tree) ancestor info.isInterface name other := by
      intro other
      constructor
      · rintro ⟨info', hancestor', hreached⟩
        rw [hancestor] at hancestor'
        cases hancestor'
        exact hreached
      · intro hreached
        exact ⟨info, hancestor, hreached⟩
    simp only [hreaches]
    refine ⟨?_, hverdict.false_iff, ?_, hverdict.decides hancestor⟩
    · intro htrue
      rwa [htrue] at hverdict
    · intro cause hfailed
      rwa [hfailed] at hverdict

end

def circle : ClassPath :=
  ⟨[], true, [("p.A", .found ⟨"p.A", some "p.B", [], false, []⟩),
    ("p.B", .found ⟨"p.B", some "p.A", [], false, []⟩)]⟩

theorem circle_is_left :
    "p.A" ≠ "java.lang.String" ∧
    (∃ info, circle.answer .empty "java.lang.String" = .ok info) ∧
    (isSubclass .empty "p.A" "java.lang.String" circle).1 = .ok false := by
  have hfound : ∃ info, circle.answer .empty "java.lang.String" = .ok info := ⟨_, rfl⟩
  have hwithin : ∀ other, circle.Reaches .empty "p.A" "java.lang.String" other →
      other = "p.A" ∨ other = "p.B" := by
    rintro other ⟨info, hancestor, hreached⟩
    cases hancestor
    induction hreached with
    | start => exact Or.inl rfl
    | parent _ _ hclass hparent ih =>
      rcases ih with rfl | rfl
      · cases hclass
        exact Or.inr (List.mem_singleton.mp hparent)
      · cases hclass
        exact Or.inl (List.mem_singleton.mp hparent)
  refine ⟨by decide, hfound, ?_⟩
  obtain ⟨-, -, hsearch⟩ :=
    isSubclass_follows_reachable_classes .empty circle "p.A" "java.lang.String"
  refine (hsearch (by decide) hfound).2.1.mpr ⟨?_, ?_⟩
  · intro hreached
    rcases hwithin _ hreached with h | h <;> revert h <;> decide
  · intro other hreached
    rcases hwithin other hreached with rfl | rfl
    · exact ⟨_, rfl⟩
    · exact ⟨_, rfl⟩

end JniHeaders.ClassPath
