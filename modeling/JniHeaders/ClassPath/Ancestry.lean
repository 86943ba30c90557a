import JniHeaders.ClassInfo
import JniHeaders.Error

/-!
Searching the ancestors of a class. The search follows superclasses, and interfaces too where the
ancestor is an interface. It looks at every class once, so it comes to its end on every hierarchy
that names finitely many classes, cyclic or incomplete. The one who looks classes up may remember
them, so a lookup carries a state.
-/

namespace JniHeaders.Ancestry

variable {σ : Type}

/-- The state after a lookup holds also where the lookup fails. -/
abbrev Lookup (σ : Type) := String → σ → Except Error ClassInfo × σ

/-- In certain states, which no lookup leaves, all classes that are found name their parents from
one finite list. -/
structure IsFinite (lookup : Lookup σ) (states : σ → Prop) : Prop where
  closed : ∀ name state, states state → states (lookup name state).2
  parents : ∃ names : List String, ∀ state, states state → ∀ name info,
    (lookup name state).1 = .ok info →
      ∀ parent ∈ info.superclass.toList ++ info.interfaces, parent ∈ names

variable {lookup : Lookup σ} {states : σ → Prop}

theorem isFinite_of_infos (infos : List ClassInfo)
    (closed : ∀ name state, states state → states (lookup name state).2)
    (found : ∀ state, states state → ∀ name info,
      (lookup name state).1 = .ok info → info ∈ infos) : IsFinite lookup states where
  closed := closed
  parents := by
    refine ⟨infos.flatMap fun info => info.superclass.toList ++ info.interfaces, ?_⟩
    intro state within name info answer parent mem
    exact List.mem_flatMap.mpr ⟨info, found state within name info answer, mem⟩

noncomputable def horizon (finite : IsFinite lookup states) (start : String) : List String :=
  start :: Classical.choose finite.parents

def parents (throughInterfaces : Bool) (info : ClassInfo) : List String :=
  info.superclass.toList ++ if throughInterfaces then info.interfaces else []

theorem parents_subset (finite : IsFinite lookup states) (start : String)
    {throughInterfaces : Bool} {name : String} {state : σ} {info : ClassInfo}
    (within : states state) (found : (lookup name state).1 = .ok info) {parent : String}
    (h : parent ∈ parents throughInterfaces info) : parent ∈ horizon finite start := by
  apply List.mem_cons_of_mem
  apply Classical.choose_spec finite.parents state within name info found
  unfold parents at h
  rcases List.mem_append.mp h with h | h
  · exact List.mem_append_left _ h
  · cases throughInterfaces
    · cases h
    · exact List.mem_append_right _ h

def unseen (names seen : List String) : Nat := (names.filter (!seen.contains ·)).length

theorem unseen_cons_lt {names seen : List String} {name : String} (mem : name ∈ names)
    (fresh : name ∉ seen) : unseen names (name :: seen) < unseen names seen := by
  have split : names.filter (!(name :: seen).contains ·) =
      (names.filter (!seen.contains ·)).filter (· ≠ name) := by
    rw [List.filter_filter]
    congr 1
    funext other
    by_cases h : other = name <;> simp [h]
  unfold unseen
  rw [split]
  refine List.length_filter_lt_length_iff_exists.mpr ⟨name, ?_, ?_⟩
  · exact List.mem_filter.mpr ⟨mem, by simpa using fresh⟩
  · simp

def search (lookup : Lookup σ) (finite : IsFinite lookup states) (start ancestor : String)
    (throughInterfaces : Bool) (pending seen : List String) (state : σ) (within : states state)
    (known : ∀ name ∈ pending, name ∈ horizon finite start) : Except Error Bool × σ :=
  match pending with
  | [] => (.ok false, state)
  | name :: rest =>
    if name = ancestor then (.ok true, state)
    else if _fresh : name ∈ seen then
      search lookup finite start ancestor throughInterfaces rest seen state within
        fun other h => known other (List.mem_cons_of_mem _ h)
    else
      have closed := finite.closed name state within
      match found : lookup name state with
      | (.error cause, after) => (.error cause, after)
      | (.ok info, after) =>
        search lookup finite start ancestor throughInterfaces
          ((parents throughInterfaces info).reverse ++ rest) (name :: seen) after
          (by rwa [found] at closed) fun other h =>
            match List.mem_append.mp h with
            | .inl h => parents_subset finite start within (by rw [found]) (List.mem_reverse.mp h)
            | .inr h => known other (List.mem_cons_of_mem _ h)
termination_by (unseen (horizon finite start) seen, pending.length)
decreasing_by
  · exact Prod.Lex.right _ (Nat.lt_succ_self _)
  · exact Prod.Lex.left _ _ (unseen_cons_lt (known name (List.mem_cons_self ..)) _fresh)

/-- Whether a class is the ancestor or inherits from it. The ancestor is looked up first, since it
has to be known whether it is an interface. -/
def isSubclass (lookup : Lookup σ) (finite : IsFinite lookup states) (name ancestor : String)
    (state : σ) (within : states state) : Except Error Bool × σ :=
  if name = ancestor then (.ok true, state)
  else
    have closed := finite.closed ancestor state within
    match found : lookup ancestor state with
    | (.error cause, after) => (.error cause, after)
    | (.ok info, after) =>
      search lookup finite name ancestor info.isInterface [name] [] after
        (by rwa [found] at closed) fun _ h => List.mem_singleton.mp h ▸ List.mem_cons_self ..

end JniHeaders.Ancestry
