import JniHeaders.ClassPath.Library
import JniHeaders.ClassPath.Oracle

/-!
Runs of a class path: what is done to it, what it is asked, and files that change meanwhile. Two
who answer lookups alike answer all questions alike, whatever they remember, because a question
comes to nothing but lookups.
-/

namespace JniHeaders

variable {σ τ α β : Type}

/-- Takes one step after the other and gives the answers. -/
def runAll (step : α → σ → β × σ) : List α → σ → List β × σ
  | [], state => ([], state)
  | action :: actions, state =>
    let (answer, state) := step action state
    let (answers, state) := runAll step actions state
    (answer :: answers, state)

theorem runAll_cons_eq_iff {step : α → σ → β × σ} {action : α} {actions : List α} {answer : β}
    {answers : List β} {state last : σ} :
    runAll step (action :: actions) state = (answer :: answers, last) ↔
      ∃ between, step action state = (answer, between) ∧
        runAll step actions between = (answers, last) := by
  rw [runAll]
  constructor
  · intro h
    cases h
    exact ⟨_, rfl, rfl⟩
  · rintro ⟨between, hfirst, hrest⟩
    rw [hfirst]
    simp only [hrest]

theorem runAll_append (step : α → σ → β × σ) (actions others : List α) (state : σ) :
    (runAll step (actions ++ others) state).2 =
      (runAll step others (runAll step actions state).2).2 := by
  induction actions generalizing state with
  | nil => rfl
  | cons action actions ih => exact ih (step action state).2

/-- From states that are held to be the same, both give one answer and come to states that are
held to be the same again. -/
def Alike (same : σ → τ → Prop) (run : σ → α × σ) (other : τ → α × τ) : Prop :=
  ∀ state state', same state state' →
    (run state).1 = (other state').1 ∧ same (run state).2 (other state').2

theorem alike_self_iff {holds : σ → Prop} {run : σ → α × σ} :
    Alike (fun a b => a = b ∧ holds a) run run ↔ ∀ state, holds state → holds (run state).2 := by
  constructor
  · intro h state hstate
    exact (h state state ⟨rfl, hstate⟩).2.2
  · rintro h state _ ⟨rfl, hstate⟩
    exact ⟨rfl, rfl, h state hstate⟩

theorem runAll_alike {same : σ → τ → Prop} {step : α → σ → β × σ} {other : α → τ → β × τ}
    (h : ∀ action, Alike same (step action) (other action)) (actions : List α) :
    Alike same (runAll step actions) (runAll other actions) := by
  induction actions with
  | nil =>
    intro state state' hsame
    exact ⟨rfl, hsame⟩
  | cons action actions ih =>
    intro state state' hsame
    obtain ⟨hanswer, hafter⟩ := h action state state' hsame
    obtain ⟨hanswers, hend⟩ := ih _ _ hafter
    simp only [runAll, hanswer, hanswers]
    exact ⟨trivial, hend⟩

theorem runAll_keeps {holds : σ → Prop} {step : α → σ → β × σ}
    (h : ∀ action state, holds state → holds (step action state).2) (actions : List α)
    {state : σ} (hstate : holds state) : holds (runAll step actions state).2 := by
  induction actions generalizing state with
  | nil => exact hstate
  | cons action actions ih => exact ih (h action state hstate)

namespace Ancestry

variable {same : σ → τ → Prop} {states : σ → Prop} {states' : τ → Prop} {lookup : Lookup σ}
  {lookup' : Lookup τ} (finite : IsFinite lookup states) (finite' : IsFinite lookup' states')
  (halike : ∀ name, Alike same (lookup name) (lookup' name))
include halike

theorem search_alike {start ancestor : String} {throughInterfaces : Bool}
    {pending seen : List String} {state : σ} {state' : τ} (within : states state)
    (within' : states' state') (known : ∀ name ∈ pending, name ∈ horizon finite start)
    (known' : ∀ name ∈ pending, name ∈ horizon finite' start) (hsame : same state state') :
    (search lookup finite start ancestor throughInterfaces pending seen state within known).1 =
      (search lookup' finite' start ancestor throughInterfaces pending seen state' within'
        known').1 ∧
    same
      (search lookup finite start ancestor throughInterfaces pending seen state within known).2
      (search lookup' finite' start ancestor throughInterfaces pending seen state' within'
        known').2 := by
  fun_induction search lookup finite start ancestor throughInterfaces pending seen state within
    known generalizing state' with
  | case1 =>
    rw [search]
    exact ⟨rfl, hsame⟩
  | case2 =>
    rw [search, if_pos rfl]
    exact ⟨rfl, hsame⟩
  | case3 seen state within name rest known hother hseen _ ih =>
    rw [search, if_neg hother, dif_pos hseen]
    exact ih _ _ hsame
  | case4 seen state within name rest known hother hfresh _ cause after hlookup =>
    obtain ⟨hanswer, hafter⟩ := halike name _ _ hsame
    rw [hlookup] at hanswer hafter
    rw [search, if_neg hother, dif_neg hfresh]
    split
    · rename_i hlookup'
      rw [hlookup'] at hanswer hafter
      cases hanswer
      exact ⟨rfl, hafter⟩
    · rename_i hlookup'
      rw [hlookup'] at hanswer
      cases hanswer
  | case5 seen state within name rest known hother hfresh _ info after hlookup _ ih =>
    obtain ⟨hanswer, hafter⟩ := halike name _ _ hsame
    rw [hlookup] at hanswer hafter
    rw [search, if_neg hother, dif_neg hfresh]
    split
    · rename_i hlookup'
      rw [hlookup'] at hanswer
      cases hanswer
    · rename_i hlookup'
      rw [hlookup'] at hanswer hafter
      cases hanswer
      exact ih _ _ hafter

theorem isSubclass_alike {name ancestor : String} {state : σ} {state' : τ}
    (within : states state) (within' : states' state') (hsame : same state state') :
    (isSubclass lookup finite name ancestor state within).1 =
      (isSubclass lookup' finite' name ancestor state' within').1 ∧
    same (isSubclass lookup finite name ancestor state within).2
      (isSubclass lookup' finite' name ancestor state' within').2 := by
  obtain ⟨hanswer, hafter⟩ := halike ancestor _ _ hsame
  unfold isSubclass
  by_cases hself : name = ancestor
  · rw [if_pos hself, if_pos hself]
    exact ⟨rfl, hsame⟩
  · rw [if_neg hself, if_neg hself]
    split <;> rename_i hlookup <;> split <;> rename_i hlookup' <;>
      rw [hlookup, hlookup'] at hanswer hafter <;> cases hanswer
    · exact ⟨rfl, hafter⟩
    · exact search_alike finite finite' halike _ _ _ _ hafter

end Ancestry

theorem Ancestry.isSubclass_keeps {holds states : σ → Prop} {lookup : Lookup σ}
    (finite : IsFinite lookup states)
    (hlookup : ∀ name state, holds state → holds (lookup name state).2) {name ancestor : String}
    {state : σ} (within : states state) (hstate : holds state) :
    holds (isSubclass lookup finite name ancestor state within).2 := by
  have halike := fun name => alike_self_iff.mpr (hlookup name)
  exact (isSubclass_alike finite finite halike within within ⟨rfl, hstate⟩).2.2

theorem classifyObject_alike {same : σ → τ → Prop} {oracle : Oracle σ} {other : Oracle τ}
    (h : ∀ name ancestor, Alike same (oracle name ancestor) (other name ancestor)) (name : String)
    (candidates : List (String × NativeType)) :
    Alike same (classifyObject oracle name candidates) (classifyObject other name candidates) := by
  induction candidates with
  | nil =>
    intro state state' hsame
    exact ⟨rfl, hsame⟩
  | cons candidate candidates ih =>
    intro state state' hsame
    obtain ⟨ancestor, native⟩ := candidate
    obtain ⟨hanswer, hafter⟩ := h name ancestor state state' hsame
    unfold classifyObject
    split <;> rename_i hrun <;> split <;> rename_i hrun' <;>
      rw [hrun, hrun'] at hanswer hafter <;> cases hanswer
    · exact ⟨rfl, hafter⟩
    · exact ⟨rfl, hafter⟩
    · exact ih _ _ hafter

theorem classify_alike {same : σ → τ → Prop} {oracle : Oracle σ} {other : Oracle τ}
    (h : ∀ name ancestor, Alike same (oracle name ancestor) (other name ancestor))
    (type : JavaType) : Alike same (classify oracle type) (classify other type) := by
  intro state state' hsame
  unfold classify
  split
  · exact ⟨rfl, hsame⟩
  · exact ⟨rfl, hsame⟩
  · exact ⟨rfl, hsame⟩
  · exact classifyObject_alike h _ _ state state' hsame

inductive Query where
  | resolve (name : String)
  | isSubclass (name ancestor : String)
  | classify (type : JavaType)

/-- What is done to a class path, and how the files change. -/
inductive Preparation where
  | insert (info : ClassInfo)
  | push (entry : String)
  | pushJavaHome (home : String)
  | withoutPlatformStubs
  | change (files : FileTree)

inductive Step where
  | prepare (preparation : Preparation)
  | ask (query : Query)

inductive Answer where
  | done
  | inserted (isNew : Bool)
  | pushed (result : Except Error Unit)
  | library (result : Reported Nat)
  | found (result : Except Error ClassInfo)
  | related (result : Except Error Bool)
  | classified (result : Except Error NativeType)

def Query.ask (lookup : Ancestry.Lookup σ) (oracle : Oracle σ) : Query → σ → Answer × σ
  | .resolve name, state =>
    let (result, state) := lookup name state
    (.found result, state)
  | .isSubclass name ancestor, state =>
    let (result, state) := oracle name ancestor state
    (.related result, state)
  | .classify type, state =>
    let (result, state) := JniHeaders.classify oracle type state
    (.classified result, state)

theorem Query.ask_alike {same : σ → τ → Prop} {lookup : Ancestry.Lookup σ}
    {lookup' : Ancestry.Lookup τ} {oracle : Oracle σ} {oracle' : Oracle τ}
    (hlookup : ∀ name, Alike same (lookup name) (lookup' name))
    (horacle : ∀ name ancestor, Alike same (oracle name ancestor) (oracle' name ancestor))
    (query : Query) : Alike same (query.ask lookup oracle) (query.ask lookup' oracle') := by
  intro state state' hsame
  cases query with
  | resolve name =>
    obtain ⟨hanswer, hafter⟩ := hlookup name state state' hsame
    exact ⟨congrArg Answer.found hanswer, hafter⟩
  | isSubclass name ancestor =>
    obtain ⟨hanswer, hafter⟩ := horacle name ancestor state state' hsame
    exact ⟨congrArg Answer.related hanswer, hafter⟩
  | classify type =>
    obtain ⟨hanswer, hafter⟩ := classify_alike horacle type state state' hsame
    exact ⟨congrArg Answer.classified hanswer, hafter⟩

theorem Query.ask_keeps {holds : σ → Prop} {lookup : Ancestry.Lookup σ} {oracle : Oracle σ}
    (hlookup : ∀ name state, holds state → holds (lookup name state).2)
    (horacle : ∀ name ancestor state, holds state → holds (oracle name ancestor state).2)
    (query : Query) {state : σ} (hstate : holds state) :
    holds (query.ask lookup oracle state).2 := by
  have hlookup' := fun name => alike_self_iff.mpr (hlookup name)
  have horacle' := fun name ancestor => alike_self_iff.mpr (horacle name ancestor)
  exact alike_self_iff.mp (query.ask_alike hlookup' horacle') state hstate

variable [Formats]

def ClassPath.ask (files : FileTree) (query : Query) (path : ClassPath) : Answer × ClassPath :=
  query.ask (fun name path => path.resolve files name) (ClassPath.isSubclass files) path

structure World where
  files : FileTree
  path : ClassPath

namespace World

def start (files : FileTree) : World := ⟨files, .empty⟩

/-- An entry that can't be opened is left out. -/
def prepare : Preparation → World → Answer × World
  | .insert info, world =>
    let (isNew, path) := world.path.insert info
    (.inserted isNew, { world with path := path })
  | .push entry, world =>
    match world.path.push world.files entry with
    | .error cause => (.pushed (.error cause), world)
    | .ok path => (.pushed (.ok ()), { world with path := path })
  | .pushJavaHome home, world =>
    let (result, path) := world.path.pushJavaHome world.files home
    (.library result, { world with path := path })
  | .withoutPlatformStubs, world => (.done, { world with path := world.path.withoutPlatformStubs })
  | .change files, world => (.done, { world with files := files })

def ask (query : Query) (world : World) : Answer × World :=
  let (answer, path) := world.path.ask world.files query
  (answer, { world with path := path })

def step : Step → World → Answer × World
  | .prepare preparation, world => world.prepare preparation
  | .ask query, world => world.ask query

end World

end JniHeaders
