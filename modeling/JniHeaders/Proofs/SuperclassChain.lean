import JniHeaders.Proofs.AncestrySearch
import JniHeaders.Proofs.LookupRuns

/-!
The native type of a reference. It is decided by the classes that follow from one superclass to the
next, until there is none, one comes again, or one can't be found. A question for a class is
answered by this chain alone, and the three questions that are asked meet the same chain.
-/

namespace JniHeaders

namespace Ancestry

inductive ChainEnd where
  | top
  | again
  | unresolved (cause : Error)
  deriving DecidableEq, Repr

/-- The classes from one on along superclasses, where some were passed before. -/
inductive Climbs (answers : String → Except Error ClassInfo) :
    List String → String → List String → ChainEnd → Prop where
  | unresolved {passed name cause} : answers name = .error cause →
      Climbs answers passed name [name] (.unresolved cause)
  | top {passed name info} : answers name = .ok info → info.superclass = none →
      Climbs answers passed name [name] .top
  | again {passed name info parent} : answers name = .ok info → info.superclass = some parent →
      parent ∈ name :: passed → Climbs answers passed name [name] .again
  | parent {passed name info parent chain ending} : answers name = .ok info →
      info.superclass = some parent → parent ∉ name :: passed →
      Climbs answers (name :: passed) parent chain ending →
      Climbs answers passed name (name :: chain) ending

def SuperclassChain (answers : String → Except Error ClassInfo) (name : String)
    (chain : List String) (ending : ChainEnd) : Prop :=
  Climbs answers [] name chain ending

/-- Whether a class is on the chain. Where it isn't, the whole chain has to be known. -/
def onChain (chain : List String) (ending : ChainEnd) (ancestor : String) : Except Error Bool :=
  if ancestor ∈ chain then .ok true
  else
    match ending with
    | .unresolved cause => .error cause
    | .top | .again => .ok false

variable {answers : String → Except Error ClassInfo} {passed chain : List String}
  {name ancestor : String} {ending : ChainEnd}

theorem Climbs.mem_self (h : Climbs answers passed name chain ending) : name ∈ chain := by
  cases h <;> exact List.mem_cons_self

theorem exists_climbs {names : List String}
    (hparents : ∀ name info, answers name = .ok info → ∀ parent ∈ info.superclass, parent ∈ names)
    (hname : name ∈ names) (hfresh : name ∉ passed) :
    ∃ chain ending, Climbs answers passed name chain ending := by
  induction hleft : unseen names passed using Nat.strongRecOn generalizing name passed with
  | ind left ih =>
    cases hanswer : answers name with
    | error cause => exact ⟨_, _, .unresolved hanswer⟩
    | ok info =>
      cases hsuper : info.superclass with
      | none => exact ⟨_, _, .top hanswer hsuper⟩
      | some parent =>
        by_cases hagain : parent ∈ name :: passed
        · exact ⟨_, _, .again hanswer hsuper hagain⟩
        · have hless : unseen names (name :: passed) < left := hleft ▸ unseen_cons_lt hname hfresh
          have hparent : parent ∈ names := hparents name info hanswer parent hsuper
          obtain ⟨chain, ending, hchain⟩ := ih _ hless hparent hagain rfl
          exact ⟨_, _, .parent hanswer hsuper hagain hchain⟩

theorem onChain_of_mem (h : ancestor ∈ chain) : onChain chain ending ancestor = .ok true := by
  unfold onChain
  rw [if_pos h]

theorem onChain_cons_of_ne (hother : name ≠ ancestor) :
    onChain (name :: chain) ending ancestor = onChain chain ending ancestor := by
  have hmem : ancestor ∈ name :: chain ↔ ancestor ∈ chain := by simp [hother.symm]
  simp only [onChain, hmem]

section

variable {σ : Type} {states : σ → Prop} {lookup : Lookup σ} (finite : IsFinite lookup states)
  (hanswers : ∀ state, states state → ∀ name, (lookup name state).1 = answers name)
include hanswers

theorem search_unresolved {start : String} {cause : Error} (hother : name ≠ ancestor)
    (hfresh : name ∉ passed) (hfailed : answers name = .error cause) {state : σ}
    (within : states state) (known : ∀ other ∈ [name], other ∈ horizon finite start) :
    (search lookup finite start ancestor false [name] passed state within known).1 =
      .error cause := by
  have hlookup := hanswers state within name
  rw [hfailed] at hlookup
  rw [search, if_neg hother, dif_neg hfresh]
  split <;> rename_i found <;> rw [found] at hlookup <;> cases hlookup
  rfl

theorem search_superclass {start : String} {info : ClassInfo} {verdict : Except Error Bool}
    (hother : name ≠ ancestor) (hfresh : name ∉ passed) (hfound : answers name = .ok info)
    {next : List String} (hnext : (parents false info).reverse ++ [] = next)
    (hrest : ∀ after (within : states after) (known : ∀ other ∈ next, other ∈ horizon finite start),
      (search lookup finite start ancestor false next (name :: passed) after within known).1 =
        verdict)
    {state : σ} (within : states state) (known : ∀ other ∈ [name], other ∈ horizon finite start) :
    (search lookup finite start ancestor false [name] passed state within known).1 = verdict := by
  subst hnext
  have hlookup := hanswers state within name
  rw [hfound] at hlookup
  rw [search, if_neg hother, dif_neg hfresh]
  split <;> rename_i found <;> rw [found] at hlookup <;> cases hlookup
  exact hrest _ _ _

omit hanswers in
theorem search_self (h : Climbs answers passed name chain ending) {start : String} {state : σ}
    (within : states state) (known : ∀ other ∈ [name], other ∈ horizon finite start) :
    (search lookup finite start name false [name] passed state within known).1 =
      onChain chain ending name := by
  rw [search, if_pos rfl, onChain_of_mem h.mem_self]

theorem search_of_climbs (h : Climbs answers passed name chain ending) {start : String}
    (hpassed : ancestor ∉ passed) (hfresh : name ∉ passed) {state : σ} (within : states state)
    (known : ∀ other ∈ [name], other ∈ horizon finite start) :
    (search lookup finite start ancestor false [name] passed state within known).1 =
      onChain chain ending ancestor := by
  by_cases hsame : name = ancestor
  · subst hsame
    exact search_self finite h within known
  · induction h generalizing state with
    | unresolved hanswer =>
      rw [search_unresolved finite hanswers hsame hfresh hanswer, onChain_cons_of_ne hsame]
      rfl
    | top hanswer hsuper =>
      refine search_superclass finite hanswers hsame hfresh hanswer
        (show _ = [] by simp [parents, hsuper]) (fun after within' known' => ?_) within known
      rw [search, onChain_cons_of_ne hsame]
      rfl
    | @again passed name info parent hanswer hsuper hagain =>
      refine search_superclass finite hanswers hsame hfresh hanswer
        (show _ = [parent] by simp [parents, hsuper]) (fun after within' known' => ?_) within known
      have hparent : parent ≠ ancestor := by
        intro heq
        rcases List.mem_cons.mp (heq ▸ hagain) with hself | hmem
        · exact hsame hself.symm
        · exact hpassed hmem
      rw [search, if_neg hparent, dif_pos hagain, search, onChain_cons_of_ne hsame]
      rfl
    | @parent passed name info parent chain ending hanswer hsuper hnew hchain ih =>
      refine search_superclass finite hanswers hsame hfresh hanswer
        (show _ = [parent] by simp [parents, hsuper]) (fun after within' known' => ?_) within known
      rw [onChain_cons_of_ne hsame]
      by_cases hparent : parent = ancestor
      · subst hparent
        exact search_self finite hchain within' known'
      · have hpassed' : ancestor ∉ name :: passed := by simp [Ne.symm hsame, hpassed]
        exact ih hpassed' hnew within' known' hparent

theorem isSubclass_of_chain (h : SuperclassChain answers name chain ending) {info : ClassInfo}
    (hancestor : answers ancestor = .ok info) (hclass : info.isInterface = false) {state : σ}
    (within : states state) :
    (isSubclass lookup finite name ancestor state within).1 = onChain chain ending ancestor := by
  unfold isSubclass
  by_cases hsame : name = ancestor
  · rw [if_pos hsame, onChain_of_mem (hsame ▸ h.mem_self)]
  · have hlookup := hanswers state within ancestor
    rw [hancestor] at hlookup
    rw [if_neg hsame]
    split <;> rename_i found <;> rw [found] at hlookup <;> cases hlookup
    simp only [hclass]
    exact search_of_climbs finite hanswers h List.not_mem_nil List.not_mem_nil _ _

end

end Ancestry

open Ancestry

/-- The native type of the first candidate on a chain. An unresolved class is met by the first
question that is not answered before it. -/
def nativeOnChain (chain : List String) (ending : ChainEnd) :
    List (String × NativeType) → Except Error NativeType
  | [] => .ok .jobject
  | (ancestor, native) :: others =>
    match onChain chain ending ancestor with
    | .error cause => .error cause
    | .ok true => .ok native
    | .ok false => nativeOnChain chain ending others

/-- What is no class has one native type, whoever answers questions. That includes those who count
the questions, so none is asked. -/
theorem classify_asks_nothing {type : JavaType} (htype : ∀ name, type ≠ .object name) :
    ∃ native, ∀ (σ : Type) (oracle : Oracle σ) (state : σ),
      classify oracle type state = (.ok native, state) := by
  cases type with
  | primitive kind => exact ⟨_, fun _ _ _ => rfl⟩
  | object name => exact absurd rfl (htype name)
  | array dimensions element =>
    by_cases hflat : ∃ kind, dimensions = 1 ∧ element = .primitive kind
    · obtain ⟨kind, rfl, rfl⟩ := hflat
      exact ⟨_, fun _ _ _ => rfl⟩
    · refine ⟨.jobjectArray, fun σ oracle state => ?_⟩
      unfold classify
      split <;> rename_i heq <;> cases heq
      · exact absurd ⟨_, rfl, rfl⟩ hflat
      · rfl

namespace ClassPath

section

variable [Formats] {tree : FileTree} {path : ClassPath} {name : String} {chain : List String}
  {ending : ChainEnd}

theorem isSubclass_on_chain (hchain : SuperclassChain (path.answer tree) name chain ending)
    {ancestor : String} {info : ClassInfo} (hancestor : path.answer tree ancestor = .ok info)
    (hclass : info.isInterface = false) :
    (isSubclass tree name ancestor path).1 = onChain chain ending ancestor :=
  isSubclass_of_chain (path.isFinite tree) resolve_of_same_answers hchain hancestor hclass rfl

/-- What is remembered between the questions does not change the chain that they meet. -/
theorem classifyObject_on_chain (hchain : SuperclassChain (path.answer tree) name chain ending)
    {candidates : List (String × NativeType)}
    (hcandidates : ∀ candidate ∈ candidates,
      ∃ info, path.answer tree candidate.1 = .ok info ∧ info.isInterface = false) :
    (classifyObject (isSubclass tree) name candidates path).1 =
      nativeOnChain chain ending candidates := by
  induction candidates generalizing path with
  | nil => rfl
  | cons candidate candidates ih =>
    obtain ⟨ancestor, native⟩ := candidate
    obtain ⟨info, hancestor, hclass⟩ := hcandidates _ List.mem_cons_self
    have hverdict := isSubclass_on_chain hchain hancestor hclass
    have hsame : (isSubclass tree name ancestor path).2.answer tree = path.answer tree :=
      isSubclass_keeps (path.isFinite tree) (path.isFinite tree).closed rfl rfl
    unfold classifyObject nativeOnChain
    rw [← hverdict]
    split <;> rename_i hrun <;> rw [hrun] at hsame ⊢
    rw [← hsame] at hchain hcandidates
    exact ih hchain fun other h => hcandidates other (List.mem_cons_of_mem _ h)

theorem exists_superclassChain (tree : FileTree) (path : ClassPath) (name : String) :
    ∃ chain ending, SuperclassChain (path.answer tree) name chain ending := by
  obtain ⟨names, hnames⟩ := (path.isFinite tree).parents
  have hparents : ∀ other info, path.answer tree other = .ok info →
      ∀ parent ∈ info.superclass, parent ∈ name :: names := by
    intro other info hanswer parent hparent
    refine List.mem_cons_of_mem _ (hnames path rfl other info hanswer parent ?_)
    exact List.mem_append_left _ (Option.mem_toList.mpr hparent)
  exact exists_climbs hparents List.mem_cons_self List.not_mem_nil

/-- The interfaces of a class never matter, since no chain has them. -/
theorem classify_follows_superclasses (tree : FileTree) (path : ClassPath)
    (hdistinguished : ∀ ancestor ∈ ["java.lang.String", "java.lang.Throwable", "java.lang.Class"],
      ∃ info, path.answer tree ancestor = .ok info ∧ info.isInterface = false) :
    (∀ name, (∃ chain ending, SuperclassChain (path.answer tree) name chain ending) ∧
      ∀ chain ending, SuperclassChain (path.answer tree) name chain ending →
        (classify (isSubclass tree) (.object name) path).1 =
          if "java.lang.String" ∈ chain then .ok .jstring
          else
            match ending with
            | .unresolved cause => .error cause
            | .top | .again =>
              if "java.lang.Throwable" ∈ chain then .ok .jthrowable
              else if "java.lang.Class" ∈ chain then .ok .jclass
              else .ok .jobject) ∧
    ∀ type : JavaType, (∀ name, type ≠ .object name) →
      ∃ native, ∀ (σ : Type) (oracle : Oracle σ) (state : σ),
        classify oracle type state = (.ok native, state) := by
  have hcandidates : ∀ candidate ∈ distinguished,
      ∃ info, path.answer tree candidate.1 = .ok info ∧ info.isInterface = false := by
    intro candidate hcandidate
    exact hdistinguished candidate.1 (List.mem_map_of_mem hcandidate)
  refine ⟨fun name => ⟨exists_superclassChain tree path name, fun chain ending hchain => ?_⟩,
    fun type htype => classify_asks_nothing htype⟩
  refine (classifyObject_on_chain hchain hcandidates).trans ?_
  simp only [distinguished, nativeOnChain, onChain]
  by_cases hstring : "java.lang.String" ∈ chain
  · simp only [if_pos hstring]
  · by_cases hthrowable : "java.lang.Throwable" ∈ chain <;>
      by_cases hclass : "java.lang.Class" ∈ chain <;>
      cases ending <;> simp only [hstring, hthrowable, hclass, if_true, if_false]

end

def brokenThrowable : ClassPath :=
  ⟨[], true, [("java.lang.Throwable",
    .found ⟨"java.lang.Throwable", some "p.Gone", [], false, []⟩)]⟩

/-- The first question already comes to the missing class, so the one about `java.lang.Throwable`
is not asked. -/
theorem gap_above_throwable_is_an_error :
    (∀ ancestor ∈ ["java.lang.String", "java.lang.Throwable", "java.lang.Class"],
      ∃ info, brokenThrowable.answer .empty ancestor = .ok info ∧ info.isInterface = false) ∧
    SuperclassChain (brokenThrowable.answer .empty) "java.lang.Exception"
      ["java.lang.Exception", "java.lang.Throwable", "p.Gone"]
      (.unresolved (.classNotFound "p.Gone")) ∧
    (classify (isSubclass .empty) (.object "java.lang.Exception") brokenThrowable).1 =
      .error (.classNotFound "p.Gone") := by
  have hdistinguished :
      ∀ ancestor ∈ ["java.lang.String", "java.lang.Throwable", "java.lang.Class"],
        ∃ info, brokenThrowable.answer .empty ancestor = .ok info ∧ info.isInterface = false := by
    intro ancestor hancestor
    simp only [List.mem_cons, List.not_mem_nil, or_false] at hancestor
    rcases hancestor with rfl | rfl | rfl <;> exact ⟨_, rfl, rfl⟩
  have hchain : SuperclassChain (brokenThrowable.answer .empty) "java.lang.Exception"
      ["java.lang.Exception", "java.lang.Throwable", "p.Gone"]
      (.unresolved (.classNotFound "p.Gone")) :=
    .parent rfl rfl (by decide) (.parent rfl rfl (by decide) (.unresolved rfl))
  obtain ⟨hclass, -⟩ := classify_follows_superclasses .empty brokenThrowable hdistinguished
  exact ⟨hdistinguished, hchain, (hclass _).2 _ _ hchain⟩

end ClassPath

end JniHeaders
