import JniHeaders.Proofs.LookupRuns
import JniHeaders.Proofs.MethodSorting

/-!
Extraction as a run of questions. Two who answer alike extract alike, and what questions keep,
extraction keeps. If questions leave no trace, then methods do not know of each other: what is
extracted of some of the classes is what is about them in the whole extraction.
-/

namespace JniHeaders

variable {σ τ α β : Type} {same : σ → τ → Prop}

def andThen (first : σ → Except Error α × σ) (next : α → σ → Except Error β × σ) (state : σ) :
    Except Error β × σ :=
  match first state with
  | (.error cause, state) => (.error cause, state)
  | (.ok value, state) => next value state

theorem alike_answer (answer : α) :
    Alike same (fun state => (answer, state)) (fun state => (answer, state)) :=
  fun _ _ hsame => ⟨rfl, hsame⟩

theorem Alike.andThen {first : σ → Except Error α × σ} {first' : τ → Except Error α × τ}
    {next : α → σ → Except Error β × σ} {next' : α → τ → Except Error β × τ}
    (hfirst : Alike same first first') (hnext : ∀ value, Alike same (next value) (next' value)) :
    Alike same (andThen first next) (andThen first' next') := by
  intro state state' hsame
  obtain ⟨hanswer, hafter⟩ := hfirst state state' hsame
  unfold JniHeaders.andThen
  split <;> rename_i hrun <;> split <;> rename_i hrun' <;>
    rw [hrun, hrun'] at hanswer hafter <;> cases hanswer
  · exact ⟨rfl, hafter⟩
  · exact hnext _ _ _ hafter

section

variable {first : σ → Except Error α × σ} {next : α → σ → Except Error β × σ} {state last : σ}

theorem andThen_eq_ok_iff {value : β} :
    andThen first next state = (.ok value, last) ↔
      ∃ given between, first state = (.ok given, between) ∧
        next given between = (.ok value, last) := by
  unfold andThen
  rcases first state with ⟨cause | given, between⟩ <;> simp [and_assoc]

theorem andThen_eq_error_iff {cause : Error} :
    andThen first next state = (.error cause, last) ↔
      first state = (.error cause, last) ∨
        ∃ given between, first state = (.ok given, between) ∧
          next given between = (.error cause, last) := by
  unfold andThen
  rcases first state with ⟨problem | given, between⟩ <;> simp [and_assoc]

end

variable {oracle : Oracle σ} {other : Oracle τ}

theorem classifyAll_cons (type : JavaType) (types : List JavaType) :
    classifyAll oracle (type :: types) =
      andThen (classify oracle type) fun native =>
        andThen (classifyAll oracle types) fun natives state => (.ok (native :: natives), state) := by
  funext state
  unfold andThen
  rw [classifyAll]
  rcases classify oracle type state with ⟨cause | native, after⟩
  · rfl
  · dsimp only
    rcases classifyAll oracle types after with ⟨cause | natives, last⟩ <;> rfl

theorem NativeMethod.of_eq (className : String) (method : MethodInfo) :
    NativeMethod.of oracle className method =
      match MethodSignature.parse method.descriptor with
      | .error cause => fun state => (.error (.badDescriptor cause), state)
      | .ok signature =>
        andThen (classify oracle signature.result) fun result =>
          andThen (classifyAll oracle signature.parameters) fun parameters state =>
            (.ok {
              className := className
              methodName := method.name
              signature := signature
              descriptor := signature.encode
              isStatic := method.isStatic
              result := result
              parameters := parameters
              symbol := Symbol.mangle className method.name signature.parameters }, state) := by
  funext state
  unfold NativeMethod.of
  cases MethodSignature.parse method.descriptor with
  | error cause => rfl
  | ok signature =>
    dsimp only [andThen]
    rcases classify oracle signature.result state with ⟨cause | native, after⟩
    · rfl
    · dsimp only
      rcases classifyAll oracle signature.parameters after with ⟨cause | natives, last⟩ <;> rfl

section

variable (h : ∀ name ancestor, Alike same (oracle name ancestor) (other name ancestor))
include h

theorem classifyAll_alike (types : List JavaType) :
    Alike same (classifyAll oracle types) (classifyAll other types) := by
  induction types with
  | nil => exact alike_answer _
  | cons type types ih =>
    rw [classifyAll_cons, classifyAll_cons]
    exact (classify_alike h type).andThen fun native => ih.andThen fun natives => alike_answer _

theorem NativeMethod.of_alike (className : String) (method : MethodInfo) :
    Alike same (NativeMethod.of oracle className method)
      (NativeMethod.of other className method) := by
  rw [of_eq, of_eq]
  cases MethodSignature.parse method.descriptor with
  | error cause => exact alike_answer _
  | ok signature =>
    exact (classify_alike h signature.result).andThen fun result =>
      (classifyAll_alike h signature.parameters).andThen fun parameters => alike_answer _

namespace Extraction

theorem collect_alike (names : List String) (candidates : List (String × MethodInfo)) :
    Alike same (collect oracle names candidates) (collect other names candidates) := by
  induction candidates with
  | nil =>
    intro state state' hsame
    exact ⟨rfl, hsame⟩
  | cons candidate candidates ih =>
    intro state state' hsame
    obtain ⟨className, method⟩ := candidate
    obtain ⟨hresult, hafter⟩ := NativeMethod.of_alike h className method state state' hsame
    obtain ⟨hothers, hend⟩ := ih _ _ hafter
    simp only [collect, hresult, hothers]
    exact ⟨trivial, hend⟩

end Extraction

end

section

variable {holds : σ → Prop}
  (h : ∀ name ancestor state, holds state → holds (oracle name ancestor state).2)
include h

theorem NativeMethod.of_keeps (className : String) (method : MethodInfo) {state : σ}
    (hstate : holds state) : holds (NativeMethod.of oracle className method state).2 :=
  alike_self_iff.mp
    (NativeMethod.of_alike (fun name ancestor => alike_self_iff.mpr (h name ancestor)) className
      method) state hstate

theorem Extraction.collect_keeps (names : List String) (candidates : List (String × MethodInfo))
    {state : σ} (hstate : holds state) : holds (collect oracle names candidates state).2 :=
  alike_self_iff.mp (collect_alike (fun name ancestor => alike_self_iff.mpr (h name ancestor))
    names candidates) state hstate

end

namespace Extraction

theorem collect_classes (names : List String) (candidates : List (String × MethodInfo))
    (state : σ) : (collect oracle names candidates state).1.classes = names := by
  induction candidates generalizing state with
  | nil => rfl
  | cons candidate candidates ih =>
    obtain ⟨className, method⟩ := candidate
    have hrest := ih (NativeMethod.of oracle className method state).2
    simp only [collect]
    cases (NativeMethod.of oracle className method state).1 with
    | error cause => exact hrest
    | ok record => exact hrest

theorem classes_of (oracle : Oracle σ) (classes : List ClassInfo) (state : σ) :
    (of oracle classes state).1.classes = classes.map (·.name) :=
  collect_classes _ _ state

def only (keep : String → Bool) (extraction : Extraction) : Extraction where
  classes := extraction.classes.filter keep
  methods := extraction.methods.filter fun record => keep record.className
  skipped := extraction.skipped.filter fun entry => keep entry.className

theorem only_add (keep : String → Bool) (extraction : Extraction) {className : String}
    {method : MethodInfo} {result : Except Error NativeMethod}
    (h : ∀ record, result = .ok record → record.className = className) :
    (extraction.add result className method).only keep =
      if keep className then (extraction.only keep).add result className method
      else extraction.only keep := by
  cases result with
  | ok record =>
    have hclass := h record rfl
    by_cases hkeep : keep className <;> simp [add, only, hclass, hkeep]
  | error cause => by_cases hkeep : keep className <;> simp [add, only, SkippedMethod.of, hkeep]

theorem candidates_filter (keep : String → Bool) (classes : List ClassInfo) :
    candidates (classes.filter fun info => keep info.name) =
      (candidates classes).filter fun (className, _) => keep className := by
  induction classes with
  | nil => rfl
  | cons info classes ih =>
    simp only [candidates, List.flatMap_cons, List.filter_append] at ih ⊢
    by_cases hkeep : keep info.name
    · have hall : (info.nativeMethods.map fun method => (info.name, method)).filter
          (fun (className, _) => keep className) = info.nativeMethods.map fun method =>
            (info.name, method) := by
        simp [List.filter_eq_self, hkeep]
      rw [hall, ← ih, List.filter_cons, if_pos hkeep, List.flatMap_cons]
    · simp [hkeep, ih, List.filter_map, Function.comp_def]

section

variable {state : σ} (hsteady : ∀ name ancestor, (oracle name ancestor state).2 = state)
include hsteady

theorem collect_filter (keep : String → Bool) (names : List String)
    (candidates : List (String × MethodInfo)) :
    (collect oracle (names.filter keep)
        (candidates.filter fun (className, _) => keep className) state).1 =
      (collect oracle names candidates state).1.only keep := by
  induction candidates with
  | nil => rfl
  | cons candidate candidates ih =>
    obtain ⟨className, method⟩ := candidate
    have hquestion : ∀ name ancestor current, current = state →
        (oracle name ancestor current).2 = state := by
      rintro name ancestor _ rfl
      exact hsteady name ancestor
    have hafter := NativeMethod.of_keeps hquestion className method rfl
    have hclass : ∀ record, (NativeMethod.of oracle className method state).1 = .ok record →
        record.className = className := fun record hrecord => (records_of_ok hrecord).className
    simp only [collect, hafter, only_add keep _ hclass, ← ih]
    by_cases hkeep : keep className
    · simp only [List.filter_cons_of_pos, hkeep, collect, hafter, if_true]
    · simp only [List.filter_cons_of_neg, hkeep, if_false, Bool.false_eq_true, not_false_eq_true]

/-- Where questions leave no trace, leaving classes out changes nothing for the others. -/
theorem of_filter (keep : String → Bool) (classes : List ClassInfo) :
    (of oracle (classes.filter fun info => keep info.name) state).1 =
      (of oracle classes state).1.only keep := by
  unfold of
  rw [candidates_filter, ← collect_filter hsteady, List.filter_map]
  rfl

end

end Extraction

end JniHeaders
