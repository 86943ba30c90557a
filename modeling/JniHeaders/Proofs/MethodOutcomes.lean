import JniHeaders.Formats.Standard
import JniHeaders.Proofs.ExtractionRuns
import JniHeaders.Proofs.OverloadResolution

/-!
What becomes of each method of a batch. A walk takes the methods in order. One that is not native
is passed over, one that has a descriptor and native types is recorded, and any other is set aside
with its first problem. There is one walk only, and walks are joined where their batches are.
-/

namespace JniHeaders

variable {σ : Type}

/-- All types of a method have a native type, the one of the result coming first. -/
structure Declarable (oracle : Oracle σ) (owner : String) (method : MethodInfo) (state : σ)
    (record : NativeMethod) (last : σ) : Prop where
  records : Records owner method record
  types : runAll (classify oracle) (record.signature.result :: record.signature.parameters) state =
    ((record.result :: record.parameters).map .ok, last)

/-- The first thing that keeps a method from being declared, and what state that leaves. -/
inductive Problem (oracle : Oracle σ) (method : MethodInfo) (state : σ) : Error → σ → Prop where
  | descriptor {cause : DescriptorError} : MethodSignature.parse method.descriptor = .error cause →
      Problem oracle method state (.badDescriptor cause) state
  | type {signature : MethodSignature} {before others : List JavaType} {type : JavaType}
      {natives : List NativeType} {between last : σ} {cause : Error} :
      MethodSignature.parse method.descriptor = .ok signature →
      signature.result :: signature.parameters = before ++ type :: others →
      runAll (classify oracle) before state = (natives.map .ok, between) →
      classify oracle type between = (.error cause, last) → Problem oracle method state cause last

/-- The methods in order, each of which goes to one list, or to none if it is not native. -/
inductive Walk (oracle : Oracle σ) : σ → List (String × MethodInfo) → List NativeMethod →
    List SkippedMethod → σ → Prop where
  | nil (state : σ) : Walk oracle state [] [] [] state
  | pass {owner method state others methods skipped last} : method.isNative = false →
      Walk oracle state others methods skipped last →
      Walk oracle state ((owner, method) :: others) methods skipped last
  | record {owner method record state between others methods skipped last} :
      method.isNative = true → Declarable oracle owner method state record between →
      Walk oracle between others methods skipped last →
      Walk oracle state ((owner, method) :: others) (record :: methods) skipped last
  | skip {owner method cause state between others methods skipped last} :
      method.isNative = true → Problem oracle method state cause between →
      Walk oracle between others methods skipped last →
      Walk oracle state ((owner, method) :: others) methods
        (SkippedMethod.of owner method cause :: skipped) last

def methodsOf (classes : List ClassInfo) : List (String × MethodInfo) :=
  classes.flatMap fun info => info.methods.map fun method => (info.name, method)

section

variable {oracle : Oracle σ} {owner : String} {method : MethodInfo} {state last : σ}
  {types : List JavaType} {cause : Error}

theorem classifyAll_eq_ok_iff {natives : List NativeType} :
    classifyAll oracle types state = (.ok natives, last) ↔
      runAll (classify oracle) types state = (natives.map .ok, last) := by
  induction types generalizing state natives with
  | nil => cases natives <;> simp [classifyAll, runAll]
  | cons type types ih =>
    rw [classifyAll_cons, andThen_eq_ok_iff]
    simp only [andThen_eq_ok_iff]
    cases natives with
    | nil => simp [runAll]
    | cons native natives =>
      rw [List.map_cons, runAll_cons_eq_iff]
      constructor
      · rintro ⟨given, between, hfirst, others, after, hrest, hlast⟩
        cases hlast
        exact ⟨between, hfirst, ih.mp hrest⟩
      · rintro ⟨between, hfirst, hrest⟩
        exact ⟨native, between, hfirst, natives, last, ih.mpr hrest, rfl⟩

theorem classifyAll_eq_error_iff :
    classifyAll oracle types state = (.error cause, last) ↔
      ∃ (before others : List JavaType) (type : JavaType) (natives : List NativeType) (between : σ),
        types = before ++ type :: others ∧
        runAll (classify oracle) before state = (natives.map .ok, between) ∧
        classify oracle type between = (.error cause, last) := by
  induction types generalizing state with
  | nil => simp [classifyAll]
  | cons type types ih =>
    rw [classifyAll_cons, andThen_eq_error_iff]
    constructor
    · rintro (hfirst | ⟨native, between, hfirst, hrest⟩)
      · exact ⟨[], types, type, [], state, rfl, rfl, hfirst⟩
      · rcases andThen_eq_error_iff.mp hrest with hrest | ⟨natives, after, -, hlast⟩
        · obtain ⟨before, others, failing, natives, after, rfl, hbefore, hfails⟩ := ih.mp hrest
          refine ⟨type :: before, others, failing, native :: natives, after, rfl, ?_, hfails⟩
          exact runAll_cons_eq_iff.mpr ⟨between, hfirst, hbefore⟩
        · cases hlast
    · rintro ⟨before, others, failing, natives, after, htypes, hbefore, hfails⟩
      cases before with
      | nil =>
        obtain ⟨rfl, rfl⟩ := List.cons.inj htypes
        obtain rfl : state = after := congrArg Prod.snd hbefore
        exact Or.inl hfails
      | cons first before =>
        obtain ⟨rfl, rfl⟩ := List.cons.inj htypes
        cases natives with
        | nil => cases hbefore
        | cons native natives =>
          obtain ⟨between, hfirst, hrest⟩ := runAll_cons_eq_iff.mp hbefore
          refine Or.inr ⟨native, between, hfirst, andThen_eq_error_iff.mpr (Or.inl ?_)⟩
          exact ih.mpr ⟨before, others, failing, natives, after, rfl, hrest, hfails⟩

theorem NativeMethod.of_eq_ok_iff {record : NativeMethod} :
    NativeMethod.of oracle owner method state = (.ok record, last) ↔
      Declarable oracle owner method state record last := by
  constructor
  · intro h
    have hrecords : Records owner method record := records_of_ok (congrArg Prod.fst h)
    rw [of_eq] at h
    cases hparse : MethodSignature.parse method.descriptor with
    | error cause =>
      rw [hparse] at h
      cases h
    | ok signature =>
      rw [hparse] at h
      obtain ⟨result, between, hresult, hrest⟩ := andThen_eq_ok_iff.mp h
      obtain ⟨parameters, after, hparameters, hrecord⟩ := andThen_eq_ok_iff.mp hrest
      cases hrecord
      refine ⟨hrecords, ?_⟩
      exact runAll_cons_eq_iff.mpr ⟨between, hresult, classifyAll_eq_ok_iff.mp hparameters⟩
  · rintro ⟨⟨hclass, hname, hparse, hdescriptor, hstatic, hsymbol⟩, htypes⟩
    obtain ⟨between, hresult, hparameters⟩ := runAll_cons_eq_iff.mp htypes
    rw [of_eq, hparse]
    refine andThen_eq_ok_iff.mpr ⟨_, between, hresult, ?_⟩
    refine andThen_eq_ok_iff.mpr ⟨_, last, classifyAll_eq_ok_iff.mpr hparameters, ?_⟩
    rw [encode_of_parse hparse, ← hsymbol, ← hdescriptor, ← hstatic, ← hname, ← hclass]

/-- Nothing but a type can fail once the descriptor is read. -/
theorem NativeMethod.of_eq_error_iff_classifyAll {signature : MethodSignature}
    (hparse : MethodSignature.parse method.descriptor = .ok signature) :
    NativeMethod.of oracle owner method state = (.error cause, last) ↔
      classifyAll oracle (signature.result :: signature.parameters) state =
        (.error cause, last) := by
  rw [of_eq, hparse, classifyAll_cons]
  simp [andThen_eq_error_iff]

theorem NativeMethod.of_eq_error_iff :
    NativeMethod.of oracle owner method state = (.error cause, last) ↔
      Problem oracle method state cause last := by
  constructor
  · intro h
    cases hparse : MethodSignature.parse method.descriptor with
    | error problem =>
      rw [of_eq, hparse] at h
      cases h
      exact .descriptor hparse
    | ok signature =>
      obtain ⟨before, others, type, natives, between, htypes, hbefore, htype⟩ :=
        classifyAll_eq_error_iff.mp ((of_eq_error_iff_classifyAll hparse).mp h)
      exact .type hparse htypes hbefore htype
  · intro h
    cases h with
    | descriptor hparse => rw [of_eq, hparse]
    | type hparse htypes hbefore htype =>
      apply (of_eq_error_iff_classifyAll hparse).mpr
      exact classifyAll_eq_error_iff.mpr ⟨_, _, _, _, _, htypes, hbefore, htype⟩

theorem collect_walks (names : List String) (methods : List (String × MethodInfo)) (state : σ) :
    Walk oracle state methods
      (Extraction.collect oracle names (methods.filter (·.2.isNative)) state).1.methods
      (Extraction.collect oracle names (methods.filter (·.2.isNative)) state).1.skipped
      (Extraction.collect oracle names (methods.filter (·.2.isNative)) state).2 := by
  induction methods generalizing state with
  | nil => exact .nil state
  | cons candidate methods ih =>
    obtain ⟨owner, method⟩ := candidate
    cases hnative : method.isNative with
    | false =>
      rw [List.filter_cons_of_neg (by simp [hnative])]
      exact .pass hnative (ih state)
    | true =>
      rw [List.filter_cons_of_pos (by simpa using hnative), Extraction.collect]
      rcases hof : NativeMethod.of oracle owner method state with ⟨cause | record, between⟩
      · exact .skip hnative (NativeMethod.of_eq_error_iff.mp hof) (ih between)
      · exact .record hnative (NativeMethod.of_eq_ok_iff.mp hof) (ih between)

end

namespace Walk

variable {oracle : Oracle σ} {first second : List (String × MethodInfo)}
  {methods records : List NativeMethod} {skipped refused : List SkippedMethod}
  {state between last : σ}

theorem collect_eq (h : Walk oracle state first methods skipped last) (names : List String) :
    Extraction.collect oracle names (first.filter (·.2.isNative)) state =
      (⟨names, methods, skipped⟩, last) := by
  induction h with
  | nil state => rfl
  | pass hnative _ ih => rwa [List.filter_cons_of_neg (by simp [hnative])]
  | record hnative hdeclarable _ ih =>
    rw [List.filter_cons_of_pos (by simpa using hnative), Extraction.collect,
      NativeMethod.of_eq_ok_iff.mpr hdeclarable]
    simp only [ih, Extraction.add]
  | skip hnative hproblem _ ih =>
    rw [List.filter_cons_of_pos (by simpa using hnative), Extraction.collect,
      NativeMethod.of_eq_error_iff.mpr hproblem]
    simp only [ih, Extraction.add]

theorem append (hfirst : Walk oracle state first methods skipped between)
    (hsecond : Walk oracle between second records refused last) :
    Walk oracle state (first ++ second) (methods ++ records) (skipped ++ refused) last := by
  induction hfirst with
  | nil => exact hsecond
  | pass hnative _ ih => exact .pass hnative (ih hsecond)
  | record hnative hdeclarable _ ih => exact .record hnative hdeclarable (ih hsecond)
  | skip hnative hproblem _ ih => exact .skip hnative hproblem (ih hsecond)

end Walk

namespace Extraction

instance : Append Extraction where
  append first second :=
    ⟨first.classes ++ second.classes, first.methods ++ second.methods,
      first.skipped ++ second.skipped⟩

theorem candidates_eq (classes : List ClassInfo) :
    candidates classes = (methodsOf classes).filter (·.2.isNative) := by
  simp [candidates, methodsOf, ClassInfo.nativeMethods, List.filter_flatMap, List.filter_map,
    Function.comp_def]

theorem of_eq_iff {oracle : Oracle σ} {classes : List ClassInfo} {state last : σ}
    {extraction : Extraction} :
    of oracle classes state = (extraction, last) ↔
      extraction.classes = classes.map (·.name) ∧
        Walk oracle state (methodsOf classes) extraction.methods extraction.skipped last := by
  constructor
  · intro h
    have hwalk : Walk oracle state (methodsOf classes) (of oracle classes state).1.methods
        (of oracle classes state).1.skipped (of oracle classes state).2 := by
      unfold of
      rw [candidates_eq]
      exact collect_walks _ _ state
    have hclasses := classes_of oracle classes state
    rw [h] at hwalk hclasses
    exact ⟨hclasses, hwalk⟩
  · rintro ⟨hclasses, hwalk⟩
    rw [of, candidates_eq, hwalk.collect_eq, ← hclasses]

theorem of_append {oracle : Oracle σ} {classes more : List ClassInfo} {state between last : σ}
    {first second : Extraction} (hfirst : of oracle classes state = (first, between))
    (hsecond : of oracle more between = (second, last)) :
    of oracle (classes ++ more) state = (first ++ second, last) := by
  obtain ⟨hnames, hwalk⟩ := of_eq_iff.mp hfirst
  obtain ⟨hothers, hrest⟩ := of_eq_iff.mp hsecond
  refine of_eq_iff.mpr ⟨?_, ?_⟩
  · rw [List.map_append, ← hnames, ← hothers]
    rfl
  · rw [methodsOf, List.flatMap_append]
    exact hwalk.append hrest

end Extraction

inductive Asked (oracle : Oracle σ) (state : σ) : σ → Prop where
  | start : Asked oracle state state
  | ask {other : σ} (name ancestor : String) : Asked oracle state other →
      Asked oracle state (oracle name ancestor other).2

/-- Whatever has been asked before, a question gets the same answer. -/
def Repeats (oracle : Oracle σ) (state : σ) : Prop :=
  ∀ other, Asked oracle state other → ∀ name ancestor,
    (oracle name ancestor other).1 = (oracle name ancestor state).1

theorem Repeats.of_asked {oracle : Oracle σ} {state other : σ} (h : Repeats oracle state)
    (hother : Asked oracle state other) (classes : List ClassInfo) :
    (Extraction.of oracle classes other).1 = (Extraction.of oracle classes state).1 := by
  have halike : ∀ name ancestor, Alike (fun a b => Asked oracle state a ∧ Asked oracle state b)
      (oracle name ancestor) (oracle name ancestor) := by
    rintro name ancestor a b ⟨ha, hb⟩
    exact ⟨(h a ha name ancestor).trans (h b hb name ancestor).symm, .ask name ancestor ha,
      .ask name ancestor hb⟩
  exact (Extraction.collect_alike halike _ _ other state ⟨hother, .start⟩).1

/-- A class path that remembers lookups answers questions as if it had not been asked any. -/
theorem ClassPath.isSubclass_repeats [Formats] (tree : FileTree) (path : ClassPath) :
    Repeats (ClassPath.isSubclass tree) path := by
  intro other hasked name ancestor
  have hlookup : ∀ name (other : ClassPath), other.answer tree = path.answer tree →
      (other.resolve tree name).2.answer tree = path.answer tree := fun name other hother =>
    (other.answer_resolve tree name).trans hother
  have hanswer : other.answer tree = path.answer tree := by
    induction hasked with
    | start => rfl
    | @ask other name ancestor _ ih =>
      exact Ancestry.isSubclass_keeps (other.isFinite tree) hlookup rfl ih
  have halike : ∀ name, Alike (fun a b : ClassPath => a.answer tree = b.answer tree)
      (fun path => path.resolve tree name) (fun path => path.resolve tree name) := by
    intro name a b hsame
    refine ⟨congrFun hsame name, ?_⟩
    change (a.resolve tree name).2.answer tree = (b.resolve tree name).2.answer tree
    rw [answer_resolve, answer_resolve, hsame]
  exact (Ancestry.isSubclass_alike (other.isFinite tree) (path.isFinite tree) halike rfl rfl
    hanswer).1

/-- An extraction is the walk over the methods of its classes. What comes after a batch is
extracted as it would be alone, from the state that the batch leaves, and if that does not show in
answers, then from the same state. -/
theorem extraction_walks_methods (oracle : Oracle σ) (classes more : List ClassInfo) (state : σ) :
    (∀ extraction last, Extraction.of oracle classes state = (extraction, last) ↔
      extraction.classes = classes.map (·.name) ∧
        Walk oracle state (methodsOf classes) extraction.methods extraction.skipped last) ∧
    Extraction.of oracle (classes ++ more) state =
      ((Extraction.of oracle classes state).1 ++
          (Extraction.of oracle more (Extraction.of oracle classes state).2).1,
        (Extraction.of oracle more (Extraction.of oracle classes state).2).2) ∧
    (Repeats oracle state → (Extraction.of oracle (classes ++ more) state).1 =
      (Extraction.of oracle classes state).1 ++ (Extraction.of oracle more state).1) := by
  have happend : Extraction.of oracle (classes ++ more) state =
      ((Extraction.of oracle classes state).1 ++
          (Extraction.of oracle more (Extraction.of oracle classes state).2).1,
        (Extraction.of oracle more (Extraction.of oracle classes state).2).2) :=
    Extraction.of_append rfl rfl
  refine ⟨fun extraction last => Extraction.of_eq_iff, happend, fun hrepeats => ?_⟩
  have hasked : Asked oracle state (Extraction.of oracle classes state).2 :=
    Extraction.collect_keeps (fun name ancestor other => .ask name ancestor) _ _ .start
  rw [happend, hrepeats.of_asked hasked]

/-- Where no class is known, `f` is declared, `g` and `k` are not, and `h` is not native. -/
def mixed : ClassInfo where
  name := "a.C"
  superclass := none
  interfaces := []
  isInterface := false
  methods := [⟨"g", "(ILp/Q;)V", true, true⟩, ⟨"h", "()V", false, false⟩, ⟨"f", "(I)V", true, true⟩,
    ⟨"k", "(V)V", false, true⟩]

theorem mixed_batch_is_sorted_out :
    Repeats (ClassPath.isSubclass .empty) .empty ∧
    (Extraction.of (ClassPath.isSubclass .empty) ([siblings] ++ [mixed]) .empty).1 =
      (Extraction.of (ClassPath.isSubclass .empty) [siblings] .empty).1 ++
        (Extraction.of (ClassPath.isSubclass .empty) [mixed] .empty).1 ∧
    Walk unanswered () (methodsOf [mixed]) (Extraction.of unanswered [mixed] ()).1.methods
      (Extraction.of unanswered [mixed] ()).1.skipped () ∧
    (Extraction.of unanswered [mixed] ()).1.methods.map (·.methodName) = ["f"] ∧
    (Extraction.of unanswered [mixed] ()).1.skipped.map (fun entry =>
      (entry.methodName, entry.cause)) =
      [("g", .classNotFound "p.Q"), ("k", .badDescriptor (.stopped .unexpected "(V)V"))] := by
  have hrepeats := ClassPath.isSubclass_repeats .empty .empty
  refine ⟨hrepeats, ?_, ?_, by decide +kernel, by decide +kernel⟩
  · exact (extraction_walks_methods _ [siblings] [mixed] _).2.2 hrepeats
  · exact (((extraction_walks_methods unanswered [mixed] [] ()).1 _ _).mp rfl).2

end JniHeaders
