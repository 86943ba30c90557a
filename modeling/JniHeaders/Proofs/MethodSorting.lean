import JniHeaders.Extraction
import JniHeaders.Proofs.DescriptorGrammar

/-!
How the native methods of a batch come to be on one of two lists. A derivation takes them in
order and puts each on one list, with what its record must say; what later stages need to know
about an extraction follows from its derivation, without the one who answers the questions.
-/

namespace JniHeaders

/-- A record tells of a method of a class what the class file says. -/
structure Records (owner : String) (method : MethodInfo) (record : NativeMethod) : Prop where
  className : record.className = owner
  methodName : record.methodName = method.name
  signature : MethodSignature.parse method.descriptor = .ok record.signature
  descriptor : record.descriptor = method.descriptor
  isStatic : record.isStatic = method.isStatic
  symbol : record.symbol = Symbol.mangle owner method.name record.signature.parameters

inductive Sorted : List (String × MethodInfo) → List NativeMethod → List SkippedMethod → Prop where
  | nil : Sorted [] [] []
  | record {className method record candidates methods skipped} :
      Records className method record → Sorted candidates methods skipped →
      Sorted ((className, method) :: candidates) (record :: methods) skipped
  | skip {className method candidates methods skipped} (cause : Error) :
      Sorted candidates methods skipped →
      Sorted ((className, method) :: candidates) methods
        (SkippedMethod.of className method cause :: skipped)

variable {σ : Type} {oracle : Oracle σ} {className : String} {method : MethodInfo}
  {candidates : List (String × MethodInfo)} {methods : List NativeMethod}
  {skipped : List SkippedMethod}

theorem encode_of_parse {text : String} {sig : MethodSignature}
    (h : MethodSignature.parse text = .ok sig) : sig.encode = text :=
  ((MethodSignature.parse_eq_ok_iff text sig).mp h).2

theorem records_of_ok {state : σ} {record : NativeMethod}
    (h : (NativeMethod.of oracle className method state).1 = .ok record) :
    Records className method record := by
  unfold NativeMethod.of at h
  split at h
  · cases h
  · rename_i sig hparse
    split at h
    · cases h
    · split at h
      · cases h
      · cases h
        exact ⟨rfl, rfl, hparse, encode_of_parse hparse, rfl, rfl⟩

theorem collect_sorted (names : List String) (candidates : List (String × MethodInfo))
    (state : σ) :
    Sorted candidates (Extraction.collect oracle names candidates state).1.methods
      (Extraction.collect oracle names candidates state).1.skipped := by
  induction candidates generalizing state with
  | nil => exact .nil
  | cons candidate candidates ih =>
    obtain ⟨className, method⟩ := candidate
    have hrest := ih (NativeMethod.of oracle className method state).2
    cases hresult : (NativeMethod.of oracle className method state).1 with
    | ok record =>
      have hrecord := Sorted.record (records_of_ok hresult) hrest
      simpa [Extraction.collect, hresult, Extraction.add] using hrecord
    | error cause =>
      have hskip : Sorted ((className, method) :: candidates) _ _ := .skip cause hrest
      simpa [Extraction.collect, hresult, Extraction.add] using hskip

theorem extraction_sorted (oracle : Oracle σ) (classes : List ClassInfo) (state : σ) :
    Sorted (Extraction.candidates classes) (Extraction.of oracle classes state).1.methods
      (Extraction.of oracle classes state).1.skipped :=
  collect_sorted _ _ state

namespace Sorted

theorem exists_recorded (h : Sorted candidates methods skipped) {record : NativeMethod}
    (hrecord : record ∈ methods) :
    ∃ className method, (className, method) ∈ candidates ∧ Records className method record := by
  induction h with
  | nil => simp at hrecord
  | record hfirst _ ih =>
    rcases List.mem_cons.mp hrecord with rfl | hrecord
    · exact ⟨_, _, List.mem_cons_self, hfirst⟩
    · obtain ⟨className, method, hmem, hrecords⟩ := ih hrecord
      exact ⟨className, method, List.mem_cons_of_mem _ hmem, hrecords⟩
  | skip cause _ ih =>
    obtain ⟨className, method, hmem, hrecords⟩ := ih hrecord
    exact ⟨className, method, List.mem_cons_of_mem _ hmem, hrecords⟩

theorem exists_skipped (h : Sorted candidates methods skipped) {entry : SkippedMethod}
    (hentry : entry ∈ skipped) :
    ∃ className method cause, (className, method) ∈ candidates ∧
      entry = SkippedMethod.of className method cause := by
  induction h with
  | nil => simp at hentry
  | record _ _ ih =>
    obtain ⟨className, method, cause, hmem, hof⟩ := ih hentry
    exact ⟨className, method, cause, List.mem_cons_of_mem _ hmem, hof⟩
  | skip cause _ ih =>
    rcases List.mem_cons.mp hentry with rfl | hentry
    · exact ⟨_, _, cause, List.mem_cons_self, rfl⟩
    · obtain ⟨className, method, cause, hmem, hof⟩ := ih hentry
      exact ⟨className, method, cause, List.mem_cons_of_mem _ hmem, hof⟩

/-- No method gets lost. -/
theorem recorded_or_skipped (h : Sorted candidates methods skipped)
    (hmem : (className, method) ∈ candidates) :
    (∃ record ∈ methods, Records className method record) ∨
      ∃ cause, SkippedMethod.of className method cause ∈ skipped := by
  induction h with
  | nil => simp at hmem
  | record hfirst _ ih =>
    rcases List.mem_cons.mp hmem with heq | hmem
    · cases heq
      exact Or.inl ⟨_, List.mem_cons_self, hfirst⟩
    · rcases ih hmem with ⟨record, hrecord, hrecords⟩ | hskip
      · exact Or.inl ⟨record, List.mem_cons_of_mem _ hrecord, hrecords⟩
      · exact Or.inr hskip
  | skip cause _ ih =>
    rcases List.mem_cons.mp hmem with heq | hmem
    · cases heq
      exact Or.inr ⟨cause, List.mem_cons_self⟩
    · rcases ih hmem with hrecord | ⟨cause, hskip⟩
      · exact Or.inl hrecord
      · exact Or.inr ⟨cause, List.mem_cons_of_mem _ hskip⟩

end Sorted

theorem mem_candidates {classes : List ClassInfo} :
    (className, method) ∈ Extraction.candidates classes ↔
      ∃ info ∈ classes, info.name = className ∧ method ∈ info.nativeMethods := by
  simp only [Extraction.candidates, List.mem_flatMap, List.mem_map, Prod.mk.injEq]
  constructor
  · rintro ⟨info, hinfo, _, hmethod, rfl, rfl⟩
    exact ⟨info, hinfo, rfl, hmethod⟩
  · rintro ⟨info, hinfo, rfl, hmethod⟩
    exact ⟨info, hinfo, method, hmethod, rfl, rfl⟩

end JniHeaders
