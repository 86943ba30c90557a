import JniHeaders.Proofs.MethodSorting
import JniHeaders.Proofs.RepeatedDeclarations
import JniHeaders.Proofs.SymbolIdentity

/-!
Which symbol a method gets. All methods of a short symbol count, recorded or not, by what their
descriptors say, so that the choice depends on the classes alone: it falls on the long symbol
where the class and name have another native method with other parameters.
-/

namespace JniHeaders

/-- The class and method names of a batch can be read back from symbols. -/
def PlainlyNamed (classes : List ClassInfo) : Prop :=
  ∀ info ∈ classes, PlainName info.name ∧
    ∀ method ∈ info.nativeMethods, opensPlainly method.name.toList

instance (classes : List ClassInfo) : Decidable (PlainlyNamed classes) :=
  inferInstanceAs (Decidable (∀ info ∈ classes, PlainName info.name ∧
    ∀ method ∈ info.nativeMethods, opensPlainly method.name.toList))

/-- A class of the batch has a native method of this name whose descriptor can't be read or has
other parameters. -/
def OverloadedIn (classes : List ClassInfo) (className methodName : String)
    (types : List JavaType) : Prop :=
  ∃ info ∈ classes, info.name = className ∧ ∃ method ∈ info.nativeMethods,
    method.name = methodName ∧
      ((∃ cause, MethodSignature.parse method.descriptor = .error cause) ∨
        ∃ sig, MethodSignature.parse method.descriptor = .ok sig ∧ sig.parameters ≠ types)

def Parameters.of (descriptor : String) : Parameters :=
  match MethodSignature.parse descriptor with
  | .ok sig => .types sig.parameters
  | .error _ => .text descriptor

theorem Parameters.of_ne_types_iff (descriptor : String) (types : List JavaType) :
    Parameters.of descriptor ≠ .types types ↔
      (∃ cause, MethodSignature.parse descriptor = .error cause) ∨
        ∃ sig, MethodSignature.parse descriptor = .ok sig ∧ sig.parameters ≠ types := by
  unfold Parameters.of
  cases MethodSignature.parse descriptor with
  | error cause => simp
  | ok sig => simp

theorem Records.parameters_of {owner : String} {method : MethodInfo} {record : NativeMethod}
    (h : Records owner method record) :
    Parameters.of method.descriptor = .types record.signature.parameters := by
  rw [Parameters.of, h.signature]

/-- A header has a declaration of the class and name of a method under one of its symbols. -/
def Header.Declares (header : Header) (record : NativeMethod) (symbol : String) : Prop :=
  (symbol = record.symbol.short ∨ symbol = record.symbol.long) ∧
    ∃ declaration ∈ header.declarations, declaration.className = record.className ∧
      declaration.methodName = record.methodName ∧ declaration.symbol = symbol

variable {classes : List ClassInfo}

namespace Extraction

theorem symbolOf_short_or_long (extraction : Extraction) (record : NativeMethod) :
    extraction.symbolOf record = record.symbol.short ∨
      extraction.symbolOf record = record.symbol.long := by
  unfold symbolOf
  split
  · exact Or.inr rfl
  · exact Or.inl rfl

theorem isOverloaded_iff_exists_ne {extraction : Extraction} {shortName : String}
    {parameters : Parameters} (h : parameters ∈ extraction.variants shortName) :
    extraction.isOverloaded shortName = true ↔
      ∃ other ∈ extraction.variants shortName, other ≠ parameters := by
  unfold isOverloaded
  cases hvariants : extraction.variants shortName with
  | nil => simp [hvariants] at h
  | cons first others =>
    rw [hvariants] at h
    simp only [List.any_eq_true, decide_eq_true_eq]
    constructor
    · rintro ⟨other, hother, hne⟩
      by_cases hsame : first = parameters
      · exact ⟨other, List.mem_cons_of_mem _ hother, hsame ▸ hne⟩
      · exact ⟨first, List.mem_cons_self, hsame⟩
    · rintro ⟨other, hother, hne⟩
      rcases List.mem_cons.mp h with rfl | hparameters
      · rcases List.mem_cons.mp hother with rfl | hother
        · exact absurd rfl hne
        · exact ⟨other, hother, hne⟩
      · by_cases hsame : parameters = first
        · subst hsame
          rcases List.mem_cons.mp hother with rfl | hother
          · exact absurd rfl hne
          · exact ⟨other, hother, hne⟩
        · exact ⟨parameters, hparameters, hsame⟩

theorem types_mem_variants {extraction : Extraction} {record : NativeMethod}
    (h : record ∈ extraction.methods) :
    .types record.signature.parameters ∈ extraction.variants record.symbol.short := by
  refine List.mem_append_left _ (List.mem_map.mpr ⟨record, ?_, rfl⟩)
  exact List.mem_filter.mpr ⟨h, by simp⟩

theorem mem_variants_iff {extraction : Extraction} {candidates : List (String × MethodInfo)}
    (h : Sorted candidates extraction.methods extraction.skipped) (shortName : String)
    (parameters : Parameters) :
    parameters ∈ extraction.variants shortName ↔
      ∃ className method, (className, method) ∈ candidates ∧
        Symbol.shortName className method.name = shortName ∧
        Parameters.of method.descriptor = parameters := by
  simp only [variants, List.mem_append, List.mem_map, List.mem_filter, decide_eq_true_eq]
  constructor
  · rintro (⟨record, ⟨hrecord, hshort⟩, rfl⟩ | ⟨entry, ⟨hentry, hshort⟩, rfl⟩)
    · obtain ⟨className, method, hmem, hrecords⟩ := h.exists_recorded hrecord
      rw [hrecords.symbol] at hshort
      exact ⟨className, method, hmem, hshort, hrecords.parameters_of⟩
    · obtain ⟨className, method, cause, hmem, rfl⟩ := h.exists_skipped hentry
      exact ⟨className, method, hmem, hshort, rfl⟩
  · rintro ⟨className, method, hmem, hshort, rfl⟩
    rcases h.recorded_or_skipped hmem with ⟨record, hrecord, hrecords⟩ | ⟨cause, hskip⟩
    · refine Or.inl ⟨record, ⟨hrecord, ?_⟩, hrecords.parameters_of.symm⟩
      rw [hrecords.symbol]
      exact hshort
    · exact Or.inr ⟨_, ⟨hskip, hshort⟩, rfl⟩

section

variable {extraction : Extraction} {record : NativeMethod}
  (hnames : PlainlyNamed classes)
  (hsorted : Sorted (candidates classes) extraction.methods extraction.skipped)
include hnames hsorted

omit hnames in
theorem symbol_of_recorded (hrecord : record ∈ extraction.methods) :
    record.symbol =
      Symbol.mangle record.className record.methodName record.signature.parameters := by
  obtain ⟨className, method, -, hrecords⟩ := hsorted.exists_recorded hrecord
  rw [hrecords.symbol, hrecords.className, hrecords.methodName]

omit hnames in
theorem short_of_recorded (hrecord : record ∈ extraction.methods) :
    record.symbol.short = Symbol.shortName record.className record.methodName := by
  rw [symbol_of_recorded hsorted hrecord]
  rfl

omit hnames in
theorem parse_of_recorded (hrecord : record ∈ extraction.methods) :
    MethodSignature.parse record.descriptor = .ok record.signature := by
  obtain ⟨className, method, -, hrecords⟩ := hsorted.exists_recorded hrecord
  rw [hrecords.descriptor, hrecords.signature]

theorem plain_of_recorded (hrecord : record ∈ extraction.methods) :
    PlainName record.className ∧ opensPlainly record.methodName.toList := by
  obtain ⟨className, method, hmem, hrecords⟩ := hsorted.exists_recorded hrecord
  obtain ⟨info, hinfo, rfl, hmethod⟩ := mem_candidates.mp hmem
  obtain ⟨hclass, hmethods⟩ := hnames info hinfo
  rw [hrecords.className, hrecords.methodName]
  exact ⟨hclass, hmethods method hmethod⟩

theorem short_ne_long_of_recorded {other : NativeMethod} (hrecord : record ∈ extraction.methods)
    (hother : other ∈ extraction.methods) : record.symbol.short ≠ other.symbol.long := by
  obtain ⟨hclass, hmethod⟩ := plain_of_recorded hnames hsorted hrecord
  obtain ⟨hotherClass, hotherMethod⟩ := plain_of_recorded hnames hsorted hother
  rw [symbol_of_recorded hsorted hrecord, symbol_of_recorded hsorted hother]
  exact Symbol.shortName_ne_longName hclass hmethod hotherClass hotherMethod

theorem short_eq_iff_names_eq {other : NativeMethod} (hrecord : record ∈ extraction.methods)
    (hother : other ∈ extraction.methods) :
    record.symbol.short = other.symbol.short ↔
      record.className = other.className ∧ record.methodName = other.methodName := by
  obtain ⟨hclass, hmethod⟩ := plain_of_recorded hnames hsorted hrecord
  obtain ⟨hotherClass, hotherMethod⟩ := plain_of_recorded hnames hsorted hother
  rw [short_of_recorded hsorted hrecord, short_of_recorded hsorted hother]
  constructor
  · exact Symbol.shortName_injective hclass hmethod hotherClass hotherMethod
  · rintro ⟨hclassName, hmethodName⟩
    rw [hclassName, hmethodName]

theorem names_eq_of_candidate_short (hrecord : record ∈ extraction.methods) {className : String}
    {method : MethodInfo} (hmem : (className, method) ∈ candidates classes)
    (hshort : Symbol.shortName className method.name = record.symbol.short) :
    className = record.className ∧ method.name = record.methodName := by
  obtain ⟨info, hinfo, rfl, hnative⟩ := mem_candidates.mp hmem
  obtain ⟨hclass, hmethod⟩ := plain_of_recorded hnames hsorted hrecord
  obtain ⟨hinfoName, hmethods⟩ := hnames info hinfo
  rw [short_of_recorded hsorted hrecord] at hshort
  exact Symbol.shortName_injective hinfoName (hmethods method hnative) hclass hmethod hshort

theorem names_eq_of_long_eq {other : NativeMethod} (hrecord : record ∈ extraction.methods)
    (hother : other ∈ extraction.methods) (hlong : record.symbol.long = other.symbol.long) :
    record.className = other.className ∧ record.methodName = other.methodName := by
  obtain ⟨hclass, hmethod⟩ := plain_of_recorded hnames hsorted hrecord
  obtain ⟨hotherClass, hotherMethod⟩ := plain_of_recorded hnames hsorted hother
  rw [symbol_of_recorded hsorted hrecord, symbol_of_recorded hsorted hother] at hlong
  exact (Symbol.longName_parts hclass hmethod hotherClass hotherMethod hlong).1

theorem isOverloaded_iff_overloadedIn (hrecord : record ∈ extraction.methods) :
    extraction.isOverloaded record.symbol.short = true ↔
      OverloadedIn classes record.className record.methodName record.signature.parameters := by
  have hshort := short_of_recorded hsorted hrecord
  rw [isOverloaded_iff_exists_ne (types_mem_variants hrecord)]
  constructor
  · rintro ⟨other, hother, hne⟩
    obtain ⟨className, sibling, hsibling, hsame, rfl⟩ := (mem_variants_iff hsorted _ _).mp hother
    obtain ⟨hclassName, hmethodName⟩ :=
      names_eq_of_candidate_short hnames hsorted hrecord hsibling hsame
    obtain ⟨info, hinfo, rfl, hnative⟩ := mem_candidates.mp hsibling
    exact ⟨info, hinfo, hclassName, sibling, hnative, hmethodName,
      (Parameters.of_ne_types_iff _ _).mp hne⟩
  · rintro ⟨info, hinfo, hclassName, sibling, hnative, hmethodName, hdiffers⟩
    refine ⟨Parameters.of sibling.descriptor, ?_, (Parameters.of_ne_types_iff _ _).mpr hdiffers⟩
    refine (mem_variants_iff hsorted _ _).mpr
      ⟨info.name, sibling, mem_candidates.mpr ⟨info, hinfo, rfl, hnative⟩, ?_, rfl⟩
    rw [hshort, hclassName, hmethodName]

theorem symbolOf_iff_overloadedIn (hrecord : record ∈ extraction.methods) :
    (extraction.symbolOf record = record.symbol.long ↔
      OverloadedIn classes record.className record.methodName record.signature.parameters) ∧
    (extraction.symbolOf record = record.symbol.short ↔
      ¬ OverloadedIn classes record.className record.methodName record.signature.parameters) := by
  have hne := short_ne_long_of_recorded hnames hsorted hrecord hrecord
  rw [← isOverloaded_iff_overloadedIn hnames hsorted hrecord]
  unfold symbolOf
  by_cases hoverloaded : extraction.isOverloaded record.symbol.short
  · simp [hoverloaded, hne.symm]
  · simp [hoverloaded, hne]

/-- A method that is left out as a repeat has its symbol from the method that it repeats. -/
theorem merged_declares_iff (hrecord : record ∈ extraction.methods) (options : HeaderOptions)
    (symbol : String) :
    (extraction.merged options).Declares record symbol ↔
      symbol = extraction.symbolOf record := by
  constructor
  · rintro ⟨hown, declaration, hdeclaration, hclassName, hmethodName, rfl⟩
    obtain ⟨kept, hkept, rfl⟩ := List.mem_map.mp hdeclaration
    have hkeptRecorded := (mem_of_mem_firsts hkept).1
    have hshort : kept.symbol.short = record.symbol.short :=
      (short_eq_iff_names_eq hnames hsorted hkeptRecorded hrecord).mpr ⟨hclassName, hmethodName⟩
    have hmixed := short_ne_long_of_recorded hnames hsorted hrecord hkeptRecorded
    change extraction.symbolOf kept = _ ∨ extraction.symbolOf kept = _ at hown
    change extraction.symbolOf kept = extraction.symbolOf record
    unfold symbolOf at hown ⊢
    rw [hshort] at hown ⊢
    by_cases hoverloaded : extraction.isOverloaded record.symbol.short
    · simpa [hoverloaded, hmixed.symm] using hown
    · simp [hoverloaded]
  · rintro rfl
    obtain ⟨kept, hkept, hlong⟩ := exists_mem_firsts hrecord (List.not_mem_nil)
    have hkeptRecorded := (mem_of_mem_firsts hkept).1
    have hparts := names_eq_of_long_eq hnames hsorted hkeptRecorded hrecord hlong
    have hshort := (short_eq_iff_names_eq hnames hsorted hkeptRecorded hrecord).mpr hparts
    have hchosen : extraction.symbolOf kept = extraction.symbolOf record := by
      rw [symbolOf, symbolOf, hshort, hlong]
    exact ⟨symbolOf_short_or_long extraction record, extraction.declare kept,
      List.mem_map.mpr ⟨kept, hkept, rfl⟩, hparts.1, hparts.2, hchosen⟩

theorem symbolOf_eq_of_same_method {extraction' : Extraction} {record' : NativeMethod}
    (hsorted' : Sorted (candidates classes) extraction'.methods extraction'.skipped)
    (hrecord : record ∈ extraction.methods) (hrecord' : record' ∈ extraction'.methods)
    (hclass : record.className = record'.className)
    (hmethod : record.methodName = record'.methodName)
    (hdescriptor : record.descriptor = record'.descriptor) :
    extraction.symbolOf record = extraction'.symbolOf record' := by
  have hparse := parse_of_recorded hsorted hrecord
  rw [hdescriptor, parse_of_recorded hsorted' hrecord'] at hparse
  have hsignature : record'.signature = record.signature := Except.ok.inj hparse
  have hsymbol : record.symbol = record'.symbol := by
    rw [symbol_of_recorded hsorted hrecord, symbol_of_recorded hsorted' hrecord', hclass, hmethod,
      hsignature]
  have hoverloaded : extraction.isOverloaded record.symbol.short =
      extraction'.isOverloaded record'.symbol.short := by
    rw [Bool.eq_iff_iff, isOverloaded_iff_overloadedIn hnames hsorted hrecord,
      isOverloaded_iff_overloadedIn hnames hsorted' hrecord', hclass, hmethod, hsignature]
  rw [symbolOf, symbolOf, hoverloaded, hsymbol]

end

end Extraction

variable {σ : Type}

/-- The long symbol is for overloaded methods and the short one for all others. What answers
the questions about ancestry has no part in the choice. -/
theorem declared_symbol_depends_on_classes (hnames : PlainlyNamed classes) (oracle : Oracle σ)
    (state : σ) (options : HeaderOptions) :
    (∀ declaration ∈ ((Extraction.of oracle classes state).1.merged options).declarations,
      ∃ sig, MethodSignature.parse declaration.descriptor = .ok sig ∧
        (declaration.symbol =
            Symbol.longName declaration.className declaration.methodName sig.parameters ↔
          OverloadedIn classes declaration.className declaration.methodName sig.parameters) ∧
        (declaration.symbol = Symbol.shortName declaration.className declaration.methodName ↔
          ¬ OverloadedIn classes declaration.className declaration.methodName sig.parameters)) ∧
    ∀ (τ : Type) (other : Oracle τ) (otherState : τ) (otherOptions : HeaderOptions),
      ∀ record ∈ (Extraction.of oracle classes state).1.methods,
      ∀ record' ∈ (Extraction.of other classes otherState).1.methods,
        record.className = record'.className → record.methodName = record'.methodName →
        record.descriptor = record'.descriptor →
        (∃ symbol, ((Extraction.of oracle classes state).1.merged options).Declares record symbol) ∧
        ∀ symbol, ((Extraction.of oracle classes state).1.merged options).Declares record symbol ↔
          ((Extraction.of other classes otherState).1.merged otherOptions).Declares
            record' symbol := by
  have hsorted := extraction_sorted oracle classes state
  constructor
  · intro declaration hdeclaration
    obtain ⟨record, hkept, rfl⟩ := List.mem_map.mp hdeclaration
    have hrecord := (Extraction.mem_of_mem_firsts hkept).1
    have hchoice := Extraction.symbolOf_iff_overloadedIn hnames hsorted hrecord
    have hsymbol := Extraction.symbol_of_recorded hsorted hrecord
    rw [hsymbol] at hchoice
    exact ⟨record.signature, Extraction.parse_of_recorded hsorted hrecord, hchoice⟩
  · intro τ other otherState otherOptions record hrecord record' hrecord' hclass hmethod hdescriptor
    have hsorted' := extraction_sorted other classes otherState
    have hchosen := Extraction.symbolOf_eq_of_same_method hnames hsorted hsorted' hrecord hrecord'
      hclass hmethod hdescriptor
    refine ⟨⟨_, (Extraction.merged_declares_iff hnames hsorted hrecord options _).mpr rfl⟩, ?_⟩
    intro symbol
    rw [Extraction.merged_declares_iff hnames hsorted hrecord,
      Extraction.merged_declares_iff hnames hsorted' hrecord', hchosen]

def unanswered : Oracle Unit := fun name _ state => (.error (.classNotFound name), state)

/-- Of its methods `f` only the first can be declared without knowing a class. -/
def siblings : ClassInfo where
  name := "a.B"
  superclass := none
  interfaces := []
  isInterface := false
  methods := [⟨"f", "(I)V", true, true⟩, ⟨"f", "(Lp/Q;)V", false, true⟩,
    ⟨"f", "(V)V", false, true⟩, ⟨"g_1", "()V", true, true⟩]

theorem skipped_siblings_make_overloaded :
    PlainlyNamed [siblings] ∧
    ((Extraction.of unanswered [siblings] ()).1.merged {}).declarations.map (·.symbol) =
      ["Java_a_B_f__I", "Java_a_B_g_11"] ∧
    ∀ declaration ∈ ((Extraction.of unanswered [siblings] ()).1.merged {}).declarations,
      declaration.className = "a.B" → declaration.methodName = "f" →
      ∃ sig, MethodSignature.parse declaration.descriptor = .ok sig ∧
        declaration.symbol = Symbol.longName "a.B" "f" sig.parameters := by
  have hnames : PlainlyNamed [siblings] := by decide
  refine ⟨hnames, by decide +kernel, ?_⟩
  intro declaration hdeclaration hclass hmethod
  obtain ⟨sig, hparse, hlong, -⟩ :=
    (declared_symbol_depends_on_classes hnames unanswered () {}).1 declaration hdeclaration
  rw [hclass, hmethod] at hlong
  have hcause : MethodSignature.parse "(V)V" = .error (.stopped .unexpected "(V)V") := by
    decide +kernel
  exact ⟨sig, hparse, hlong.mpr ⟨siblings, by simp, rfl, ⟨"f", "(V)V", false, true⟩, by decide, rfl,
    Or.inl ⟨_, hcause⟩⟩⟩

end JniHeaders
