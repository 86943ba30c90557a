import JniHeaders.Proofs.OverloadResolution

/-!
What the header for a whole batch declares: each class, method name and parameter list of the
recorded methods once, where it first occurs, and no symbol twice.
-/

namespace JniHeaders

/-- What makes two native methods the same for the one who calls them. -/
def NativeMethod.identity (record : NativeMethod) : String × String × List JavaType :=
  (record.className, record.methodName, record.signature.parameters)

/-- A declaration repeats the record of a method, under one of its symbols. -/
structure Declaration.Tells (declaration : Declaration) (record : NativeMethod) : Prop where
  className : declaration.className = record.className
  methodName : declaration.methodName = record.methodName
  descriptor : declaration.descriptor = record.descriptor
  isStatic : declaration.isStatic = record.isStatic
  result : declaration.result = record.result
  parameters : declaration.parameters = record.parameters
  symbol : declaration.symbol = record.symbol.short ∨ declaration.symbol = record.symbol.long

/-- The classes that parameters of native methods name can be read back from symbols. -/
def PlainParameters (classes : List ClassInfo) : Prop :=
  ∀ info ∈ classes, ∀ method ∈ info.nativeMethods, ∀ sig,
    MethodSignature.parse method.descriptor = .ok sig →
      ∀ type ∈ sig.parameters, ∀ name ∈ type.objectName?, PlainName name

instance (descriptor : String) (P : MethodSignature → Prop) [DecidablePred P] :
    Decidable (∀ sig, MethodSignature.parse descriptor = .ok sig → P sig) :=
  match h : MethodSignature.parse descriptor with
  | .ok sig => decidable_of_iff (P sig)
      ⟨fun hsig _ heq => Except.ok.inj heq ▸ hsig, fun hall => hall sig rfl⟩
  | .error _ => isTrue fun _ heq => by cases heq

instance (classes : List ClassInfo) : Decidable (PlainParameters classes) :=
  inferInstanceAs (Decidable (∀ info ∈ classes, ∀ method ∈ info.nativeMethods, ∀ sig,
    MethodSignature.parse method.descriptor = .ok sig →
      ∀ type ∈ sig.parameters, ∀ name ∈ type.objectName?, PlainName name))

namespace Extraction

theorem declare_tells (extraction : Extraction) (record : NativeMethod) :
    (extraction.declare record).Tells record :=
  ⟨rfl, rfl, rfl, rfl, rfl, rfl, symbolOf_short_or_long extraction record⟩

variable {classes : List ClassInfo} {extraction : Extraction} (hnames : PlainlyNamed classes)
  (hsorted : Sorted (candidates classes) extraction.methods extraction.skipped)
include hnames hsorted

theorem distinguishable_of_recorded (hparameters : PlainParameters classes)
    {record : NativeMethod} (hrecord : record ∈ extraction.methods) :
    Distinguishable record.className record.methodName record.signature.parameters := by
  obtain ⟨hclass, hmethod⟩ := plain_of_recorded hnames hsorted hrecord
  obtain ⟨className, method, hmem, hrecords⟩ := hsorted.exists_recorded hrecord
  obtain ⟨info, hinfo, -, hnative⟩ := mem_candidates.mp hmem
  obtain ⟨hwellFormed, -⟩ := (MethodSignature.parse_eq_ok_iff _ _).mp hrecords.signature
  exact ⟨hclass, hmethod, fun type htype => (hwellFormed.parameters type htype).spelled,
    hparameters info hinfo method hnative _ hrecords.signature⟩

theorem long_eq_iff_identity_eq (hparameters : PlainParameters classes) {a b : NativeMethod}
    (ha : a ∈ extraction.methods) (hb : b ∈ extraction.methods) :
    a.symbol.long = b.symbol.long ↔ a.identity = b.identity := by
  rw [symbol_of_recorded hsorted ha, symbol_of_recorded hsorted hb]
  unfold NativeMethod.identity
  constructor
  · intro hlong
    obtain ⟨hclass, hmethod, htypes⟩ := Symbol.longName_injective
      (distinguishable_of_recorded hnames hsorted hparameters ha)
      (distinguishable_of_recorded hnames hsorted hparameters hb) hlong
    rw [hclass, hmethod, htypes]
  · intro hidentity
    obtain ⟨hclass, hrest⟩ := Prod.mk.inj hidentity
    obtain ⟨hmethod, htypes⟩ := Prod.mk.inj hrest
    rw [hclass, hmethod, htypes]

/-- Equal short symbols with different parameters are both given up for the long ones. -/
theorem symbolOf_ne {a b : NativeMethod} (ha : a ∈ extraction.methods)
    (hb : b ∈ extraction.methods) (hlong : a.symbol.long ≠ b.symbol.long) :
    extraction.symbolOf a ≠ extraction.symbolOf b := by
  intro hsame
  unfold symbolOf at hsame
  split at hsame
  · split at hsame
    · exact hlong hsame
    · exact short_ne_long_of_recorded hnames hsorted hb ha hsame.symm
  · rename_i hnot
    split at hsame
    · exact short_ne_long_of_recorded hnames hsorted ha hb hsame
    · obtain ⟨hclass, hmethod⟩ := (short_eq_iff_names_eq hnames hsorted ha hb).mp hsame
      have hother := types_mem_variants hb
      rw [← hsame] at hother
      refine hnot ((isOverloaded_iff_exists_ne (types_mem_variants ha)).mpr ⟨_, hother, ?_⟩)
      intro htypes
      apply hlong
      rw [symbol_of_recorded hsorted ha, symbol_of_recorded hsorted hb, hclass, hmethod,
        Parameters.types.inj htypes]

end Extraction

variable {σ : Type} {classes : List ClassInfo}

/-- The declarations are those of the first methods with their class, name and parameters, in
the order of the batch, and no two have one symbol. -/
theorem merged_declares_each_method_once (hnames : PlainlyNamed classes)
    (hparameters : PlainParameters classes) (oracle : Oracle σ) (state : σ)
    (options : HeaderOptions) :
    List.Forall₂
      (fun identity declaration => ∃ record,
        (Extraction.of oracle classes state).1.methods.find? (·.identity == identity) =
          some record ∧ declaration.Tells record)
      ((Extraction.of oracle classes state).1.methods.map (·.identity)).eraseDups
      ((Extraction.of oracle classes state).1.merged options).declarations ∧
    (((Extraction.of oracle classes state).1.merged options).declarations.map
      (·.symbol)).Nodup := by
  have hsorted := extraction_sorted oracle classes state
  constructor
  · have hkey : ∀ a ∈ (Extraction.of oracle classes state).1.methods,
        ∀ b ∈ (Extraction.of oracle classes state).1.methods,
        a.symbol.long = b.symbol.long ↔ a.identity = b.identity := by
      intro a ha b hb
      exact Extraction.long_eq_iff_identity_eq hnames hsorted hparameters ha hb
    apply List.forall₂_map_right_iff.mpr
    refine (Extraction.firsts_by_key (·.identity) _ hkey).imp ?_
    intro identity record hfind
    exact ⟨record, hfind, Extraction.declare_tells _ record⟩
  · rw [Extraction.merged, Extraction.declarations, List.map_map]
    refine List.pairwise_map.mpr ((Extraction.firsts_pairwise [] _).imp_of_mem ?_)
    intro a b ha hb hlong
    exact Extraction.symbolOf_ne hnames hsorted (Extraction.mem_of_mem_firsts ha).1
      (Extraction.mem_of_mem_firsts hb).1 hlong

def unrelated : Oracle Unit := fun _ _ state => (.ok false, state)

/-- Two methods that differ in their results only, and one that overloads them. -/
def overloaded : ClassInfo where
  name := "p.C_1"
  superclass := none
  interfaces := []
  isInterface := false
  methods := [⟨"f", "(I)V", true, true⟩, ⟨"f", "(I)J", false, true⟩,
    ⟨"f", "([Lp/Q_1;)V", false, true⟩, ⟨"g", "()V", false, true⟩]

theorem class_listed_twice_is_declared_once :
    PlainlyNamed [overloaded, overloaded] ∧ PlainParameters [overloaded, overloaded] ∧
    ((Extraction.of unrelated [overloaded, overloaded] ()).1.merged {}).declarations.map
        (·.symbol) =
      ["Java_p_C_11_f__I", "Java_p_C_11_f___3Lp_Q_11_2", "Java_p_C_11_g"] ∧
    (((Extraction.of unrelated [overloaded, overloaded] ()).1.merged {}).declarations.map
      (·.symbol)).Nodup ∧
    ((Extraction.of unrelated [overloaded, overloaded] ()).1.methods.map
        (·.identity)).eraseDups.length =
      ((Extraction.of unrelated [overloaded, overloaded] ()).1.merged {}).declarations.length := by
  have hnames : PlainlyNamed [overloaded, overloaded] := by decide
  have hparameters : PlainParameters [overloaded, overloaded] := by decide +kernel
  obtain ⟨honce, hdistinct⟩ :=
    merged_declares_each_method_once hnames hparameters unrelated () {}
  exact ⟨hnames, hparameters, by decide +kernel, hdistinct, honce.length_eq⟩

end JniHeaders
