import JniHeaders.ClassFile.Decoder
import JniHeaders.Proofs.ClassFileFormat

/-!
The checks of the decoder. They accept the names and the signatures that a class file may hold, and
no others as long as nothing follows a descriptor.
-/

namespace JniHeaders.ClassFile

open Descriptor

def IsClassText (name : String) : Prop := IsNameText name.toList ∧ AngleFree name.toList

instance (name : String) : Decidable (IsClassText name) :=
  inferInstanceAs (Decidable (IsNameText name.toList ∧ AngleFree name.toList))

theorem angleFree_iff (text : List Char) :
    AngleFree text ↔ text.all (fun c => c ≠ '<' && c ≠ '>') = true := by
  simp [AngleFree]

theorem angleFree_append (first second : List Char) :
    AngleFree (first ++ second) ↔ AngleFree first ∧ AngleFree second :=
  List.forall_mem_append

theorem angleFree_slashed (name : List Char) :
    AngleFree (name.map slashed) ↔ AngleFree name := by
  unfold AngleFree
  rw [List.forall_mem_map]
  refine forall₂_congr fun c _ => ?_
  unfold slashed
  split
  · rename_i hdot
    simp [hdot]
  · rfl

theorem isBinaryText_iff_segmented (fresh : Bool) (text : List Char) :
    isBinaryText fresh text = true ↔
      Segmented isUnqualified isUnqualified fresh (text.map swapped) := by
  induction text generalizing fresh with
  | nil => cases fresh <;> simp [isBinaryText, Segmented]
  | cons c text ih =>
    have hdot : swapped c = '.' ↔ c = '/' := swapped_eq_iff c '.'
    simp only [isBinaryText, Segmented, List.map_cons, hdot, isUnqualified_swapped, ite_self]
    by_cases hslash : c = '/'
    · cases fresh <;> simp [hslash, ih]
    · simp [hslash, ih]

theorem isBinaryName_iff (name : String) : isBinaryName name = true ↔ IsNameText name.toList := by
  unfold isBinaryName
  rw [isBinaryText_iff_segmented, isNameText_iff, legalName_iff_segmented, String.toList_ofList]

/-- A name between slashes has none of the characters that end a name in a descriptor. -/
theorem slash_or_unqualified {fresh : Bool} {text : List Char} (h : isBinaryText fresh text = true)
    {c : Char} (hc : c ∈ text) : c = '/' ∨ isUnqualified c := by
  induction text generalizing fresh with
  | nil => cases hc
  | cons d text ih =>
    unfold isBinaryText at h
    split at h
    · rename_i hslash
      rcases List.mem_cons.mp hc with rfl | htail
      · exact Or.inl hslash
      · exact ih (Bool.and_eq_true_iff.mp h).2 htail
    · obtain ⟨hunqualified, hrest⟩ := Bool.and_eq_true_iff.mp h
      rcases List.mem_cons.mp hc with rfl | htail
      · exact Or.inr hunqualified
      · exact ih hrest htail

/-- A class constant may also name an array, but then it names no class proper. -/
theorem isClassText_iff (name : String) :
    IsClassText name ↔
      (isBinaryName name || isArrayDescriptor name) = true ∧ isClassName name = true := by
  unfold IsClassText
  rw [angleFree_iff, ← isBinaryName_iff]
  constructor
  · rintro ⟨hname, hangles⟩
    refine ⟨by rw [hname, Bool.true_or], List.all_eq_true.mpr fun c hc => ?_⟩
    have hangle := List.all_eq_true.mp hangles c hc
    rcases slash_or_unqualified hname hc with rfl | hunqualified
    · rfl
    · simp only [isUnqualified, Bool.and_eq_true] at hunqualified
      simp_all
  · rintro ⟨hform, hproper⟩
    have hproper := List.all_eq_true.mp hproper
    constructor
    · rcases Bool.or_eq_true_iff.mp hform with hname | harray
      · exact hname
      · have hbracket : name.toList.head? = some '[' :=
          of_decide_eq_true (Bool.and_eq_true_iff.mp harray).1
        have hmem := List.mem_of_head? hbracket
        exact absurd (hproper '[' hmem) (by decide)
    · exact List.all_eq_true.mpr fun c hc => by
        have := hproper c hc
        simp_all

theorem isMemberType_iff {type : JavaType} (h : type.Spelled) :
    isMemberType type = true ↔ type.dimensions ≤ maxDimensions ∧ AngleFree type.text := by
  induction type with
  | primitive kind => cases kind <;> decide
  | object name =>
    have hends : AngleFree ['L'] ∧ AngleFree [';'] := by simp [AngleFree]
    have htext : (JavaType.object name).text = ['L'] ++ name.toList.map slashed ++ [';'] := rfl
    rw [isMemberType, ← angleFree_iff, htext, angleFree_append, angleFree_append,
      angleFree_slashed]
    simp [JavaType.dimensions, hends]
  | array dimensions element ih =>
    obtain ⟨-, helement, hspelled⟩ := h
    have hflat : element.dimensions ≤ maxDimensions := by
      cases element <;> simp_all [JavaType.isArray, JavaType.dimensions]
    have hbrackets : AngleFree (List.replicate dimensions '[') := by
      simp [AngleFree, List.mem_replicate]
    have htext : (JavaType.array dimensions element).text =
        List.replicate dimensions '[' ++ element.text := rfl
    have hdimensions : (JavaType.array dimensions element).dimensions = dimensions := rfl
    rw [isMemberType, Bool.and_eq_true, decide_eq_true_iff, ih hspelled, htext, hdimensions,
      angleFree_append]
    simp [hflat, hbrackets]

theorem fieldOf?_text {type : JavaType} (h : type.WellFormed) (hangles : AngleFree type.text) :
    fieldOf? type.text = some (type, []) := by
  have hread := fieldType_text h.spelled []
  have hmember := (isMemberType_iff h.spelled).mpr ⟨h.bounded, hangles⟩
  rw [List.append_nil] at hread
  simp only [fieldOf?, hread, hmember, if_true]

theorem fieldOf?_sound {text rest : List Char} {type : JavaType}
    (h : fieldOf? text = some (type, rest)) :
    type.WellFormed ∧ AngleFree type.text ∧ text = type.text ++ rest := by
  unfold fieldOf? at h
  split at h
  · rename_i hread
    split at h
    · rename_i hmember
      cases h
      obtain ⟨hspelled, htext⟩ := fieldType_sound hread
      obtain ⟨hbounded, hangles⟩ := (isMemberType_iff hspelled).mp hmember
      exact ⟨⟨hspelled, hbounded⟩, hangles, htext⟩
    · cases h
  · cases h

theorem angleFree_flatMap (types : List JavaType) :
    AngleFree (types.flatMap JavaType.text) ↔ ∀ type ∈ types, AngleFree type.text := by
  simp only [AngleFree, List.mem_flatMap]
  exact ⟨fun h type htype c hc => h c ⟨type, htype, hc⟩,
    fun h c ⟨type, htype, hc⟩ => h type htype c hc⟩

theorem angleFree_signature (sig : MethodSignature) :
    AngleFree sig.text ↔
      (∀ type ∈ sig.parameters, AngleFree type.text) ∧ AngleFree sig.result.text := by
  have hends : AngleFree ['('] ∧ AngleFree [')'] := by simp [AngleFree]
  have htext : sig.text =
      ['('] ++ sig.parameters.flatMap JavaType.text ++ ([')'] ++ sig.result.text) := rfl
  simp only [htext, angleFree_append, angleFree_flatMap, hends, true_and]

theorem methodOf?_text {sig : MethodSignature} (h : sig.WellFormed) (hangles : AngleFree sig.text) :
    methodOf? sig.text = some (sig, []) := by
  obtain ⟨types, result⟩ := sig
  obtain ⟨hparameters, hresult⟩ := (angleFree_signature _).mp hangles
  have hspelled : ∀ type ∈ types, type.Spelled :=
    fun type htype => (h.parameters type htype).spelled
  have hread := parameters_text hspelled result.text
  have hmembers : types.all isMemberType = true := by
    refine List.all_eq_true.mpr fun type htype => (isMemberType_iff (hspelled type htype)).mpr ?_
    exact ⟨(h.parameters type htype).bounded, hparameters type htype⟩
  simp only [MethodSignature.text, List.cons_append, methodOf?, hread, hmembers, Bool.not_true]
  rcases h.result with hvoid | hwellFormed
  · obtain rfl : result = .primitive .void := hvoid
    rfl
  · obtain ⟨c, tail, htext, -, hc⟩ := text_head hwellFormed.spelled
    have hother : result.text ≠ ['V'] := by simp [htext, hc]
    simp only [if_neg hother, fieldOf?_text hwellFormed hresult]
    rfl

theorem methodOf?_sound {text rest : List Char} {sig : MethodSignature}
    (h : methodOf? text = some (sig, rest)) :
    sig.WellFormed ∧ AngleFree sig.text ∧ text = sig.text ++ rest := by
  unfold methodOf? at h
  split at h
  · split at h
    · rename_i types after hread
      obtain ⟨hspelled, rfl⟩ := parameters_sound hread
      split at h
      · cases h
      · rename_i hmembers
        have hmembers : ∀ type ∈ types, type.dimensions ≤ maxDimensions ∧ AngleFree type.text := by
          intro type htype
          have hall := List.all_eq_true.mp (by simpa using hmembers) type htype
          exact (isMemberType_iff (hspelled type htype)).mp hall
        have hwellFormed : ∀ type ∈ types, type.WellFormed :=
          fun type htype => ⟨hspelled type htype, (hmembers type htype).1⟩
        have hangles : ∀ type ∈ types, AngleFree type.text :=
          fun type htype => (hmembers type htype).2
        split at h
        · rename_i hvoid
          cases h
          have hangle : AngleFree ['V'] := by decide
          refine ⟨⟨hwellFormed, Or.inl rfl⟩, (angleFree_signature _).mpr ⟨hangles, hangle⟩, ?_⟩
          simp [MethodSignature.text, JavaType.text, Primitive.code, hvoid]
        · obtain ⟨⟨result, rest'⟩, hresult, heq⟩ := Option.map_eq_some_iff.mp h
          cases heq
          obtain ⟨hfield, hangle, htext⟩ := fieldOf?_sound hresult
          refine ⟨⟨hwellFormed, Or.inr hfield⟩, (angleFree_signature _).mpr ⟨hangles, hangle⟩, ?_⟩
          simp [MethodSignature.text, htext]
    · cases h
  · cases h

theorem isMethodName_iff (isInterface : Bool) (name : String) :
    isMethodName isInterface name = true ↔
      name = "<clinit>" ∨ name = "<init>" ∧ isInterface = false ∨ IsMethodText name := by
  have hempty : (!name.toList.isEmpty) = true ↔ name ≠ "" := by simp
  rw [isMethodName, isUnqualifiedName, IsMethodText, ← hempty, angleFree_iff]
  simp only [Bool.or_eq_true, Bool.and_eq_true, decide_eq_true_iff, List.all_eq_true,
    Bool.not_eq_true', and_assoc, or_assoc]

/-- Since version 51, what creates a class takes no parameters. -/
theorem fitsName_iff {major : Nat} (hmajor : 51 ≤ major) (name : String) (sig : MethodSignature) :
    fitsName major name sig = true ↔
      (name = "<init>" ∨ name = "<clinit>" → sig.result = .primitive .void) ∧
      (name = "<clinit>" → sig.parameters = []) := by
  have hvoid : sig.result.isVoid = true ↔ sig.result = .primitive .void := beq_iff_eq
  have hnew : ¬ major < 51 := Nat.not_lt.mpr hmajor
  unfold fitsName
  by_cases hinit : name = "<init>"
  · simp [hinit, hvoid]
  · by_cases hclinit : name = "<clinit>"
    · simp [hclinit, hvoid, hnew]
    · simp [hinit, hclinit]

/-- A method is read under its own name and with the descriptor that it was written with exactly if
it can have a signature. -/
theorem methodKey?_iff {major : Nat} (hmajor : 51 ≤ major) (isInterface : Bool) (method : Member)
    (name : String) (sig : MethodSignature) :
    method.methodKey? major isInterface = some (name, sig) ∧ sig.encode = method.descriptor ↔
      name = method.name ∧ HasSignature isInterface method sig ∧
        AngleFree method.descriptor.toList := by
  unfold Member.methodKey?
  constructor
  · rintro ⟨hkey, hdescriptor⟩
    split at hkey
    · rename_i hname
      split at hkey
      · rename_i rest hread
        split at hkey
        · rename_i hfits
          cases hkey
          obtain ⟨hwellFormed, hangles, htext⟩ := methodOf?_sound hread
          obtain ⟨hvoid, hnone⟩ := (fitsName_iff hmajor _ _).mp hfits
          refine ⟨rfl,
            ⟨(isMethodName_iff _ _).mp hname, hwellFormed, hdescriptor, hvoid, hnone⟩, ?_⟩
          rwa [← hdescriptor, MethodSignature.encode, String.toList_ofList]
        · cases hkey
      · cases hkey
    · cases hkey
  · rintro ⟨rfl, h, hangles⟩
    rw [← h.descriptor, MethodSignature.encode, String.toList_ofList] at hangles
    have hread := methodOf?_text h.wellFormed hangles
    have htext : method.descriptor.toList = sig.text := by
      rw [← h.descriptor, MethodSignature.encode, String.toList_ofList]
    have hfits := (fitsName_iff hmajor method.name sig).mpr ⟨h.result, h.parameters⟩
    rw [if_pos ((isMethodName_iff _ _).mpr h.name), htext, hread]
    exact ⟨if_pos hfits, h.descriptor⟩

end JniHeaders.ClassFile
