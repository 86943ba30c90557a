import JniHeaders.Input
import JniHeaders.Proofs.ClassAssembly
import JniHeaders.Proofs.StandardReaders

/-!
Reading back the classes that are assembled. The bytes are a class file of the class, so a reader
that keeps to the rules of the format reads the class as it was, unless it breaks one of the rules
itself: it may be that a method is declared twice, although each has a name and a descriptor that
are in order.
-/

namespace JniHeaders.ClassFile

/-- A class that is assembled is read back with its names, now with dots, and with its methods in
order, each with its name and descriptor and the flags of static and of native methods. -/
theorem assembled_classes_are_read_back [Formats] [Formats.Lawful] (source : ClassFile)
    (hfits : source.Fits) (hlegal : source.Legal) :
    parseClass source.assemble = .ok {
      name := qualifiedName source.name
      superclass := source.superclass.map qualifiedName
      interfaces := source.interfaces.map qualifiedName
      isInterface := source.flags.testBit 9
      methods := source.methods.map fun method =>
        ⟨method.name, method.descriptor, method.flags.testBit 3, method.flags.testBit 8⟩ } := by
  have hread := Formats.Lawful.reads_legal (assemble_encodes hfits) hlegal
  have hmethod : ∀ method : Member, method.info =
      ⟨method.name, method.descriptor, method.flags.testBit 3, method.flags.testBit 8⟩ := by
    intro method
    rw [Nat.testBit_eq_decide_div_mod_eq, Nat.testBit_eq_decide_div_mod_eq]
    rfl
  have hinterface : hasFlag source.flags 0x0200 = source.flags.testBit 9 := by
    rw [Nat.testBit_eq_decide_div_mod_eq]
    rfl
  rw [parseClass_eq_ok_iff, read, hread, Option.map_some, info, hinterface]
  simp only [hmethod]

/-- A class with a method of its own name, which takes the class as a parameter. -/
def namesake : ClassFile where
  flags := 0x0001
  name := "p/Code"
  superclass := some "java/lang/Object"
  interfaces := ["java/lang/Runnable"]
  methods := [⟨0x0101, "Code", "()V"⟩, ⟨0x0109, "Code", "(Lp/Code;)V"⟩]

/-- The two methods share the text of their name. -/
theorem namesake_is_read_back :
    namesake.Fits ∧ namesake.Legal ∧ namesake.layout.entries.length = 9 ∧
    parseClass namesake.assemble = .ok ⟨"p.Code", some "java.lang.Object", ["java.lang.Runnable"],
      false, [⟨"Code", "()V", false, true⟩, ⟨"Code", "(Lp/Code;)V", true, true⟩]⟩ := by
  have hfits : namesake.Fits := by
    constructor <;> decide
  have hname : IsMethodText "Code" := by decide
  have hsignatures : ∀ method ∈ namesake.methods, ∃ sig, HasSignature false method sig := by
    simp only [namesake, List.forall_mem_cons, List.not_mem_nil, false_implies, implies_true,
      and_true]
    constructor
    · refine ⟨⟨[], .primitive .void⟩, Or.inr (Or.inr hname), ⟨by simp, Or.inl rfl⟩, rfl,
        fun _ => rfl, fun _ => rfl⟩
    · refine ⟨⟨[.object "p.Code"], .primitive .void⟩, Or.inr (Or.inr hname),
        ⟨fun type htype => ?_, Or.inl rfl⟩, rfl, fun _ => rfl, by decide⟩
      rw [List.mem_singleton.mp htype]
      exact ⟨by decide, by decide⟩
  have hlegal : namesake.Legal := ⟨⟨by decide, hsignatures⟩, by decide, by decide, by decide⟩
  exact ⟨hfits, hlegal, rfl, assembled_classes_are_read_back namesake hfits hlegal⟩

def repeating : ClassFile :=
  ⟨0x0021, "A", some "java/lang/Object", [], [⟨0x0101, "f", "()V"⟩, ⟨0x0101, "f", "()V"⟩]⟩

def bracketed : ClassFile := ⟨0x0021, "p/A<B>", some "java/lang/Object", [], []⟩

def takingBracketed : ClassFile :=
  ⟨0x0021, "A", some "java/lang/Object", [], [⟨0x0101, "f", "(La<b;)V"⟩]⟩

def flaggedAsModule : ClassFile := ⟨0x8021, "A", some "java/lang/Object", [], []⟩

theorem hasSignature_f (parameters : List JavaType)
    (hparameters : ∀ type ∈ parameters, type.WellFormed) :
    HasSignature false
      ⟨0x0101, "f", (MethodSignature.mk parameters (.primitive .void)).encode⟩
      ⟨parameters, .primitive .void⟩ := by
  have hname : IsMethodText "f" := by decide
  have hclinit : "f" ≠ "<clinit>" := by decide
  exact ⟨Or.inr (Or.inr hname), ⟨hparameters, Or.inl rfl⟩, rfl, fun _ => rfl,
    fun heq => absurd heq hclinit⟩

/-- Names and descriptors that are in order are not enough. -/
theorem spelled_classes_are_refused :
    (repeating.Fits ∧ repeating.Spelled ∧
      parseClass repeating.assemble = .error .badClassFile) ∧
    (bracketed.Fits ∧ bracketed.Spelled ∧
      parseClass bracketed.assemble = .error .badClassFile) ∧
    (takingBracketed.Fits ∧ takingBracketed.Spelled ∧
      parseClass takingBracketed.assemble = .error .badClassFile) ∧
    flaggedAsModule.Fits ∧ flaggedAsModule.Spelled ∧
      parseClass flaggedAsModule.assemble = .error .badClassFile := by
  have hf : ∃ sig, HasSignature false ⟨0x0101, "f", "()V"⟩ sig := ⟨_, hasSignature_f [] (by simp)⟩
  have htaking : ∃ sig, HasSignature false ⟨0x0101, "f", "(La<b;)V"⟩ sig :=
    ⟨_, hasSignature_f [.object "a<b"] (List.forall_mem_singleton.mpr ⟨by decide, by decide⟩)⟩
  refine ⟨⟨by constructor <;> decide, ⟨by decide, ?_⟩, by decide +kernel⟩,
    ⟨by constructor <;> decide, ⟨by decide, nofun⟩, by decide +kernel⟩,
    ⟨by constructor <;> decide, ⟨by decide, ?_⟩, by decide +kernel⟩,
    by constructor <;> decide, ⟨by decide, nofun⟩, by decide +kernel⟩
  · exact List.forall_mem_cons.mpr ⟨hf, List.forall_mem_singleton.mpr hf⟩
  · exact List.forall_mem_singleton.mpr htaking

end JniHeaders.ClassFile
