import JniHeaders.Proofs.ConstantLayout

/-!
Assembling class files without fields, code or attributes. The names and texts of a class are laid
out first, each once, and the class refers to them by slot. In the end every slot stands for what it
was given for, so that the bytes are a class file of the class.
-/

namespace JniHeaders.ClassFile

def placeSuperclass : Option String → List Entry → Nat × List Entry
  | none, entries => (0, entries)
  | some name, entries => placeClass name entries

def placeMethod (method : Member) (entries : List Entry) : MethodSlots × List Entry :=
  let (name, entries) := placeText method.name entries
  let (descriptor, entries) := placeText method.descriptor entries
  (⟨method.flags, name, descriptor⟩, entries)

/-- Gives everything that a class refers to a slot, in the order in which it refers to it. The class
file is of version 52. -/
def layout (source : ClassFile) : Layout :=
  let (name, entries) := placeClass source.name []
  let (superclass, entries) := placeSuperclass source.superclass entries
  let (interfaces, entries) := runAll placeClass source.interfaces entries
  let (methods, entries) := runAll placeMethod source.methods entries
  { minor := 0
    major := 52
    entries := entries
    flags := source.flags
    name := name
    superclass := superclass
    interfaces := interfaces
    methods := methods }

def assemble (source : ClassFile) : List UInt8 := source.layout.bytes

def texts (source : ClassFile) : List String :=
  source.names ++ source.methods.flatMap fun method => [method.name, method.descriptor]

structure Fits (source : ClassFile) : Prop where
  flags : source.flags < 0x10000
  methodFlags : ∀ method ∈ source.methods, method.flags < 0x10000
  texts : ∀ text ∈ source.texts, text.utf8ByteSize < 0x10000
  constants : source.layout.entries.length + 1 < 0x10000
  interfaces : source.interfaces.length < 0x10000
  methods : source.methods.length < 0x10000

section Placing

variable {names texts : List String}

theorem placeSuperclass_places {superclass : Option String}
    (h : ∀ name ∈ superclass, name ∈ names ∧ name ∈ texts) :
    Places names texts (placeSuperclass superclass)
      fun entries slot => IsSuperclass entries slot superclass := by
  cases superclass with
  | none =>
    exact ⟨fun entries => List.prefix_refl entries, fun _ h => h, fun _ => rfl, fun _ _ _ _ h => h⟩
  | some name =>
    obtain ⟨hname, htext⟩ := h name rfl
    exact placeClass_places hname htext

theorem placeMethod_places {method : Member} (hname : method.name ∈ texts)
    (hdescriptor : method.descriptor ∈ texts) :
    Places names texts (placeMethod method)
      fun entries slots => IsMethod entries slots method := by
  have hfirst : Places names texts (placeText method.name) _ := placeText_places hname
  have hsecond : Places names texts (placeText method.descriptor) _ :=
    placeText_places hdescriptor
  constructor
  · intro entries
    exact (hfirst.grows entries).trans (hsecond.grows _)
  · intro entries hentries
    exact hsecond.consistent _ (hfirst.consistent entries hentries)
  · intro entries
    have hstays := hfirst.stays _ _ _ (hsecond.grows _) (hfirst.placed entries)
    exact ⟨rfl, hstays, hsecond.placed _⟩
  · rintro entries more slots hprefix ⟨hflags, hname, hdescriptor⟩
    exact ⟨hflags, hname.mono hprefix, hdescriptor.mono hprefix⟩

end Placing

variable {source : ClassFile}

theorem layout_consistent_and_describes (source : ClassFile) :
    Consistent source.names source.texts source.layout.entries ∧
      source.layout.Describes source := by
  have hname : Places source.names source.texts (placeClass source.name) _ :=
    placeClass_places (by simp [names]) (by simp [texts, names])
  have hsuperclass : Places source.names source.texts (placeSuperclass source.superclass)
      fun entries slot => IsSuperclass entries slot source.superclass := by
    refine placeSuperclass_places fun name h => ?_
    have hmem : name ∈ source.names := by
      simp only [names, List.mem_cons, List.mem_append]
      exact Or.inr (Or.inl (Option.mem_toList.mpr h))
    exact ⟨hmem, List.mem_append_left _ hmem⟩
  have hinterface : ∀ name ∈ source.interfaces, Places source.names source.texts (placeClass name)
      fun entries slot => IsClass entries slot name := by
    intro name h
    have hmem : name ∈ source.names := by simp [names, h]
    exact placeClass_places hmem (List.mem_append_left _ hmem)
  have hmethod : ∀ method ∈ source.methods, Places source.names source.texts (placeMethod method)
      fun entries slots => IsMethod entries slots method := by
    intro method h
    refine placeMethod_places ?_ ?_ <;>
      exact List.mem_append_right _ (List.mem_flatMap.mpr ⟨method, h, by simp⟩)
  have hinterfaces := runAll_places hinterface
  have hmethods := runAll_places hmethod
  have hempty : Consistent source.names source.texts [] := ⟨by simp, by simp⟩
  have hconsistent := hmethods.consistent _ (hinterfaces.consistent _
    (hsuperclass.consistent _ (hname.consistent _ hempty)))
  refine ⟨hconsistent, rfl, ?_, ?_, ?_, hmethods.placed _, hconsistent.classes⟩
  · refine hname.stays _ _ _ ?_ (hname.placed [])
    exact (hsuperclass.grows _).trans ((hinterfaces.grows _).trans (hmethods.grows _))
  · refine hsuperclass.stays _ _ _ ?_ (hsuperclass.placed _)
    exact (hinterfaces.grows _).trans (hmethods.grows _)
  · exact hinterfaces.stays _ _ _ (hmethods.grows _) (hinterfaces.placed _)

theorem layout_fits (h : source.Fits) : source.layout.Fits := by
  obtain ⟨hconsistent, hdescribes⟩ := layout_consistent_and_describes source
  have hcount := h.constants
  have hversion : 52 < 0x10000 := by decide
  refine ⟨Nat.zero_lt_succ _, hversion, ?_, hcount, h.flags, ?_, ?_, ?_⟩
  · intro entry hentry
    cases entry with
    | text value => exact h.texts value (hconsistent.texts value hentry)
    | classOf slot =>
      obtain ⟨name, -, hfound⟩ := hconsistent.classes slot hentry
      have hslot := le_of_entryAt? hfound
      unfold Entry.Fits
      omega
  · rw [hdescribes.interfaces.length_eq]
    exact h.interfaces
  · rw [hdescribes.methods.length_eq]
    exact h.methods
  · intro slots hslots
    obtain ⟨i, hi, rfl⟩ := List.getElem_of_mem hslots
    obtain ⟨hlength, hmethods⟩ := List.forall₂_iff_get.mp hdescribes.methods
    have hflags := (hmethods i hi (hlength ▸ hi)).1
    rw [List.get_eq_getElem] at hflags
    rw [hflags]
    exact h.methodFlags _ (List.get_mem _ _)

theorem assemble_encodes (h : source.Fits) : Encodes source.assemble source := by
  have hversion : 51 ≤ 52 := by decide
  exact ⟨source.layout, hversion, layout_fits h, (layout_consistent_and_describes source).2, rfl⟩

end JniHeaders.ClassFile
