import JniHeaders.Proofs.AncestrySearch
import JniHeaders.Proofs.LookupMemory
import Mathlib.Logic.Relation

/-!
Inheritance in hierarchies that a compiler accepts. There a class inherits from a class along
superclasses only: a path that enters an interface can leave the interfaces for the root alone, and
the root is above every class anyway. So a search that leaves interfaces out where the ancestor is
a class finds the same as one that follows all parents. The platform stubs are such a hierarchy.
-/

namespace JniHeaders

open Relation Ancestry

section

variable (answers : String → Except Error ClassInfo)

def Resolves (name : String) : Prop := ∃ info, answers name = .ok info

def HasParent (throughInterfaces : Bool) (name parent : String) : Prop :=
  ∃ info, answers name = .ok info ∧ parent ∈ parents throughInterfaces info

/-- A class is reached by superclasses and interfaces in any mix. -/
def Inherits (name ancestor : String) : Prop := ReflTransGen (HasParent answers true) name ancestor

structure WellFormedHierarchy : Prop where
  resolves : ∀ name info, answers name = .ok info →
    ∀ parent ∈ info.superclass.toList ++ info.interfaces, Resolves answers parent
  interfaces : ∀ name info, answers name = .ok info →
    ∀ parent ∈ info.interfaces, ∀ inherited, answers parent = .ok inherited →
      inherited.isInterface = true
  superclasses : ∀ name info, answers name = .ok info → info.isInterface = false →
    ∀ parent ∈ info.superclass, ∀ inherited, answers parent = .ok inherited →
      inherited.isInterface = false
  interface_superclass : ∀ name info, answers name = .ok info → info.isInterface = true →
    info.superclass = some objectName
  root : ∃ info, answers objectName = .ok info ∧ info.isInterface = false ∧
    info.superclass = none ∧ info.interfaces = []
  chains : ∀ name, Resolves answers name →
    ReflTransGen (HasParent answers false) name objectName

end

variable {answers : String → Except Error ClassInfo} {throughInterfaces : Bool}
  {name parent start ancestor : String} {info : ClassInfo}

theorem hasParent_true_iff :
    HasParent answers true name parent ↔
      HasParent answers false name parent ∨
        ∃ info, answers name = .ok info ∧ parent ∈ info.interfaces := by
  simp only [HasParent, parents, if_true, Bool.false_eq_true, if_false, List.append_nil,
    List.mem_append]
  constructor
  · rintro ⟨info, hinfo, hsuper | hinterface⟩
    · exact Or.inl ⟨info, hinfo, hsuper⟩
    · exact Or.inr ⟨info, hinfo, hinterface⟩
  · rintro (⟨info, hinfo, hsuper⟩ | ⟨info, hinfo, hinterface⟩)
    · exact ⟨info, hinfo, Or.inl hsuper⟩
    · exact ⟨info, hinfo, Or.inr hinterface⟩

namespace Ancestry

theorem Reached.path (h : Reached answers ancestor throughInterfaces start name) :
    ReflTransGen (HasParent answers throughInterfaces) start name := by
  induction h with
  | start => exact .refl
  | parent _ _ hinfo hparent ih => exact ih.tail ⟨_, hinfo, hparent⟩

theorem reached_of_path (h : ReflTransGen (HasParent answers throughInterfaces) start name) :
    Reached answers ancestor throughInterfaces start name ∨
      Reached answers ancestor throughInterfaces start ancestor := by
  induction h with
  | refl => exact Or.inl .start
  | @tail last parent _ hparent ih =>
    rcases ih with hlast | hpast
    · by_cases hsame : last = ancestor
      · rw [hsame] at hlast
        exact Or.inr hlast
      · obtain ⟨info, hinfo, hmem⟩ := hparent
        exact Or.inl (.parent hlast hsame hinfo hmem)
    · exact Or.inr hpast

theorem reached_ancestor_iff :
    Reached answers ancestor throughInterfaces start ancestor ↔
      ReflTransGen (HasParent answers throughInterfaces) start ancestor :=
  ⟨Reached.path, fun h => (reached_of_path h).elim id id⟩

end Ancestry

theorem inherits_of_chain (h : ReflTransGen (HasParent answers throughInterfaces) name ancestor) :
    Inherits answers name ancestor := by
  cases throughInterfaces with
  | true => exact h
  | false =>
    have hsub : HasParent answers false ≤ HasParent answers true :=
      fun _ _ hparent => hasParent_true_iff.mpr (Or.inl hparent)
    exact ReflTransGen.mono hsub _ _ h

namespace WellFormedHierarchy

variable (hwell : WellFormedHierarchy answers)
include hwell

theorem resolves_of_inherits (hname : Resolves answers name)
    (h : Inherits answers name ancestor) : Resolves answers ancestor := by
  induction h with
  | refl => exact hname
  | tail _ hparent _ =>
    obtain ⟨info, hinfo, hmem⟩ := hparent
    exact hwell.resolves _ info hinfo _ (by simpa [parents] using hmem)

theorem eq_root_of_chain
    (h : ReflTransGen (HasParent answers throughInterfaces) objectName ancestor) :
    ancestor = objectName := by
  rcases h.cases_head with rfl | ⟨parent, ⟨info, hinfo, hmem⟩, -⟩
  · rfl
  · obtain ⟨root, hroot, -, hsuper, hinterfaces⟩ := hwell.root
    rw [hroot] at hinfo
    cases hinfo
    simp [parents, hsuper, hinterfaces] at hmem

theorem eq_root_of_interface_chain (hinfo : answers name = .ok info)
    (hinterface : info.isInterface = true) (hother : name ≠ ancestor)
    (h : ReflTransGen (HasParent answers false) name ancestor) : ancestor = objectName := by
  rcases h.cases_head with hsame | ⟨parent, ⟨info', hinfo', hmem⟩, hrest⟩
  · exact absurd hsame hother
  · rw [hinfo] at hinfo'
    cases hinfo'
    have hparent : parent = objectName := by
      simpa [parents, hwell.interface_superclass name info hinfo hinterface, eq_comm] using hmem
    exact hwell.eq_root_of_chain (hparent ▸ hrest)

/-- A class is reached along superclasses wherever it is reached at all. -/
theorem chain_of_inherits (hclass : answers ancestor = .ok info)
    (hinterface : info.isInterface = false) (h : Inherits answers name ancestor) :
    ReflTransGen (HasParent answers false) name ancestor := by
  induction h using ReflTransGen.head_induction_on with
  | refl => exact .refl
  | @head name parent hparent _ ih =>
    rcases hasParent_true_iff.mp hparent with hsuper | ⟨child, hchild, hmem⟩
    · exact ih.head hsuper
    -- The path enters an interface here, so all that can follow of superclasses is the root.
    · obtain ⟨inherited, hinherited⟩ :=
        hwell.resolves name child hchild parent (List.mem_append_right _ hmem)
      have hentered := hwell.interfaces name child hchild parent hmem inherited hinherited
      have hother : parent ≠ ancestor := by
        rintro rfl
        rw [hclass] at hinherited
        cases hinherited
        rw [hinterface] at hentered
        cases hentered
      rw [hwell.eq_root_of_interface_chain hinherited hentered hother ih]
      exact hwell.chains name ⟨child, hchild⟩

theorem inherits_iff_chain (hancestor : answers ancestor = .ok info) :
    Inherits answers name ancestor ↔
      ReflTransGen (HasParent answers info.isInterface) name ancestor := by
  constructor
  · intro h
    cases hinterface : info.isInterface with
    | true => exact h
    | false => exact hwell.chain_of_inherits hancestor hinterface h
  · exact inherits_of_chain

end WellFormedHierarchy

namespace ClassPath

/-- The search follows interfaces only where the ancestor is one, and still finds what a search
that follows all parents finds. -/
theorem isSubclass_iff_inherits [Formats] {tree : FileTree} {path : ClassPath}
    (hwell : WellFormedHierarchy (path.answer tree)) {name ancestor : String}
    (hname : Resolves (path.answer tree) name) (hancestor : Resolves (path.answer tree) ancestor) :
    ((isSubclass tree name ancestor path).1 = .ok true ↔
        Inherits (path.answer tree) name ancestor) ∧
      (¬ Inherits (path.answer tree) name ancestor →
        (isSubclass tree name ancestor path).1 = .ok false) := by
  obtain ⟨info, hinfo⟩ := hancestor
  by_cases hsame : name = ancestor
  · subst hsame
    have hself : (isSubclass tree name name path).1 = .ok true := by
      unfold isSubclass Ancestry.isSubclass
      rw [if_pos rfl]
    exact ⟨iff_of_true hself .refl, fun hnot => absurd .refl hnot⟩
  · have hverdict : Justifies (path.answer tree) ancestor info.isInterface name
        (isSubclass tree name ancestor path).1 :=
      isSubclass_justifies (path.isFinite tree) resolve_of_same_answers rfl hsame hinfo
    have hresolves : ∀ other, Reached (path.answer tree) ancestor info.isInterface name other →
        other ≠ ancestor → Resolves (path.answer tree) other := fun other hreached _ =>
      hwell.resolves_of_inherits hname (inherits_of_chain hreached.path)
    obtain ⟨found, hanswer, hfound⟩ := hverdict.decides hinfo hresolves
    rw [reached_ancestor_iff, ← hwell.inherits_iff_chain hinfo] at hfound
    rw [hanswer, ← hfound]
    cases found with
    | true => simp
    | false => simp

theorem answer_empty_eq_ok_iff [Formats] {tree : FileTree} {name : String} {info : ClassInfo} :
    empty.answer tree name = .ok info ↔ platformStub? name = some info := by
  have hstub : empty.answer tree name = _ := answer_of_empty rfl
  simp only [empty, List.findSome?_nil, if_true] at hstub
  rw [empty, hstub]
  cases platformStub? name with
  | none => simp
  | some stub => simp

def climbs : Nat → ClassInfo → Bool
  | 0, info => info.name = objectName
  | steps + 1, info =>
    match info.superclass with
    | none => info.name = objectName
    | some parent => parent = objectName || (platformStub? parent).any (climbs steps)

theorem chain_of_climbs [Formats] {tree : FileTree} {steps : Nat} {name : String} {info : ClassInfo}
    (hinfo : platformStub? name = some info) (h : climbs steps info) :
    ReflTransGen (HasParent (empty.answer tree) false) name objectName := by
  induction steps generalizing name info with
  | zero =>
    have hname : info.name = name := by simpa using List.find?_some hinfo
    have hroot : name = objectName := by simpa [climbs, hname] using h
    exact hroot ▸ .refl
  | succ steps ih =>
    unfold climbs at h
    split at h
    · have hname : info.name = name := by simpa using List.find?_some hinfo
      have hroot : name = objectName := by simpa [hname] using h
      exact hroot ▸ .refl
    · rename_i parent hsuper
      have hparent : HasParent (empty.answer tree) false name parent :=
        ⟨info, answer_empty_eq_ok_iff.mpr hinfo, by simp [parents, hsuper]⟩
      simp only [Bool.or_eq_true, decide_eq_true_eq, Option.any_eq_true] at h
      rcases h with hroot | ⟨inherited, hinherited, hclimbs⟩
      · exact hroot ▸ .single hparent
      · exact (ih hinherited hclimbs).head hparent

theorem platformStubs_closed : ∀ info ∈ platformStubs,
    (∀ parent ∈ info.interfaces, (platformStub? parent).any (·.isInterface)) ∧
    (∀ parent ∈ info.superclass, (platformStub? parent).any fun stub => !stub.isInterface) ∧
    (info.isInterface → info.superclass = some objectName) ∧ climbs 5 info := by
  decide +kernel

theorem platformStubs_wellFormed [Formats] (tree : FileTree) :
    WellFormedHierarchy (empty.answer tree) := by
  have hstub : ∀ {name info}, empty.answer tree name = .ok info →
      platformStub? name = some info := answer_empty_eq_ok_iff.mp
  have hclosed : ∀ {name info}, empty.answer tree name = .ok info → _ :=
    fun hinfo => platformStubs_closed _ (List.mem_of_find?_eq_some (hstub hinfo))
  have hany : ∀ {parent kind}, (platformStub? parent).any kind →
      ∃ stub, empty.answer tree parent = .ok stub ∧ kind stub := by
    intro parent kind h
    obtain ⟨stub, hfound, hkind⟩ := (Option.any_eq_true _ _).mp h
    exact ⟨stub, answer_empty_eq_ok_iff.mpr hfound, hkind⟩
  constructor
  case resolves =>
    intro name info hinfo parent hparent
    obtain ⟨hinterfaces, hsuper, -⟩ := hclosed hinfo
    rcases List.mem_append.mp hparent with hmem | hmem
    · obtain ⟨stub, hfound, -⟩ := hany (hsuper parent (Option.mem_toList.mp hmem))
      exact ⟨stub, hfound⟩
    · obtain ⟨stub, hfound, -⟩ := hany (hinterfaces parent hmem)
      exact ⟨stub, hfound⟩
  case interfaces =>
    intro name info hinfo parent hmem inherited hinherited
    obtain ⟨stub, hfound, hkind⟩ := hany ((hclosed hinfo).1 parent hmem)
    rw [hinherited] at hfound
    cases hfound
    exact hkind
  case superclasses =>
    intro name info hinfo _ parent hmem inherited hinherited
    obtain ⟨stub, hfound, hkind⟩ := hany ((hclosed hinfo).2.1 parent hmem)
    rw [hinherited] at hfound
    cases hfound
    simpa using hkind
  case interface_superclass =>
    intro name info hinfo
    exact (hclosed hinfo).2.2.1
  case root => exact ⟨_, rfl, rfl, rfl, rfl⟩
  case chains =>
    rintro name ⟨info, hinfo⟩
    exact chain_of_climbs (hstub hinfo) (hclosed hinfo).2.2.2

/-- A list is iterable by way of two interfaces. -/
theorem stubs_inherit_through_interfaces :
    WellFormedHierarchy (empty.answer .empty) ∧
    Resolves (empty.answer .empty) "java.util.ArrayList" ∧
    Resolves (empty.answer .empty) "java.lang.Iterable" ∧
    (isSubclass .empty "java.util.ArrayList" "java.lang.Iterable" empty).1 = .ok true := by
  have hwell := platformStubs_wellFormed .empty
  have hlist : Resolves (empty.answer .empty) "java.util.ArrayList" := ⟨_, rfl⟩
  have hiterable : Resolves (empty.answer .empty) "java.lang.Iterable" := ⟨_, rfl⟩
  refine ⟨hwell, hlist, hiterable, (isSubclass_iff_inherits hwell hlist hiterable).1.mpr ?_⟩
  have hfirst : HasParent (empty.answer .empty) true "java.util.ArrayList" "java.util.List" := by
    refine ⟨_, rfl, ?_⟩
    decide
  have hsecond : HasParent (empty.answer .empty) true "java.util.List" "java.util.Collection" := by
    refine ⟨_, rfl, ?_⟩
    decide
  have hthird : HasParent (empty.answer .empty) true "java.util.Collection"
      "java.lang.Iterable" := by
    refine ⟨_, rfl, ?_⟩
    decide
  exact .head hfirst (.head hsecond (.single hthird))

end ClassPath

end JniHeaders
