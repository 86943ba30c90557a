import JniHeaders.Proofs.ExportedClasses
import Mathlib.Data.List.Nodup

/-!
Inputs that can be put in the place of one another. An input with the same classes, in an order of
its own, does not change which names are exported, nor why it fails if it does; with one class of
each name it does not change which classes are exported.
-/

namespace JniHeaders

/-- Both results are errors for one reason, or neither is and their values are alike. -/
def AgreeUpTo {α : Type} (alike : α → α → Prop) : Except Error α → Except Error α → Prop
  | .ok first, .ok second => alike first second
  | .error first, .error second => first = second
  | _, _ => False

namespace AgreeUpTo

variable {α β : Type} {alike : α → α → Prop} {first second : Except Error α}

theorem map {alike' : β → β → Prop} (h : AgreeUpTo alike first second) (f : α → β)
    (hmap : ∀ a b, alike a b → alike' (f a) (f b)) :
    AgreeUpTo alike' (first.map f) (second.map f) := by
  cases first with
  | error cause => cases second <;> exact h
  | ok a =>
    cases second with
    | error cause => exact h
    | ok b => exact hmap a b h

theorem imp {alike' : α → α → Prop} (h : AgreeUpTo alike first second)
    (himp : ∀ a b, alike a b → alike' a b) : AgreeUpTo alike' first second := by
  have hmapped := h.map id himp
  rw [Except.map_id] at hmapped
  exact hmapped

end AgreeUpTo

theorem mem_firstOfEachName_iff {infos : List ClassInfo} {info : ClassInfo} :
    info ∈ firstOfEachName infos ↔ infos.find? (·.name = info.name) = some info := by
  refine ⟨find?_of_mem_firstOfEachName, ?_⟩
  intro hfind
  induction infos with
  | nil => cases hfind
  | cons first infos ih =>
    by_cases hname : first.name = info.name
    · rw [List.find?_cons_of_pos (by simpa using hname)] at hfind
      rw [Option.some.inj hfind]
      exact List.mem_cons_self
    · rw [List.find?_cons_of_neg (by simpa using hname)] at hfind
      refine List.mem_cons_of_mem _ (List.mem_filter.mpr ⟨ih hfind, ?_⟩)
      exact decide_eq_true fun hsame => hname hsame.symm

theorem mem_names_firstOfEachName (infos : List ClassInfo) (name : String) :
    name ∈ (firstOfEachName infos).map (·.name) ↔ name ∈ infos.map (·.name) := by
  constructor
  · exact fun hname => ((firstOfEachName_sublist infos).map _).subset hname
  · intro hname
    obtain ⟨info, hinfo, rfl⟩ := List.mem_map.mp hname
    cases hfind : infos.find? (·.name = info.name) with
    | none => simpa using List.find?_eq_none.mp hfind info hinfo
    | some first =>
      have hsame : first.name = info.name := by simpa using List.find?_some hfind
      rw [← hsame] at hfind ⊢
      exact List.mem_map_of_mem (mem_firstOfEachName_iff.mpr hfind)

theorem names_firstOfEachName_perm {first second : List ClassInfo}
    (h : ∀ name, name ∈ first.map (·.name) ↔ name ∈ second.map (·.name)) :
    ((firstOfEachName first).map (·.name)).Perm ((firstOfEachName second).map (·.name)) := by
  refine (List.perm_ext_iff_of_nodup (firstOfEachName_nodup _) (firstOfEachName_nodup _)).mpr ?_
  intro name
  rw [mem_names_firstOfEachName, mem_names_firstOfEachName, h]

theorem firstOfEachName_perm {first second : List ClassInfo}
    (h : ∀ name, first.find? (·.name = name) = second.find? (·.name = name)) :
    (firstOfEachName first).Perm (firstOfEachName second) := by
  have hfirst := List.Nodup.of_map _ (firstOfEachName_nodup first)
  have hsecond := List.Nodup.of_map _ (firstOfEachName_nodup second)
  refine (List.perm_ext_iff_of_nodup hfirst hsecond).mpr ?_
  intro info
  rw [mem_firstOfEachName_iff, mem_firstOfEachName_iff, h]

theorem find?_eq_some_iff_of_nodup {α β : Type} [DecidableEq β] {items : List α} {key : α → β}
    (hnodup : (items.map key).Nodup) (wanted : β) (item : α) :
    items.find? (key · = wanted) = some item ↔ item ∈ items ∧ key item = wanted := by
  constructor
  · intro hfind
    exact ⟨List.mem_of_find?_eq_some hfind, by simpa using List.find?_some hfind⟩
  · rintro ⟨hitem, rfl⟩
    cases hfind : items.find? (key · = key item) with
    | none => simpa using List.find?_eq_none.mp hfind item hitem
    | some first =>
      have hmem := List.mem_of_find?_eq_some hfind
      have hkey : key first = key item := by simpa using List.find?_some hfind
      rw [List.inj_on_of_nodup_map hnodup hmem hitem hkey]

theorem find?_of_perm {first second : List ClassInfo} (hperm : first.Perm second)
    (hnodup : (first.map (·.name)).Nodup) (name : String) :
    first.find? (·.name = name) = second.find? (·.name = name) := by
  have hother := (hperm.map (·.name)).nodup_iff.mp hnodup
  apply Option.ext
  intro info
  rw [find?_eq_some_iff_of_nodup hnodup, find?_eq_some_iff_of_nodup hother, hperm.mem_iff]

namespace Settings

theorem choose_alike {first second : List ClassInfo}
    (h : (first.map (·.name)).Perm (second.map (·.name))) (selection : Option (List String)) :
    (∃ cause, choose first selection = .error cause ∧ choose second selection = .error cause) ∨
      ∃ kept others, choose first selection = .ok kept ∧ choose second selection = .ok others ∧
        (kept.map (·.name)).Perm (others.map (·.name)) ∧ (first.Perm second → kept.Perm others) := by
  cases selection with
  | none => exact Or.inr ⟨first, second, rfl, rfl, h, id⟩
  | some names =>
    have hmissing : names.find? (· ∉ first.map (·.name)) =
        names.find? (· ∉ second.map (·.name)) := by
      simp only [h.mem_iff]
    cases hfind : names.find? (· ∉ second.map (·.name)) with
    | some missing =>
      rw [hfind] at hmissing
      exact Or.inl ⟨_, choose_of_missing hmissing, choose_of_missing hfind⟩
    | none =>
      rw [hfind] at hmissing
      refine Or.inr ⟨_, _, choose_of_known hmissing, choose_of_known hfind, ?_, ?_⟩
      · have hkept := h.filter fun name => name ∈ names
        rwa [List.filter_map, List.filter_map] at hkept
      · exact fun hsame => hsame.filter _

end Settings

namespace ClassPath

variable {tree : FileTree} {path : ClassPath}

theorem insertAll_ok (input : String) (infos : List ClassInfo) (path : ClassPath) :
    ∃ kept after, (path.insertAll input infos).result = .ok (kept, after) := by
  induction infos generalizing path with
  | nil => exact ⟨[], path, rfl⟩
  | cons info infos ih =>
    rw [insertAll]
    split
    · rename_i between _
      rw [Reported.result_bind_of_ok (Reported.result_report _)]
      exact ih between
    · rename_i between _
      obtain ⟨others, after, hothers⟩ := ih between
      rw [Reported.result_bind_of_ok hothers]
      exact ⟨_, _, rfl⟩

variable [Formats]

/-- The first of the inputs that can't be read decides. -/
def firstFailure (tree : FileTree) (inputs : List String) : Option Error :=
  inputs.findSome? fun input =>
    match (tree.readInput input).result with
    | .ok _ => none
    | .error cause => some cause

theorem readable_of_no_failure {inputs : List String} (h : firstFailure tree inputs = none) :
    ∀ input ∈ inputs, ∃ infos, (tree.readInput input).result = .ok infos := by
  intro input hinput
  have hinput := List.findSome?_eq_none_iff.mp h input hinput
  cases hresult : (tree.readInput input).result with
  | ok infos => exact ⟨infos, rfl⟩
  | error cause =>
    rw [hresult] at hinput
    cases hinput

theorem insertInputs_of_failure {inputs : List String} {cause : Error}
    (h : firstFailure tree inputs = some cause) (path : ClassPath) :
    (path.insertInputs tree inputs).result = .error cause := by
  induction inputs generalizing path with
  | nil => cases h
  | cons input inputs ih =>
    rw [firstFailure, List.findSome?_cons] at h
    rw [insertInputs]
    cases hresult : (tree.readInput input).result with
    | error first =>
      rw [hresult] at h
      cases h
      rw [Reported.result_bind, hresult]
      rfl
    | ok infos =>
      rw [hresult] at h
      obtain ⟨kept, between, hkept⟩ := insertAll_ok input infos path
      rw [Reported.result_bind_of_ok hresult, Reported.result_bind_of_ok hkept,
        Reported.result_bind, ih h]
      rfl

end ClassPath

namespace Settings

variable [Formats] {settings : Settings} {tree : FileTree} {environment : Option String}

structure InputsAlike (tree : FileTree) (first second : List String) : Prop where
  failure : ClassPath.firstFailure tree first = ClassPath.firstFailure tree second
  names : ∀ name, name ∈ (tree.inputClasses first).map (·.name) ↔
    name ∈ (tree.inputClasses second).map (·.name)

theorem prepare_agree {first second : List String} (h : InputsAlike tree first second) :
    AgreeUpTo
      (fun chosen others => (chosen.1.map (·.name)).Perm (others.1.map (·.name)) ∧
        ((firstOfEachName (tree.inputClasses first)).Perm
            (firstOfEachName (tree.inputClasses second)) →
          chosen.1.Perm others.1))
      ({ settings with inputs := first }.prepare tree environment).result
      ({ settings with inputs := second }.prepare tree environment).result := by
  have hclassPath : ∀ inputs, ({ settings with inputs := inputs }.classPath tree environment) =
      settings.classPath tree environment := fun _ => rfl
  unfold prepare
  simp only [Reported.result_bind, hclassPath]
  cases hpath : (settings.classPath tree environment).result with
  | error cause => exact rfl
  | ok path =>
    simp only [Except.bind]
    cases hfirst : ClassPath.firstFailure tree first with
    | some cause =>
      have hsecond := h.failure.symm.trans hfirst
      rw [ClassPath.insertInputs_of_failure hfirst, ClassPath.insertInputs_of_failure hsecond]
      exact rfl
    | none =>
      have hsecond := h.failure.symm.trans hfirst
      obtain ⟨path₁, hinputs₁, -⟩ := @insertInputs_exports _ { settings with inputs := first } tree
        environment path hpath (ClassPath.readable_of_no_failure hfirst)
      obtain ⟨path₂, hinputs₂, -⟩ := @insertInputs_exports _ { settings with inputs := second } tree
        environment path hpath (ClassPath.readable_of_no_failure hsecond)
      rw [hinputs₁, hinputs₂]
      simp only [Reported.result_ofExcept]
      rcases choose_alike (names_firstOfEachName_perm h.names) settings.selection with
        ⟨cause, hchoose₁, hchoose₂⟩ | ⟨kept, others, hchoose₁, hchoose₂, halike⟩
      · rw [hchoose₁, hchoose₂]
        exact rfl
      · rw [hchoose₁, hchoose₂]
        exact halike

theorem generate_agree {first second : List String} (h : InputsAlike tree first second) :
    AgreeUpTo (fun headers others => headers.extraction.classes.Perm others.extraction.classes)
      ({ settings with inputs := first }.generate tree environment).result
      ({ settings with inputs := second }.generate tree environment).result := by
  have hgenerate : ∀ inputs, ({ settings with inputs := inputs }.generate tree environment).result =
      ({ settings with inputs := inputs }.prepare tree environment).result.map
        fun chosen : List ClassInfo × ClassPath =>
          (⟨(Extraction.of (ClassPath.isSubclass tree) chosen.1 chosen.2).1,
            settings.options⟩ : Headers) := by
    intro inputs
    unfold generate
    rw [Reported.result_bind]
    cases ({ settings with inputs := inputs }.prepare tree environment).result with
    | error cause => rfl
    | ok chosen => rfl
  rw [hgenerate, hgenerate]
  refine (prepare_agree h).map _ ?_
  intro chosen others halike
  rw [Extraction.classes_of, Extraction.classes_of]
  exact halike.1

end Settings

section

variable [Formats] {tree : FileTree} {first second : String} {infos others : List ClassInfo}

theorem inputClasses_append_cons (h : (tree.readInput first).result = .ok infos)
    (before after : List String) :
    tree.inputClasses (before ++ first :: after) =
      tree.inputClasses before ++ (infos ++ tree.inputClasses after) := by
  simp [FileTree.inputClasses, h, Except.toOption]

variable (hfirst : (tree.readInput first).result = .ok infos)
  (hsecond : (tree.readInput second).result = .ok others) (hperm : infos.Perm others)
include hfirst hsecond hperm

theorem inputsAlike_of_perm (before after : List String) :
    Settings.InputsAlike tree (before ++ first :: after) (before ++ second :: after) := by
  constructor
  · simp [ClassPath.firstFailure, List.findSome?_append, hfirst, hsecond]
  · intro name
    rw [inputClasses_append_cons hfirst, inputClasses_append_cons hsecond]
    simp only [List.map_append, List.mem_append, (hperm.map (·.name)).mem_iff]

theorem firstOfEachName_inputs_perm (hnodup : (infos.map (·.name)).Nodup)
    (before after : List String) :
    (firstOfEachName (tree.inputClasses (before ++ first :: after))).Perm
      (firstOfEachName (tree.inputClasses (before ++ second :: after))) := by
  apply firstOfEachName_perm
  intro name
  rw [inputClasses_append_cons hfirst, inputClasses_append_cons hsecond]
  simp only [List.find?_append, find?_of_perm hperm hnodup]

end

end JniHeaders
