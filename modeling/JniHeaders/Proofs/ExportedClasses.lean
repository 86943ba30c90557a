import JniHeaders.Formats.Standard
import JniHeaders.Generation
import JniHeaders.Proofs.ExtractionRuns
import JniHeaders.Proofs.LookupMemory

/-!
Which classes are exported, and what is known while they are. The class path that the inputs are
added to has looked nothing up yet, so it takes the first class of each name, in the order of the
inputs, and those are exported. Each stays the answer to its name for as long as lookups are made.
-/

namespace JniHeaders

/-- The classes that no class of their name stands before. -/
def firstOfEachName : List ClassInfo → List ClassInfo
  | [] => []
  | info :: infos => info :: (firstOfEachName infos).filter (·.name ≠ info.name)

theorem firstOfEachName_sublist (infos : List ClassInfo) :
    (firstOfEachName infos).Sublist infos := by
  induction infos with
  | nil => exact .slnil
  | cons info infos ih => exact (List.filter_sublist.trans ih).cons_cons info

theorem firstOfEachName_nodup (infos : List ClassInfo) :
    ((firstOfEachName infos).map (·.name)).Nodup := by
  induction infos with
  | nil => exact List.nodup_nil
  | cons info infos ih =>
    refine List.nodup_cons.mpr ⟨?_, (List.filter_sublist.map _).nodup ih⟩
    intro hmem
    obtain ⟨other, hother, hname⟩ := List.mem_map.mp hmem
    exact of_decide_eq_true (List.mem_filter.mp hother).2 hname

theorem find?_of_mem_firstOfEachName {infos : List ClassInfo} {info : ClassInfo}
    (h : info ∈ firstOfEachName infos) : infos.find? (·.name = info.name) = some info := by
  induction infos with
  | nil => cases h
  | cons first infos ih =>
    rcases List.mem_cons.mp h with rfl | hlater
    · simp
    · obtain ⟨hmem, hname⟩ := List.mem_filter.mp hlater
      have hother : first.name ≠ info.name := (of_decide_eq_true hname).symm
      rw [List.find?_cons_of_neg (by simpa using hother)]
      exact ih hmem

theorem firstOfEachName_concat_of_new {known : List ClassInfo} {info : ClassInfo}
    (h : ∀ other ∈ known, other.name ≠ info.name) :
    firstOfEachName (known ++ [info]) = firstOfEachName known ++ [info] := by
  induction known with
  | nil => rfl
  | cons first known ih =>
    have hfirst := h first List.mem_cons_self
    have hrest := ih fun other hother => h other (List.mem_cons_of_mem _ hother)
    simp only [List.cons_append, firstOfEachName, hrest, List.filter_append]
    rw [List.filter_cons_of_pos (by simpa using hfirst.symm), List.filter_nil]

theorem firstOfEachName_concat_of_known {known : List ClassInfo} {info : ClassInfo}
    (h : ∃ other ∈ known, other.name = info.name) :
    firstOfEachName (known ++ [info]) = firstOfEachName known := by
  induction known with
  | nil => simp at h
  | cons first known ih =>
    by_cases hlater : ∃ other ∈ known, other.name = info.name
    · simp only [List.cons_append, firstOfEachName, ih hlater]
    · have hnew : ∀ other ∈ known, other.name ≠ info.name := fun other hother hname =>
        hlater ⟨other, hother, hname⟩
      have hfirst : info.name = first.name := by
        obtain ⟨other, hother, hname⟩ := h
        rcases List.mem_cons.mp hother with rfl | hother
        · exact hname.symm
        · exact absurd hname (hnew other hother)
      simp only [List.cons_append, firstOfEachName, firstOfEachName_concat_of_new hnew,
        List.filter_append]
      rw [List.filter_cons_of_neg (by simpa using hfirst), List.filter_nil, List.append_nil]

namespace Settings

theorem all_ne_eq_not_mem (classes : List ClassInfo) :
    (fun name => classes.all (·.name ≠ name)) =
      fun name => decide (name ∉ classes.map (·.name)) := by
  funext name
  rw [Bool.eq_iff_iff]
  simp

theorem choose_of_missing {classes : List ClassInfo} {names : List String} {missing : String}
    (h : names.find? (· ∉ classes.map (·.name)) = some missing) :
    choose classes (some names) = .error (.notInInputs missing) := by
  unfold choose
  rw [all_ne_eq_not_mem]
  dsimp only
  rw [h]

theorem choose_of_known {classes : List ClassInfo} {names : List String}
    (h : names.find? (· ∉ classes.map (·.name)) = none) :
    choose classes (some names) = .ok (classes.filter (·.name ∈ names)) := by
  unfold choose
  rw [all_ne_eq_not_mem]
  dsimp only
  rw [h]
  simp

theorem choose_sublist {classes chosen : List ClassInfo} {selection : Option (List String)}
    (h : choose classes selection = .ok chosen) : chosen.Sublist classes := by
  cases selection with
  | none =>
    cases h
    exact .refl _
  | some names =>
    cases hmissing : names.find? (· ∉ classes.map (·.name)) with
    | some missing =>
      rw [choose_of_missing hmissing] at h
      cases h
    | none =>
      rw [choose_of_known hmissing] at h
      cases h
      exact List.filter_sublist

end Settings

section

variable [Formats]

def FileTree.inputClasses (tree : FileTree) (inputs : List String) : List ClassInfo :=
  inputs.flatMap fun input => (tree.readInput input).result.toOption.getD []

/-- Everything that settings name can be read. What the environment names is not asked about. -/
structure Settings.Readable (settings : Settings) (tree : FileTree) : Prop where
  inputs : ∀ input ∈ settings.inputs, ∃ infos, (tree.readInput input).result = .ok infos
  lookups : ∀ entry ∈ settings.lookups, ∃ opened, ClassPathEntry.ofPath tree entry = .ok opened
  library : settings.hasPlatformClasses = true → ∀ home ∈ settings.javaHome,
    ∀ archive ∈ platformLibrary tree home, ∃ opened, ClassPathEntry.ofPath tree archive = .ok opened

namespace ClassPath

variable {tree : FileTree} {path : ClassPath} {sources : Sources}

omit [Formats] in
theorem cell_eq_empty_iff (h : sources.Makes ⟨tree, path⟩) (name : String) :
    path.cell name = .empty ↔ ∀ other ∈ sources.inserted, other.name ≠ name := by
  rw [h.cells name]
  cases hfirst : sources.inserted.find? (·.name = name) with
  | none => simpa using List.find?_eq_none.mp hfirst
  | some first =>
    have hname : first.name = name := by simpa using List.find?_some hfirst
    have hmem := List.mem_of_find?_eq_some hfirst
    simp only [reduceCtorEq, false_iff]
    exact fun hnone => hnone first hmem hname

theorem insertAll_makes (h : sources.Makes ⟨tree, path⟩) (input : String)
    (infos : List ClassInfo) :
    ∃ kept after, (path.insertAll input infos).result = .ok (kept, after) ∧
      firstOfEachName (sources.inserted ++ infos) = firstOfEachName sources.inserted ++ kept ∧
      Sources.Makes { sources with inserted := sources.inserted ++ infos } ⟨tree, after⟩ := by
  induction infos generalizing sources path with
  | nil => exact ⟨[], path, rfl, by simp, by simpa using h⟩
  | cons info infos ih =>
    have hinsert := h.insert info
    have happend : sources.inserted ++ info :: infos = sources.inserted ++ [info] ++ infos := by
      simp
    by_cases hempty : path.cell info.name = .empty
    · simp only [World.prepare, insert_of_empty hempty] at hinsert
      obtain ⟨others, after, hresult, hfirsts, hmakes⟩ := ih hinsert
      have hnew := (cell_eq_empty_iff h info.name).mp hempty
      refine ⟨info :: others, after, ?_, ?_, ?_⟩
      · rw [insertAll, insert_of_empty hempty]
        exact (Reported.result_bind_of_ok hresult).trans rfl
      · change firstOfEachName (sources.inserted ++ [info] ++ infos) = _ at hfirsts
        rw [happend, hfirsts]
        change firstOfEachName (sources.inserted ++ [info]) ++ others = _
        rw [firstOfEachName_concat_of_new hnew, List.append_assoc, List.singleton_append]
      · rw [happend]
        exact hmakes
    · simp only [World.prepare, insert_of_filled hempty] at hinsert
      obtain ⟨others, after, hresult, hfirsts, hmakes⟩ := ih hinsert
      have hknown : ∃ other ∈ sources.inserted, other.name = info.name := by
        simpa using mt (cell_eq_empty_iff h info.name).mpr hempty
      refine ⟨others, after, ?_, ?_, ?_⟩
      · rw [insertAll, insert_of_filled hempty]
        exact (Reported.result_bind_of_ok (Reported.result_report _)).trans hresult
      · change firstOfEachName (sources.inserted ++ [info] ++ infos) = _ at hfirsts
        rw [happend, hfirsts]
        change firstOfEachName (sources.inserted ++ [info]) ++ others = _
        rw [firstOfEachName_concat_of_known hknown]
      · rw [happend]
        exact hmakes

theorem insertInputs_makes (h : sources.Makes ⟨tree, path⟩) {inputs : List String}
    (hread : ∀ input ∈ inputs, ∃ infos, (tree.readInput input).result = .ok infos) :
    ∃ kept after, (path.insertInputs tree inputs).result = .ok (kept, after) ∧
      firstOfEachName (sources.inserted ++ tree.inputClasses inputs) =
        firstOfEachName sources.inserted ++ kept ∧
      Sources.Makes { sources with inserted := sources.inserted ++ tree.inputClasses inputs }
        ⟨tree, after⟩ := by
  induction inputs generalizing sources path with
  | nil =>
    have hnone : sources.inserted ++ tree.inputClasses [] = sources.inserted :=
      List.append_nil _
    exact ⟨[], path, rfl, by rw [hnone, List.append_nil], by rwa [hnone]⟩
  | cons input inputs ih =>
    obtain ⟨infos, hinfos⟩ := hread input List.mem_cons_self
    obtain ⟨kept, between, hkept, hfirst, hmiddle⟩ := insertAll_makes h input infos
    obtain ⟨others, after, hothers, hrest, hmakes⟩ :=
      ih hmiddle fun other hother => hread other (List.mem_cons_of_mem _ hother)
    have hclasses : tree.inputClasses (input :: inputs) = infos ++ tree.inputClasses inputs := by
      simp [FileTree.inputClasses, hinfos, Except.toOption]
    refine ⟨kept ++ others, after, ?_, ?_, ?_⟩
    · rw [insertInputs, Reported.result_bind_of_ok hinfos, Reported.result_bind_of_ok hkept]
      exact (Reported.result_bind_of_ok hothers).trans rfl
    · rw [hclasses, ← List.append_assoc, hrest, hfirst, List.append_assoc]
    · rw [hclasses, ← List.append_assoc]
      exact hmakes

theorem readable_of_insertInputs {inputs : List String} {kept : List ClassInfo}
    {after : ClassPath} (h : (path.insertInputs tree inputs).result = .ok (kept, after)) :
    ∀ input ∈ inputs, ∃ infos, (tree.readInput input).result = .ok infos := by
  induction inputs generalizing path kept after with
  | nil => simp
  | cons input inputs ih =>
    rw [insertInputs] at h
    obtain ⟨infos, hinfos, h⟩ := Reported.result_bind_eq_ok_iff.mp h
    obtain ⟨⟨first, between⟩, -, h⟩ := Reported.result_bind_eq_ok_iff.mp h
    obtain ⟨⟨others, last⟩, hothers, -⟩ := Reported.result_bind_eq_ok_iff.mp h
    intro other hother
    rcases List.mem_cons.mp hother with rfl | hother
    · exact ⟨infos, hinfos⟩
    · exact ih hothers other hother

theorem pushAll_eq_ok {entries : List String}
    (h : ∀ entry ∈ entries, ∃ opened, ClassPathEntry.ofPath tree entry = .ok opened) :
    (pushAll tree entries path).1 = .ok () := by
  induction entries generalizing path with
  | nil => rfl
  | cons entry entries ih =>
    obtain ⟨opened, hopened⟩ := h entry List.mem_cons_self
    simp only [pushAll, push, hopened, Except.map]
    exact ih fun other hother => h other (List.mem_cons_of_mem _ hother)

theorem pushJavaHome_cells (home : String) :
    (path.pushJavaHome tree home).2.cells = path.cells := by
  change (pushAll tree _ path).2.cells = _
  rw [Sources.pushAll_eq]

theorem withJavaHome_result (home : String) :
    (path.withJavaHome tree home).result =
      (pushAll tree (platformLibrary tree home) path).1.map fun _ =>
        (path.pushJavaHome tree home).2 := by
  simp only [withJavaHome, pushJavaHome]
  cases (pushAll tree (platformLibrary tree home) path).1 with
  | error cause => rfl
  | ok _ => rfl

theorem withJavaHome_cells {home : String} {after : ClassPath}
    (h : (path.withJavaHome tree home).result = .ok after) : after.cells = path.cells := by
  rw [withJavaHome_result] at h
  cases hpush : (pushAll tree (platformLibrary tree home) path).1 with
  | error cause =>
    rw [hpush] at h
    cases h
  | ok _ =>
    rw [hpush] at h
    cases h
    exact pushJavaHome_cells home

theorem withFoundJavaHome_result (home : String) :
    (path.withFoundJavaHome tree home).result = .ok (path.pushJavaHome tree home).2 := by
  unfold withFoundJavaHome
  split <;> rename_i hpush <;> rw [hpush]

end ClassPath

namespace Settings

variable {settings : Settings} {tree : FileTree} {environment : Option String}
  {path after : ClassPath}

theorem withPlatform_of_home {home : String} (hplatform : settings.hasPlatformClasses = true)
    (hhome : settings.javaHome = some home) :
    settings.withPlatform tree environment path = path.withJavaHome tree home := by
  simp only [withPlatform, hplatform, hhome, if_true]

theorem withPlatform_of_no_home
    (h : settings.hasPlatformClasses = true → settings.javaHome = none) :
    ∃ after, (settings.withPlatform tree environment path).result = .ok after ∧
      after.cells = path.cells := by
  unfold withPlatform
  by_cases hplatform : settings.hasPlatformClasses
  · rw [if_pos hplatform, h hplatform]
    cases locateJavaHome environment with
    | some home =>
      exact ⟨_, ClassPath.withFoundJavaHome_result home, ClassPath.pushJavaHome_cells home⟩
    | none => exact ⟨_, rfl, rfl⟩
  · rw [if_neg hplatform]
    exact ⟨_, rfl, rfl⟩

omit [Formats] in
theorem home_or_no_home (settings : Settings) :
    (∃ home, settings.hasPlatformClasses = true ∧ settings.javaHome = some home) ∨
      (settings.hasPlatformClasses = true → settings.javaHome = none) := by
  cases hhome : settings.javaHome with
  | none => exact Or.inr fun _ => rfl
  | some home =>
    by_cases hplatform : settings.hasPlatformClasses
    · exact Or.inl ⟨home, hplatform, rfl⟩
    · exact Or.inr fun h => absurd h hplatform

theorem withPlatform_cells
    (h : (settings.withPlatform tree environment path).result = .ok after) :
    after.cells = path.cells := by
  rcases settings.home_or_no_home with ⟨home, hplatform, hhome⟩ | hnone
  · rw [withPlatform_of_home hplatform hhome] at h
    exact ClassPath.withJavaHome_cells h
  · obtain ⟨_, hresult, hcells⟩ := withPlatform_of_no_home hnone
    rw [hresult] at h
    cases h
    exact hcells

/-- Nothing has been looked up when the inputs are added. -/
theorem classPath_cells (h : (settings.classPath tree environment).result = .ok path) :
    path.cells = [] := by
  unfold classPath at h
  split at h
  · cases h
  · rename_i between hpush
    have hcells : (ClassPath.pushAll tree settings.lookups .empty).2.cells = between.cells := by
      rw [hpush]
    rw [withPlatform_cells h, ← hcells, Sources.pushAll_eq]
    rfl

theorem classPath_of_readable (h : settings.Readable tree) (environment : Option String) :
    ∃ path, (settings.classPath tree environment).result = .ok path := by
  have hpush : (ClassPath.pushAll tree settings.lookups .empty).1 = .ok () :=
    ClassPath.pushAll_eq_ok h.lookups
  have hclassPath : (settings.classPath tree environment).result =
      (settings.withPlatform tree environment
        (ClassPath.pushAll tree settings.lookups .empty).2).result := by
    unfold classPath
    split <;> rename_i hrun <;> rw [hrun] at hpush ⊢
    cases hpush
  rw [hclassPath]
  rcases settings.home_or_no_home with ⟨home, hplatform, hhome⟩ | hnone
  · have hlibrary := h.library hplatform home hhome
    rw [withPlatform_of_home hplatform hhome, ClassPath.withJavaHome_result,
      ClassPath.pushAll_eq_ok hlibrary]
    exact ⟨_, rfl⟩
  · obtain ⟨path, hresult, -⟩ := withPlatform_of_no_home hnone
    exact ⟨path, hresult⟩

theorem generate_result {exported : List ClassInfo}
    (hpath : (settings.classPath tree environment).result = .ok path)
    (hinputs : (path.insertInputs tree settings.inputs).result = .ok (exported, after)) :
    (settings.generate tree environment).result =
      (choose exported settings.selection).map fun chosen =>
        ⟨(Extraction.of (ClassPath.isSubclass tree) chosen after).1, settings.options⟩ := by
  unfold generate prepare
  simp only [Reported.result_bind, hpath, hinputs, Except.bind, Reported.result_ofExcept]
  cases choose exported settings.selection with
  | error cause => rfl
  | ok chosen => rfl

theorem generate_of_chosen {exported chosen : List ClassInfo}
    (hpath : (settings.classPath tree environment).result = .ok path)
    (hinputs : (path.insertInputs tree settings.inputs).result = .ok (exported, after))
    (hchosen : choose exported settings.selection = .ok chosen) :
    (settings.generate tree environment).result =
      .ok ⟨(Extraction.of (ClassPath.isSubclass tree) chosen after).1, settings.options⟩ := by
  rw [generate_result hpath hinputs, hchosen]
  rfl

theorem exists_of_generate_eq_ok {headers : Headers}
    (h : (settings.generate tree environment).result = .ok headers) :
    ∃ path exported after, (settings.classPath tree environment).result = .ok path ∧
      (path.insertInputs tree settings.inputs).result = .ok (exported, after) := by
  unfold generate prepare at h
  obtain ⟨_, hprepare, -⟩ := Reported.result_bind_eq_ok_iff.mp h
  obtain ⟨path, hpath, h⟩ := Reported.result_bind_eq_ok_iff.mp hprepare
  obtain ⟨⟨exported, after⟩, hinputs, -⟩ := Reported.result_bind_eq_ok_iff.mp h
  exact ⟨path, exported, after, hpath, hinputs⟩

theorem insertInputs_exports (hpath : (settings.classPath tree environment).result = .ok path)
    (hread : ∀ input ∈ settings.inputs, ∃ infos, (tree.readInput input).result = .ok infos) :
    ∃ after, (path.insertInputs tree settings.inputs).result =
        .ok (firstOfEachName (tree.inputClasses settings.inputs), after) ∧
      Sources.Makes ⟨tree, tree.inputClasses settings.inputs, path.entries, path.hasStubs⟩
        ⟨tree, after⟩ := by
  have hstart : Sources.Makes ⟨tree, [], path.entries, path.hasStubs⟩ ⟨tree, path⟩ :=
    ⟨rfl, rfl, rfl, fun name => by simp [ClassPath.cell, classPath_cells hpath]⟩
  obtain ⟨kept, after, hresult, hfirsts, hmakes⟩ := ClassPath.insertInputs_makes hstart hread
  obtain rfl : _ = kept := hfirsts
  exact ⟨after, hresult, hmakes⟩

end Settings

namespace ClassPath

/-- The states that lookups can bring a class path to. -/
inductive Consulted (files : FileTree) (path : ClassPath) : ClassPath → Prop where
  | start : Consulted files path path
  | lookup {state} (name : String) : Consulted files path state →
      Consulted files path (state.resolve files name).2

variable {files : FileTree} {path state : ClassPath}

theorem Consulted.answer (h : Consulted files path state) :
    state.answer files = path.answer files := by
  induction h with
  | start => rfl
  | lookup name _ ih => rw [answer_resolve, ih]

theorem collect_consults (names : List String) (candidates : List (String × MethodInfo)) :
    Consulted files path (Extraction.collect (isSubclass files) names candidates path).2 := by
  have hlookup : ∀ name state, Consulted files path state →
      Consulted files path (state.resolve files name).2 := fun name _ h => .lookup name h
  have horacle : ∀ name ancestor state, Consulted files path state →
      Consulted files path (isSubclass files name ancestor state).2 := fun name ancestor state h =>
    Ancestry.isSubclass_keeps (state.isFinite files) hlookup rfl h
  exact Extraction.collect_keeps horacle names candidates .start

end ClassPath

namespace Settings

/-- Headers are made, from the methods of just these classes. -/
def Exports (settings : Settings) (tree : FileTree) (environment : Option String)
    (path : ClassPath) (chosen : List ClassInfo) : Prop :=
  ∃ headers, (settings.generate tree environment).result = .ok headers ∧
    headers.extraction = (Extraction.of (ClassPath.isSubclass tree) chosen path).1 ∧
    headers.extraction.classes = chosen.map (·.name)

end Settings

/-- The classes that come first with their names are exported, all of them or those that are asked
for, in their order. The first name that is asked for and that none of them has is an error. What
is looked up for their methods finds them under their names, exported or not, whatever else goes
by these names on the class path. -/
theorem generate_exports_first_of_each_name (settings : Settings) (tree : FileTree)
    (environment : Option String) (hread : settings.Readable tree) :
    ∃ path : ClassPath,
      (settings.selection = none →
        settings.Exports tree environment path
          (firstOfEachName (tree.inputClasses settings.inputs))) ∧
      (∀ names, settings.selection = some names →
        (∀ missing,
          names.find? (· ∉ (firstOfEachName (tree.inputClasses settings.inputs)).map (·.name)) =
            some missing →
          (settings.generate tree environment).result = .error (.notInInputs missing)) ∧
        (names.find? (· ∉ (firstOfEachName (tree.inputClasses settings.inputs)).map (·.name)) =
            none →
          settings.Exports tree environment path
            ((firstOfEachName (tree.inputClasses settings.inputs)).filter (·.name ∈ names)))) ∧
      (∀ headers, (settings.generate tree environment).result = .ok headers →
        headers.extraction.classes.Nodup) ∧
      (∀ state, path.Consulted tree state →
        ∀ info ∈ firstOfEachName (tree.inputClasses settings.inputs),
          (state.resolve tree info.name).1 = .ok info) ∧
      ∀ chosen earlier later, Extraction.candidates chosen = earlier ++ later →
        path.Consulted tree (Extraction.collect (ClassPath.isSubclass tree)
          (chosen.map (·.name)) earlier path).2 := by
  obtain ⟨before, hbefore⟩ := Settings.classPath_of_readable hread environment
  obtain ⟨path, hinputs, hmakes⟩ := Settings.insertInputs_exports hbefore hread.inputs
  have hresult := Settings.generate_result hbefore hinputs
  have hexports : ∀ chosen, Settings.choose (firstOfEachName (tree.inputClasses settings.inputs))
      settings.selection = .ok chosen → settings.Exports tree environment path chosen :=
    fun _ hchosen => ⟨_, Settings.generate_of_chosen hbefore hinputs hchosen, rfl,
      Extraction.classes_of _ _ _⟩
  refine ⟨path, ?_, ?_, ?_, ?_, fun chosen earlier _ _ => ClassPath.collect_consults _ earlier⟩
  · intro hall
    exact hexports _ (by rw [hall]; rfl)
  · intro names hnames
    constructor
    · intro missing hmissing
      rw [hresult, hnames, Settings.choose_of_missing hmissing]
      rfl
    · intro hknown
      exact hexports _ (by rw [hnames, Settings.choose_of_known hknown])
  · intro headers hheaders
    cases hchosen : Settings.choose (firstOfEachName (tree.inputClasses settings.inputs))
        settings.selection with
    | error cause =>
      rw [hresult, hchosen] at hheaders
      cases hheaders
    | ok chosen =>
      rw [hresult, hchosen] at hheaders
      cases hheaders
      rw [Extraction.classes_of]
      exact ((Settings.choose_sublist hchosen).map _).nodup (firstOfEachName_nodup _)
  · intro state hstate info hinfo
    have hlookup := congrFun (hstate.answer.trans hmakes.answer) info.name
    rw [Sources.lookup, find?_of_mem_firstOfEachName hinfo] at hlookup
    exact hlookup

end

/-- Class files of a class with overloaded native methods, of another class with a native method of
that name and of an interface that has the name of the first class. -/
def threeFiles : FileTree where
  nodes := [
    (["x"], .file (.ok ⟨#[0xCA, 0xFE, 0xBA, 0xBE, 0, 0, 0, 0x34, 0, 7, 1, 0, 1, 0x41, 7, 0, 1,
      1, 0, 1, 0x66, 1, 0, 3, 0x28, 0x29, 0x56, 1, 0, 4, 0x28, 0x49, 0x29, 0x56,
      1, 0, 6, 0x28, 0x4C, 0x51, 0x3B, 0x29, 0x56, 0, 0x21, 0, 2, 0, 0, 0, 0, 0, 0,
      0, 3, 1, 1, 0, 3, 0, 4, 0, 0, 1, 1, 0, 3, 0, 5, 0, 0, 1, 1, 0, 3, 0, 6, 0, 0, 0, 0]⟩)),
    (["y"], .file (.ok ⟨#[0xCA, 0xFE, 0xBA, 0xBE, 0, 0, 0, 0x34, 0, 5, 1, 0, 1, 0x42, 7, 0, 1,
      1, 0, 1, 0x66, 1, 0, 3, 0x28, 0x29, 0x56, 0, 0x21, 0, 2, 0, 0, 0, 0, 0, 0,
      0, 1, 1, 1, 0, 3, 0, 4, 0, 0, 0, 0]⟩)),
    (["z"], .file (.ok ⟨#[0xCA, 0xFE, 0xBA, 0xBE, 0, 0, 0, 0x34, 0, 3, 1, 0, 1, 0x41, 7, 0, 1,
      2, 0x21, 0, 2, 0, 0, 0, 0, 0, 0, 0, 0, 0, 0]⟩))]
  nodup := by decide

def threeClasses : List ClassInfo := [
  ⟨"A", none, [], false,
    [⟨"f", "()V", false, true⟩, ⟨"f", "(I)V", false, true⟩, ⟨"f", "(LQ;)V", false, true⟩]⟩,
  ⟨"B", none, [], false, [⟨"f", "()V", false, true⟩]⟩,
  ⟨"A", none, [], true, []⟩]

theorem threeFiles_readable : ∀ input ∈ ["x", "y", "z"],
    ∃ infos, (threeFiles.readInput input).result = .ok infos := by
  have hread : ∀ input ∈ ["x", "y", "z"], (threeFiles.readInput input).result.isOk := by
    decide +kernel
  intro input hinput
  have hok := hread input hinput
  cases hresult : (threeFiles.readInput input).result with
  | error cause =>
    rw [hresult] at hok
    cases hok
  | ok infos => exact ⟨infos, rfl⟩

theorem threeFiles_classes : threeFiles.inputClasses ["x", "y", "z"] = threeClasses := by
  decide +kernel

/-- Asks for classes in another order than that of the inputs, and for one of them twice. -/
def threeInputs : Settings where
  inputs := ["x", "y", "z"]
  selection := some ["B", "A", "B"]
  hasPlatformClasses := false

theorem class_of_a_known_name_is_left_out :
    threeInputs.Readable threeFiles ∧
    ∃ headers, (threeInputs.generate threeFiles none).result = .ok headers ∧
      headers.extraction.classes = ["A", "B"] := by
  have hread : threeInputs.Readable threeFiles := ⟨threeFiles_readable, nofun, nofun⟩
  obtain ⟨path, -, hselected, -⟩ :=
    generate_exports_first_of_each_name threeInputs threeFiles none hread
  obtain ⟨-, hexports⟩ := hselected _ rfl
  change (_ → threeInputs.Exports _ _ _ ((firstOfEachName (threeFiles.inputClasses
    ["x", "y", "z"])).filter _)) at hexports
  obtain ⟨headers, hheaders, -, hnames⟩ := hexports (by decide +kernel)
  refine ⟨hread, headers, hheaders, hnames.trans ?_⟩
  rw [threeFiles_classes]
  decide

end JniHeaders
