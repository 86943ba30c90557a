import JniHeaders.ClassPath.Library
import JniHeaders.Proofs.ExportedClasses
import JniHeaders.Proofs.NamedTrees
import Mathlib.Data.List.Find

/-!
The class library of an installation. A walk meets the files of a directory in the order of their
names, so the module archives come in that order once the base module has been put first. Added to a
class path they are asked in it: a class that several modules have is the one of the base module, or
else that of the first by name.
-/

namespace JniHeaders

/-- What follows the last dot of a file name, if something stands before the dot. -/
def HasExtension (name extension : String) : Prop :=
  ∃ stem, stem ≠ "" ∧ '.' ∉ extension.toList ∧ name = stem ++ "." ++ extension

/-- A module archive of an installation is a file directly in its directory of modules. -/
structure IsModule (tree : FileTree) (home name : String) : Prop where
  directory : tree.isDirectory (moduleDirectory home)
  plain : LeadsPlainly [name]
  isFile : tree.isFile (Path.join (moduleDirectory home) name)
  extension : HasExtension name "jmod"

/-- The base module comes first, the others by their names. -/
def ModuleBefore (first second : String) : Prop :=
  second ≠ baseModule ∧ (first = baseModule ∨ first < second)

def moduleFileFor? [Formats] (tree : FileTree) (home name module : String) :
    Option (Except Error ClassInfo) :=
  match ClassPathEntry.ofPath tree (Path.join (moduleDirectory home) module) with
  | .ok entry => entry.fileFor? tree name
  | .error _ => none

theorem isModuleFileName_iff (name : String) :
    isModuleFileName name = true ↔ HasExtension name "jmod" := by
  have hending : ".jmod".toList = '.' :: "jmod".toList := rfl
  simp only [isModuleFileName, Bool.and_eq_true, List.isSuffixOf_iff_suffix, decide_eq_true_iff]
  constructor
  · rintro ⟨⟨stem, hstem⟩, hother⟩
    have hname : name = String.ofList stem ++ "." ++ "jmod" := by
      rw [← String.toList_inj, ← hstem, hending]
      simp
    refine ⟨String.ofList stem, ?_, by decide, hname⟩
    intro hempty
    rw [hempty] at hname
    exact hother hname
  · rintro ⟨stem, hstem, -, rfl⟩
    refine ⟨⟨stem.toList, by simp [hending]⟩, fun heq => hstem ?_⟩
    have hlength := congrArg (fun text : String => text.toList.length) heq
    simpa using hlength

namespace FileTree

theorem namesBefore_cons_iff {x y : String} {a b : List String} :
    namesBefore (x :: a) (y :: b) = true ↔ x < y ∨ x = y ∧ namesBefore a b = true := by
  rw [namesBefore]
  by_cases hsame : x = y
  · simp [hsame]
  · simp [hsame]

theorem namesBefore_trans (a b c : List String) (hab : namesBefore a b = true)
    (hbc : namesBefore b c = true) : namesBefore a c = true := by
  induction a generalizing b c with
  | nil => rfl
  | cons x a ih =>
    cases b with
    | nil => cases hab
    | cons y b =>
      cases c with
      | nil => cases hbc
      | cons z c =>
        rw [namesBefore_cons_iff] at *
        rcases hab with hxy | ⟨rfl, hab⟩
        · rcases hbc with hyz | ⟨rfl, -⟩
          · exact Or.inl (String.lt_trans hxy hyz)
          · exact Or.inl hxy
        · rcases hbc with hxz | ⟨rfl, hbc⟩
          · exact Or.inl hxz
          · exact Or.inr ⟨rfl, ih b c hab hbc⟩

theorem namesBefore_total (a b : List String) : (namesBefore a b || namesBefore b a) = true := by
  induction a generalizing b with
  | nil => rfl
  | cons x a ih =>
    cases b with
    | nil => rfl
    | cons y b =>
      rw [Bool.or_eq_true, namesBefore_cons_iff, namesBefore_cons_iff]
      by_cases hsame : x = y
      · rcases Bool.or_eq_true_iff.mp (ih b) with hab | hba
        · exact Or.inl (Or.inr ⟨hsame, hab⟩)
        · exact Or.inr (Or.inr ⟨hsame.symm, hba⟩)
      · rcases String.le_total x y with hle | hle
        · exact Or.inl (Or.inl (String.not_le.mp fun hback => hsame (String.le_antisymm hle hback)))
        · exact Or.inr (Or.inl (String.not_le.mp fun hback => hsame (String.le_antisymm hback hle)))

variable {tree : FileTree} {place : List String} {path : String}

theorem filesBelow_sorted (tree : FileTree) (place : List String) :
    (tree.filesBelow place).Pairwise fun a b => namesBefore a.1 b.1 = true :=
  List.pairwise_mergeSort (fun a b c => namesBefore_trans a.1 b.1 c.1)
    (fun a b => namesBefore_total a.1 b.1) _

theorem filesBelow_distinct (tree : FileTree) (place : List String) :
    (tree.filesBelow place).Pairwise fun a b => a.1 ≠ b.1 := by
  have hnodes : tree.nodes.Pairwise fun a b => a.1 ≠ b.1 := List.pairwise_map.mp tree.nodup
  have hsymm : ∀ {a b : List String × Content}, a.1 ≠ b.1 → b.1 ≠ a.1 := fun h => h.symm
  rw [filesBelow, List.Perm.pairwise_iff hsymm (List.mergeSort_perm _ _)]
  refine List.Pairwise.filterMap _ ?_ hnodes
  rintro ⟨first, node⟩ ⟨second, other⟩ hne file hfile otherFile hother hsame
  cases node with
  | directory => cases hfile
  | file content =>
    cases other with
    | directory => cases hother
    | file otherContent =>
      dsimp only at hfile hother
      split at hfile
      · rename_i hprefix
        split at hother
        · rename_i hotherPrefix
          obtain ⟨rest, rfl⟩ := List.isPrefixOf_iff_prefix.mp hprefix
          obtain ⟨otherRest, rfl⟩ := List.isPrefixOf_iff_prefix.mp hotherPrefix
          cases hfile
          cases hother
          simp only [List.drop_left] at hsame
          exact hne (congrArg (place ++ ·) hsame)
        · cases hother
      · cases hfile

theorem hasFile_child_iff (hdirectory : tree.find path = .ok (place, .directory)) {name : String}
    (hname : LeadsPlainly [name]) {content : Content} :
    tree.HasFile (Path.join path name) content ↔ ([name], content) ∈ tree.filesBelow place := by
  have hfollow : tree.follow place [name] = .ok (place ++ [name]) := by
    have hplain := (hname.named name (List.mem_singleton_self name)).2
    rw [follow, (follow_of_find hdirectory).2.2, step_of_plain hplain]
    rfl
  change tree.HasFile (Path.join path (entryName [name])) content ↔ _
  rw [mem_filesBelow_iff, ← node?_append_eq_some_iff hname]
  simp only [HasFile, find_join_eq_ok_iff hdirectory hname, hfollow]
  constructor
  · rintro ⟨other, heq, hnode⟩
    cases heq
    exact hnode
  · intro hnode
    exact ⟨_, rfl, hnode⟩

end FileTree

def modulesIn (tree : FileTree) (place : List String) : List String :=
  (tree.filesBelow place).filterMap fun (names, _) =>
    match names with
    | [name] => if isModuleFileName name then some name else none
    | _ => none

section

variable {tree : FileTree} {home name : String} {place : List String}

theorem moduleFiles_eq {directory : String} (h : tree.find directory = .ok (place, .directory)) :
    moduleFiles tree directory =
      (modulesIn tree place).filter (· = baseModule) ++
        (modulesIn tree place).filter (· ≠ baseModule) := by
  rw [moduleFiles, h]
  rfl

theorem mem_modulesIn_iff :
    name ∈ modulesIn tree place ↔
      (∃ content, ([name], content) ∈ tree.filesBelow place) ∧ isModuleFileName name = true := by
  rw [modulesIn, List.mem_filterMap]
  constructor
  · rintro ⟨⟨names, content⟩, hmem, hname⟩
    dsimp only at hname
    split at hname
    · split at hname
      · cases hname
        exact ⟨⟨content, hmem⟩, ‹_›⟩
      · cases hname
    · cases hname
  · rintro ⟨⟨content, hmem⟩, hmodule⟩
    exact ⟨_, hmem, by simp [hmodule]⟩

theorem modulesIn_sorted (tree : FileTree) (place : List String) :
    (modulesIn tree place).Pairwise (· < ·) := by
  refine List.Pairwise.filterMap _ ?_
    ((tree.filesBelow_sorted place).and (tree.filesBelow_distinct place))
  rintro ⟨names, content⟩ ⟨others, otherContent⟩ ⟨hbefore, hdistinct⟩ name hname other hother
  dsimp only at hbefore hdistinct hname hother
  split at hname
  · split at hother
    · split at hname
      · split at hother
        · cases hname
          cases hother
          rcases FileTree.namesBefore_cons_iff.mp hbefore with hlt | ⟨hsame, -⟩
          · exact hlt
          · exact absurd (congrArg ([·]) hsame) hdistinct
        · cases hother
      · cases hname
    · cases hother
  · cases hname

theorem moduleBefore_irrefl (name : String) : ¬ ModuleBefore name name := by
  rintro ⟨hother, hbase | hlt⟩
  · exact hother hbase
  · exact String.lt_irrefl name hlt

theorem moduleFiles_of_not_directory {directory : String} (h : ¬ tree.isDirectory directory) :
    moduleFiles tree directory = [] := by
  unfold moduleFiles
  split
  · rename_i place hplace
    exact absurd (FileTree.isDirectory_iff.mpr ⟨place, hplace⟩) h
  · rfl

theorem moduleFiles_sorted (tree : FileTree) (directory : String) :
    (moduleFiles tree directory).Pairwise ModuleBefore := by
  by_cases hdirectory : tree.isDirectory directory
  · obtain ⟨place, hplace⟩ := FileTree.isDirectory_iff.mp hdirectory
    have hsorted := modulesIn_sorted tree place
    rw [moduleFiles_eq hplace, List.pairwise_append]
    have hbase : ∀ {a}, a ∈ (modulesIn tree place).filter (· = baseModule) → a = baseModule :=
      fun ha => by simpa using (List.mem_filter.mp ha).2
    have hother : ∀ {a}, a ∈ (modulesIn tree place).filter (· ≠ baseModule) → a ≠ baseModule :=
      fun ha => by simpa using (List.mem_filter.mp ha).2
    refine ⟨?_, ?_, ?_⟩
    · refine (hsorted.filter _).imp_of_mem fun {a b} ha hb hlt => ?_
      rw [hbase ha, hbase hb] at hlt
      exact absurd hlt (String.lt_irrefl _)
    · exact (hsorted.filter _).imp_of_mem fun {a b} _ hb hlt => ⟨hother hb, Or.inr hlt⟩
    · exact fun a ha b hb => ⟨hother hb, Or.inl (hbase ha)⟩
  · rw [moduleFiles_of_not_directory hdirectory]
    exact List.Pairwise.nil

theorem mem_moduleFiles_iff (hnamed : tree.Named) :
    name ∈ moduleFiles tree (moduleDirectory home) ↔ IsModule tree home name := by
  by_cases hdirectory : tree.isDirectory (moduleDirectory home)
  · obtain ⟨place, hplace⟩ := FileTree.isDirectory_iff.mp hdirectory
    have hmem : name ∈ moduleFiles tree (moduleDirectory home) ↔ name ∈ modulesIn tree place := by
      rw [moduleFiles_eq hplace, List.mem_append, List.mem_filter, List.mem_filter]
      by_cases hbase : name = baseModule <;> simp [hbase]
    rw [hmem, mem_modulesIn_iff, isModuleFileName_iff]
    constructor
    · rintro ⟨⟨content, hbelow⟩, hextension⟩
      have hplain : LeadsPlainly [name] :=
        hnamed _ (FileTree.mem_filesBelow_iff.mp hbelow) nofun name (by simp)
      refine ⟨hdirectory, hplain, FileTree.isFile_iff.mpr ⟨content, ?_⟩, hextension⟩
      exact (FileTree.hasFile_child_iff hplace hplain).mpr hbelow
    · intro hmodule
      obtain ⟨content, hcontent⟩ := FileTree.isFile_iff.mp hmodule.isFile
      exact ⟨⟨content, (FileTree.hasFile_child_iff hplace hmodule.plain).mp hcontent⟩,
        hmodule.extension⟩
  · rw [moduleFiles_of_not_directory hdirectory]
    exact ⟨nofun, fun hmodule => absurd hmodule.directory hdirectory⟩

theorem platformLibrary_of_modules (h : moduleFiles tree (moduleDirectory home) ≠ []) :
    platformLibrary tree home =
      (moduleFiles tree (moduleDirectory home)).map (Path.join (moduleDirectory home)) := by
  unfold platformLibrary
  split
  · contradiction
  · rfl

theorem platformLibrary_of_no_modules (h : moduleFiles tree (moduleDirectory home) = []) :
    platformLibrary tree home =
      if tree.isFile (Path.join home "jre/lib/rt.jar") then [Path.join home "jre/lib/rt.jar"]
      else if tree.isFile (Path.join home "lib/rt.jar") then [Path.join home "lib/rt.jar"]
      else [] := by
  rw [platformLibrary, h]
  simp only [singleArchives, List.map_cons, List.map_nil]
  by_cases hfirst : tree.isFile (Path.join home "jre/lib/rt.jar")
  · simp [hfirst]
  · by_cases hsecond : tree.isFile (Path.join home "lib/rt.jar")
    · simp [hfirst, hsecond]
    · simp [hfirst, hsecond]

variable [Formats]

theorem findSome?_opened {paths : List String}
    (h : ∀ path ∈ paths, ∃ opened, ClassPathEntry.ofPath tree path = .ok opened) :
    (Sources.opened tree paths).findSome? (·.fileFor? tree name) =
      paths.findSome? fun path =>
        match ClassPathEntry.ofPath tree path with
        | .ok entry => entry.fileFor? tree name
        | .error _ => none := by
  induction paths with
  | nil => rfl
  | cons path paths ih =>
    obtain ⟨⟨opened, hopened⟩, hothers⟩ := List.forall_mem_cons.mp h
    rw [Sources.opened, hopened, List.findSome?_cons, List.findSome?_cons, hopened, ih hothers]

theorem opens_of_moduleFileFor? {module : String}
    (h : (moduleFileFor? tree home name module).isSome) :
    ∃ opened, ClassPathEntry.ofPath tree (Path.join (moduleDirectory home) module) = .ok opened := by
  unfold moduleFileFor? at h
  split at h
  · exact ⟨_, ‹_›⟩
  · cases h

omit [Formats] in
/-- In a list in this order, what is found first is before all else that would be found. -/
theorem exists_first_module {α : Type} {names : List String} (hsorted : names.Pairwise ModuleBefore)
    {find : String → Option α} (h : ∃ module ∈ names, find module ≠ none) :
    ∃ module ∈ names, ∃ result, find module = some result ∧
      (∀ other ∈ names, find other ≠ none → other = module ∨ ModuleBefore module other) ∧
      names.findSome? find = some result := by
  obtain ⟨result, hresult⟩ : ∃ result, names.findSome? find = some result := by
    rw [← Option.isSome_iff_exists, List.findSome?_isSome_iff]
    obtain ⟨module, hmem, hfound⟩ := h
    exact ⟨module, hmem, Option.isSome_iff_ne_none.mpr hfound⟩
  obtain ⟨before, module, after, rfl, hfound, hnone⟩ := List.findSome?_eq_some_iff.mp hresult
  refine ⟨module, by simp, result, hfound, fun other hother hsome => ?_, hresult⟩
  rcases List.mem_append.mp hother with hbefore | hafter
  · exact absurd (hnone other hbefore) hsome
  · rcases List.mem_cons.mp hafter with rfl | hlater
    · exact Or.inl rfl
    · exact Or.inr ((List.pairwise_cons.mp (List.pairwise_append.mp hsorted).2.1).1 other hlater)

theorem resolve_pushJavaHome {path : ClassPath}
    (hopen : ∀ archive ∈ platformLibrary tree home,
      ∃ opened, ClassPathEntry.ofPath tree archive = .ok opened)
    (hcell : path.cell name = .empty)
    (hentries : path.entries.findSome? (·.fileFor? tree name) = none)
    (hmodules : moduleFiles tree (moduleDirectory home) ≠ []) {result : Except Error ClassInfo}
    (hresult : (moduleFiles tree (moduleDirectory home)).findSome? (moduleFileFor? tree home name) =
      some result) :
    ((path.pushJavaHome tree home).2.resolve tree name).1 = result := by
  have hpath : (path.pushJavaHome tree home).2 =
      { path with entries := path.entries ++ Sources.opened tree (platformLibrary tree home) } :=
    Sources.pushAll_eq tree _ path
  have hlibrary : (Sources.opened tree (platformLibrary tree home)).findSome?
      (·.fileFor? tree name) = some result := by
    rw [findSome?_opened hopen, platformLibrary_of_modules hmodules, List.findSome?_map, ← hresult]
    rfl
  have hsome : (path.entries ++ Sources.opened tree (platformLibrary tree home)).findSome?
      (·.fileFor? tree name) = some result := by
    rw [List.findSome?_append, hentries, hlibrary]
    rfl
  rw [hpath]
  change ClassPath.answer tree _ name = result
  rw [ClassPath.answer_of_empty (by exact hcell)]
  simp only [hsome]

theorem pushJavaHome_result {path : ClassPath}
    (hopen : ∀ archive ∈ platformLibrary tree home,
      ∃ opened, ClassPathEntry.ofPath tree archive = .ok opened) :
    (path.pushJavaHome tree home).1.result = .ok (platformLibrary tree home).length := by
  change (ClassPath.pushAll tree (platformLibrary tree home) path).1.map _ = _
  rw [ClassPath.pushAll_eq_ok hopen]
  rfl

/-- The class library of an installation has each of its modules once, the base module first and the
others by name, or one archive where there are no modules. A class that nothing before it on the
class path has is looked up in the modules in this order. -/
theorem class_library_is_complete_and_ordered (hnamed : tree.Named) (home : String) :
    ((∃ name, IsModule tree home name) →
      ∃ names : List String,
        platformLibrary tree home = names.map (Path.join (moduleDirectory home)) ∧
        (∀ name, name ∈ names ↔ IsModule tree home name) ∧ names.Pairwise ModuleBefore ∧
        (platformLibrary tree home).Nodup) ∧
    ((¬ ∃ name, IsModule tree home name) →
      platformLibrary tree home =
        if tree.isFile (Path.join home "jre/lib/rt.jar") then [Path.join home "jre/lib/rt.jar"]
        else if tree.isFile (Path.join home "lib/rt.jar") then [Path.join home "lib/rt.jar"]
        else []) ∧
    ∀ (path : ClassPath) (name : String),
      (∀ archive ∈ platformLibrary tree home,
        ∃ opened, ClassPathEntry.ofPath tree archive = .ok opened) →
      path.cell name = .empty → path.entries.findSome? (·.fileFor? tree name) = none →
      (∃ module, IsModule tree home module ∧ moduleFileFor? tree home name module ≠ none) →
      (path.pushJavaHome tree home).1.result = .ok (platformLibrary tree home).length ∧
      ∃ module, IsModule tree home module ∧
        ∃ result, moduleFileFor? tree home name module = some result ∧
          (∀ other, IsModule tree home other → moduleFileFor? tree home name other ≠ none →
            other = module ∨ ModuleBefore module other) ∧
          ((path.pushJavaHome tree home).2.resolve tree name).1 = result := by
  have hmem : ∀ name, name ∈ moduleFiles tree (moduleDirectory home) ↔ IsModule tree home name :=
    fun name => mem_moduleFiles_iff hnamed
  have hsorted := moduleFiles_sorted tree (moduleDirectory home)
  refine ⟨?_, ?_, ?_⟩
  · rintro ⟨name, hname⟩
    have hsome : moduleFiles tree (moduleDirectory home) ≠ [] :=
      List.ne_nil_of_mem ((hmem name).mpr hname)
    refine ⟨_, platformLibrary_of_modules hsome, hmem, hsorted, ?_⟩
    rw [platformLibrary_of_modules hsome, List.Nodup, List.pairwise_map]
    refine hsorted.imp_of_mem fun {a b} ha hb hbefore hsame => ?_
    have heq := Path.join_injective ((hmem a).mp ha).plain ((hmem b).mp hb).plain hsame
    exact moduleBefore_irrefl b (heq ▸ hbefore)
  · intro hnone
    refine platformLibrary_of_no_modules (List.eq_nil_iff_forall_not_mem.mpr fun name hname => ?_)
    exact hnone ⟨name, (hmem name).mp hname⟩
  · rintro path name hopen hcell hentries ⟨found, hfound, hholds⟩
    have hsome : moduleFiles tree (moduleDirectory home) ≠ [] :=
      List.ne_nil_of_mem ((hmem found).mpr hfound)
    obtain ⟨module, hmodule, result, hresult, hfirst, hlookup⟩ :=
      exists_first_module hsorted ⟨found, (hmem found).mpr hfound, hholds⟩
    refine ⟨pushJavaHome_result hopen, module, (hmem module).mp hmodule, result, hresult, ?_, ?_⟩
    · exact fun other hother => hfirst other ((hmem other).mpr hother)
    · exact resolve_pushJavaHome hopen hcell hentries hsome hlookup

end

def baseArchive : ByteArray := ⟨moduleMagic.toArray⟩ ++ ⟨#[
  0x50, 0x4B, 3, 4, 0x14, 0, 0, 0, 0, 0, 0, 0, 0x21, 0, 0x61, 2, 0xCE, 0x52, 0x1F, 0, 0, 0, 0x1F,
  0, 0, 0, 0x0F, 0, 0, 0, 0x63, 0x6C, 0x61, 0x73, 0x73, 0x65, 0x73, 0x2F, 0x41, 0x2E, 0x63, 0x6C,
  0x61, 0x73, 0x73, 0xCA, 0xFE, 0xBA, 0xBE, 0, 0, 0, 0x34, 0, 3, 1, 0, 1, 0x41, 7, 0, 1, 0, 0x21,
  0, 2, 0, 0, 0, 0, 0, 0, 0, 0, 0, 0, 0x50, 0x4B, 1, 2, 0x14, 0, 0x14, 0, 0, 0, 0, 0, 0, 0, 0x21,
  0, 0x61, 2, 0xCE, 0x52, 0x1F, 0, 0, 0, 0x1F, 0, 0, 0, 0x0F, 0, 0, 0, 0, 0, 0, 0, 0, 0, 0, 0,
  0x80, 1, 0, 0, 0, 0, 0x63, 0x6C, 0x61, 0x73, 0x73, 0x65, 0x73, 0x2F, 0x41, 0x2E, 0x63, 0x6C,
  0x61, 0x73, 0x73, 0x50, 0x4B, 5, 6, 0, 0, 0, 0, 1, 0, 1, 0, 0x3D, 0, 0, 0, 0x4C, 0, 0, 0, 0, 0]⟩

def otherArchive : ByteArray := ⟨moduleMagic.toArray⟩ ++ ⟨#[
  0x50, 0x4B, 3, 4, 0x14, 0, 0, 0, 0, 0, 0, 0, 0x21, 0, 0, 0, 0, 0, 0, 0, 0, 0, 0, 0, 0, 0, 0x0F,
  0, 0, 0, 0x63, 0x6C, 0x61, 0x73, 0x73, 0x65, 0x73, 0x2F, 0x41, 0x2E, 0x63, 0x6C, 0x61, 0x73,
  0x73, 0x50, 0x4B, 1, 2, 0x14, 0, 0x14, 0, 0, 0, 0, 0, 0, 0, 0x21, 0, 0, 0, 0, 0, 0, 0, 0, 0, 0,
  0, 0, 0, 0x0F, 0, 0, 0, 0, 0, 0, 0, 0, 0, 0, 0, 0x80, 1, 0, 0, 0, 0, 0x63, 0x6C, 0x61, 0x73,
  0x73, 0x65, 0x73, 0x2F, 0x41, 0x2E, 0x63, 0x6C, 0x61, 0x73, 0x73, 0x50, 0x4B, 5, 6, 0, 0, 0, 0,
  1, 0, 1, 0, 0x3D, 0, 0, 0, 0x2D, 0, 0, 0, 0, 0]⟩

/-- Two modules that both have the class `A`, beside a hidden file and a directory with names like
those of modules. -/
def installation : FileTree where
  nodes := [(["jmods"], .directory), (["jmods", ".jmod"], .file (.ok .empty)),
    (["jmods", "a.jmod"], .file (.ok otherArchive)), (["jmods", "b.jmod"], .directory),
    (["jmods", "java.base.jmod"], .file (.ok baseArchive))]
  nodup := by decide

theorem installation_named : installation.Named := by decide

theorem installation_has_base : IsModule installation "" baseModule :=
  ⟨by decide, by decide, by decide, (isModuleFileName_iff _).mp (by decide)⟩

theorem installation_modules {module : String} (h : IsModule installation "" module) :
    module ∈ ["a.jmod", "java.base.jmod"] := by
  have hplace : installation.find "jmods" = .ok (["jmods"], .directory) := rfl
  obtain ⟨content, hcontent⟩ := FileTree.isFile_iff.mp h.isFile
  have hbelow := (FileTree.hasFile_child_iff hplace h.plain).mp hcontent
  have hnode := FileTree.mem_filesBelow_iff.mp hbelow
  have hdot : module ≠ ".jmod" := by
    rintro rfl
    exact absurd ((isModuleFileName_iff _).mpr h.extension) (by decide)
  simp only [installation, List.mem_cons, List.not_mem_nil, Prod.mk.injEq, List.cons_append,
    List.nil_append, List.cons.injEq, reduceCtorEq, and_false, and_true, true_and, or_false,
    false_or] at hnode ⊢
  tauto

theorem base_has_class : (moduleFileFor? installation "" "A" baseModule).map Except.toOption =
    some (some ⟨"A", none, [], false, []⟩) := by
  decide +kernel

theorem other_has_file : (moduleFileFor? installation "" "A" "a.jmod").isSome := by
  decide +kernel

theorem installation_opens : ∀ archive ∈ platformLibrary installation "",
    ∃ opened, ClassPathEntry.ofPath installation archive = .ok opened := by
  have hbase : (moduleFileFor? installation "" "A" baseModule).isSome := by
    rw [← Option.isSome_map (f := Except.toOption), base_has_class]
    rfl
  have hmem : ∀ {module}, module ∈ moduleFiles installation (moduleDirectory "") ↔
      IsModule installation "" module := mem_moduleFiles_iff installation_named
  have hsome : moduleFiles installation (moduleDirectory "") ≠ [] :=
    List.ne_nil_of_mem (hmem.mpr installation_has_base)
  rw [platformLibrary_of_modules hsome, List.forall_mem_map]
  intro module hmodule
  have hnames := installation_modules (hmem.mp hmodule)
  rw [List.mem_cons, List.mem_singleton] at hnames
  rcases hnames with rfl | rfl
  · exact opens_of_moduleFileFor? other_has_file
  · exact opens_of_moduleFileFor? hbase

theorem class_of_two_modules_is_that_of_base :
    installation.Named ∧ IsModule installation "" baseModule ∧ IsModule installation "" "a.jmod" ∧
    (moduleFileFor? installation "" "A" "a.jmod").isSome ∧
    ((ClassPath.empty.pushJavaHome installation "").2.resolve installation "A").1 =
      .ok ⟨"A", none, [], false, []⟩ := by
  have hother : IsModule installation "" "a.jmod" :=
    ⟨by decide, by decide, by decide, (isModuleFileName_iff _).mp (by decide)⟩
  have hholds := base_has_class
  have hsome : moduleFileFor? installation "" "A" baseModule ≠ none := by
    intro hnone
    rw [hnone] at hholds
    cases hholds
  obtain ⟨-, module, -, result, hresult, hfirst, hanswer⟩ :=
    (class_library_is_complete_and_ordered installation_named "").2.2 .empty "A"
      installation_opens rfl rfl ⟨baseModule, installation_has_base, hsome⟩
  obtain rfl : baseModule = module := by
    rcases hfirst baseModule installation_has_base hsome with hsame | ⟨hbefore, -⟩
    · exact hsame
    · exact absurd rfl hbefore
  refine ⟨installation_named, installation_has_base, hother, other_has_file, ?_⟩
  rw [hanswer]
  rw [hresult] at hholds
  cases result with
  | error cause => cases hholds
  | ok info =>
    cases hholds
    rfl

end JniHeaders
