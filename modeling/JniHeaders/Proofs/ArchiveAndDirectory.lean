import JniHeaders.Proofs.FileTreePaths
import JniHeaders.Proofs.InterchangeableInputs
import JniHeaders.Proofs.StandardReaders

/-!
The classes of an archive and those of a directory with the same files. What lies under `META-INF`
is left out of an archive only. Apart from that the two give the same classes, in an order of their
own, and can be put in the place of one another.
-/

namespace JniHeaders

section

variable [Formats]

/-- The class in a file, if the file is read as a class and can be. -/
def classIn (name : String) (content : List UInt8) : Option ClassInfo :=
  if isClassFileName name then (parseClass content).toOption else none

theorem classIn_entryName {names : List String} (h : LeadsToFile names) (content : List UInt8) :
    classIn (entryName names) content =
      if isUnderMetaInf names then none else classIn (lastName names) content := by
  unfold classIn
  rw [isClassFileName_entryName h]
  by_cases hunder : isUnderMetaInf names <;> simp [hunder]

/-- The classes of files that an archive is read without. -/
def hiddenClasses (files : List (List String × ByteArray)) : List ClassInfo :=
  (files.filter (isUnderMetaInf ·.1)).filterMap fun file => classIn (lastName file.1) file.2.toList

theorem classes_perm_append_hidden {files : List (List String × ByteArray)}
    (h : ∀ file ∈ files, LeadsToFile file.1) :
    (files.filterMap fun file => classIn (lastName file.1) file.2.toList).Perm
      ((files.filterMap fun file => classIn (entryName file.1) file.2.toList) ++
        hiddenClasses files) := by
  have hentries : (files.filterMap fun file => classIn (entryName file.1) file.2.toList) =
      (files.filter (!isUnderMetaInf ·.1)).filterMap fun file =>
        classIn (lastName file.1) file.2.toList := by
    rw [List.filterMap_filter]
    refine List.filterMap_congr fun file hfile => ?_
    rw [classIn_entryName (h file hfile)]
    by_cases hunder : isUnderMetaInf file.1 <;> simp [hunder]
  rw [hentries, hiddenClasses, ← List.filterMap_append]
  refine List.Perm.filterMap _ ?_
  exact (List.perm_append_comm.trans (List.filter_append_perm _ files)).symm

namespace Archive

def content? (member : Member) : Option (List UInt8) :=
  match member.content.get with
  | some (.ok content) => if member.isFile then some content else none
  | _ => none

/-- The members are these files, in some order. -/
def Holds (archive : Archive) (files : List (List String × ByteArray)) : Prop :=
  (archive.members.map fun member => (member.name, content? member)).Perm
    (files.map fun file => (entryName file.1, some file.2.toList))

instance (archive : Archive) (files : List (List String × ByteArray)) :
    Decidable (archive.Holds files) :=
  inferInstanceAs (Decidable (List.Perm _ _))

omit [Formats] in
theorem content?_eq_some_iff {member : Member} {content : List UInt8} :
    content? member = some content ↔
      member.content.get = some (.ok content) ∧ member.isFile = true := by
  unfold content?
  split <;> simp_all [and_comm]

theorem readMember_result {member : Member} {content : List UInt8}
    (h : content? member = some content) (origin : String) :
    (readMember origin member).result = .ok (classIn member.name content) := by
  obtain ⟨hcontent, hfile⟩ := content?_eq_some_iff.mp h
  unfold readMember classIn
  rw [hcontent, hfile, Bool.true_and]
  by_cases hname : isClassFileName member.name
  · simp only [hname, if_true]
    cases parseClass content <;> rfl
  · simp only [hname]
    rfl

theorem readMembers_result {members : List Member}
    (h : ∀ member ∈ members, (content? member).isSome) (origin : String) :
    (readMembers origin members).result =
      .ok (members.filterMap fun member => (content? member).bind (classIn member.name)) := by
  induction members with
  | nil => rfl
  | cons member members ih =>
    obtain ⟨hfirst, hothers⟩ := List.forall_mem_cons.mp h
    obtain ⟨content, hcontent⟩ := Option.isSome_iff_exists.mp hfirst
    rw [readMembers, Reported.result_bind_of_ok (readMember_result hcontent origin),
      Reported.result_bind_of_ok (ih hothers), List.filterMap_cons, hcontent, Option.bind_some]
    cases classIn member.name content <;> rfl

theorem Holds.readClasses_result {archive : Archive} {files : List (List String × ByteArray)}
    (h : archive.Holds files) (origin : String) :
    ∃ classes, (archive.readClasses origin).result = .ok classes ∧
      classes.Perm (files.filterMap fun file => classIn (entryName file.1) file.2.toList) := by
  have hcontent : ∀ member ∈ archive.members, (content? member).isSome := by
    intro member hmember
    have hentry := h.subset (List.mem_map.mpr ⟨member, hmember, rfl⟩)
    obtain ⟨file, -, hsame⟩ := List.mem_map.mp hentry
    rw [← (Prod.mk.inj hsame).2]
    rfl
  refine ⟨_, readMembers_result hcontent origin, ?_⟩
  have hclasses := h.filterMap fun entry => entry.2.bind (classIn entry.1)
  rwa [List.filterMap_map, List.filterMap_map] at hclasses

def Packs (data : ByteArray) (files : List (List String × ByteArray)) : Prop :=
  ∃ archive, Archive.open? (OpenFile.mk data 0) = some archive ∧ archive.Holds files

end Archive

namespace FileTree

variable {tree : FileTree} {path : String} {files : List (List String × ByteArray)}

/-- At the path is an archive of just these files. -/
def HasArchive (tree : FileTree) (path : String) (files : List (List String × ByteArray)) : Prop :=
  ∃ data, tree.read path = .ok data ∧ Archive.Packs data files

/-- At the path is a directory, and just these files are below it. -/
def HasDirectory (tree : FileTree) (path : String) (files : List (List String × ByteArray)) :
    Prop :=
  ∃ place, tree.find path = .ok (place, .directory) ∧
    (tree.filesBelow place).Perm (files.map fun file => (file.1, .ok file.2))

def unsortedBelow (tree : FileTree) (place : List String) : List (List String × Content) :=
  tree.nodes.filterMap fun (other, node) =>
    match node with
    | .file content =>
      if place.isPrefixOf other then some (other.drop place.length, content) else none
    | .directory => none

omit [Formats] in
theorem filesBelow_perm (tree : FileTree) (place : List String) :
    (tree.filesBelow place).Perm (tree.unsortedBelow place) := List.mergeSort_perm _ _

instance (tree : FileTree) (path : String) (files : List (List String × ByteArray)) :
    Decidable (tree.HasDirectory path files) :=
  match hfind : tree.find path with
  | .error _ => isFalse fun ⟨_, hplace, _⟩ => nomatch hfind.symm.trans hplace
  | .ok (_, .file _) => isFalse fun ⟨_, hplace, _⟩ => nomatch hfind.symm.trans hplace
  | .ok (place, .directory) =>
    decidable_of_iff ((tree.unsortedBelow place).Perm (files.map fun file => (file.1, .ok file.2)))
      ⟨fun hfiles => ⟨place, hfind, (tree.filesBelow_perm place).trans hfiles⟩,
        fun ⟨_, hplace, hfiles⟩ => by
          cases hfind.symm.trans hplace
          exact (tree.filesBelow_perm place).symm.trans hfiles⟩

/-- The file at the path begins like an archive whose first member comes first in it. -/
def OpensWithMember (tree : FileTree) (path : String) : Prop :=
  ∃ data, tree.read path = .ok data ∧ Archive.slice data 0 4 = Archive.localSignature

instance (tree : FileTree) (path : String) : Decidable (tree.OpensWithMember path) :=
  match hread : tree.read path with
  | .error _ => isFalse fun ⟨_, hdata, _⟩ => nomatch hread.symm.trans hdata
  | .ok data => decidable_of_iff (Archive.slice data 0 4 = Archive.localSignature)
      ⟨fun hsignature => ⟨data, hread, hsignature⟩, fun ⟨_, hdata, hsignature⟩ => by
        cases hread.symm.trans hdata
        exact hsignature⟩

/-- A file that can't be read is left out. -/
theorem readFiles_result (walked : List (String × String × Content)) :
    (readFiles walked).result =
      .ok (walked.filterMap fun (_, name, content) =>
        if isClassFileName name then (parseContent content).toOption else none) := by
  induction walked with
  | nil => rfl
  | cons file walked ih =>
    obtain ⟨path, name, content⟩ := file
    rw [readFiles, List.filterMap_cons]
    by_cases hname : isClassFileName name
    · simp only [hname, if_true]
      cases parseContent content with
      | error cause => exact ih
      | ok info =>
        dsimp only
        rw [ih]
        rfl
    · simp only [hname]
      exact ih

theorem HasDirectory.readDirectory_result (h : tree.HasDirectory path files) :
    ∃ classes, (tree.readDirectory path).result = .ok classes ∧
      classes.Perm (files.filterMap fun file => classIn (lastName file.1) file.2.toList) := by
  obtain ⟨place, hplace, hfiles⟩ := h
  have hclasses := hfiles.filterMap fun file =>
    if isClassFileName (lastName file.1) then (parseContent file.2).toOption else none
  rw [List.filterMap_map] at hclasses
  refine ⟨_, ?_, hclasses⟩
  rw [readDirectory, walk, hplace]
  dsimp only
  rw [readFiles_result, List.filterMap_map]
  rfl

theorem HasDirectory.readInput_eq (h : tree.HasDirectory path files) :
    tree.readInput path = tree.readDirectory path := by
  obtain ⟨place, hplace, -⟩ := h
  have hdirectory : tree.isDirectory path := by
    rw [isDirectory, hplace]
  rw [readInput, if_pos hdirectory]

theorem HasArchive.readJar_result (h : tree.HasArchive path files) :
    ∃ classes, (tree.readJar path).result = .ok classes ∧
      classes.Perm (files.filterMap fun file => classIn (entryName file.1) file.2.toList) := by
  obtain ⟨data, hdata, archive, hopen, hholds⟩ := h
  have hjar : tree.readJar path = archive.readClasses path := by
    rw [readJar, hdata]
    dsimp only
    rw [readArchive, hopen]
  rw [hjar]
  exact hholds.readClasses_result path

theorem OpensWithMember.readInput_eq (h : tree.OpensWithMember path) :
    tree.readInput path = tree.readJar path := by
  obtain ⟨data, hdata, hsignature⟩ := h
  have hclass : Archive.localSignature ≠ classMagic := by decide
  rw [readInput, (read_eq_ok_iff.mp hdata).isDirectory_eq, readJar, hdata]
  simp [hsignature, hclass]

end FileTree

/-- A directory gives the classes of an archive of its files and those of the files under
`META-INF`, which the archive is read without. Where there are none of these, the one can be put
in the place of the other among the inputs: classes of the same names are exported, and the same
classes if no two in the archive have one name. -/
theorem directory_gives_archive_classes_and_hidden {tree : FileTree} {jar directory : String}
    {files : List (List String × ByteArray)} (hnames : ∀ file ∈ files, LeadsToFile file.1)
    (harchive : tree.HasArchive jar files) (hdirectory : tree.HasDirectory directory files) :
    ∃ fromJar fromDirectory,
      (tree.readJar jar).result = .ok fromJar ∧
      (tree.readDirectory directory).result = .ok fromDirectory ∧
      fromDirectory.Perm (fromJar ++ hiddenClasses files) ∧
      (tree.readInput directory).result = .ok fromDirectory ∧
      (tree.OpensWithMember jar → (tree.readInput jar).result = .ok fromJar) ∧
      (tree.OpensWithMember jar → hiddenClasses files = [] →
        ∀ (settings : Settings) (before after : List String) (environment : Option String),
          AgreeUpTo
            (fun headers others => headers.extraction.classes.Perm others.extraction.classes)
            ({ settings with inputs := before ++ jar :: after }.generate tree environment).result
            ({ settings with inputs := before ++ directory :: after }.generate tree
              environment).result ∧
          ((fromJar.map (·.name)).Nodup →
            AgreeUpTo (fun chosen others => chosen.1.Perm others.1)
              ({ settings with inputs := before ++ jar :: after }.prepare tree environment).result
              ({ settings with inputs := before ++ directory :: after }.prepare tree
                environment).result)) := by
  obtain ⟨fromJar, hjar, hjarPerm⟩ := harchive.readJar_result
  obtain ⟨fromDirectory, hdir, hdirPerm⟩ := hdirectory.readDirectory_result
  have hboth : fromDirectory.Perm (fromJar ++ hiddenClasses files) :=
    (hdirPerm.trans (classes_perm_append_hidden hnames)).trans (hjarPerm.symm.append_right _)
  have hinputDir : (tree.readInput directory).result = .ok fromDirectory := by
    rw [hdirectory.readInput_eq, hdir]
  have hinputJar : tree.OpensWithMember jar → (tree.readInput jar).result = .ok fromJar := by
    intro hopens
    rw [hopens.readInput_eq, hjar]
  refine ⟨fromJar, fromDirectory, hjar, hdir, hboth, hinputDir, hinputJar, ?_⟩
  intro hopens hhidden settings before after environment
  rw [hhidden, List.append_nil] at hboth
  have halike := inputsAlike_of_perm (hinputJar hopens) hinputDir hboth.symm before after
  refine ⟨Settings.generate_agree halike, ?_⟩
  intro hnodup
  have hexported := firstOfEachName_inputs_perm (hinputJar hopens) hinputDir hboth.symm hnodup
    before after
  exact (Settings.prepare_agree halike).imp fun _ _ hchosen => hchosen.2 hexported

end

/-- The readers that the program runs with find the files of an archive in its bytes. -/
theorem Archive.packs_of_unzip {data : ByteArray} {files : List (List String × ByteArray)}
    (h : (Zip.open? data).any (·.Holds files)) : Archive.Packs data files := by
  obtain ⟨archive, hopen, hholds⟩ := (Option.any_eq_true _ _).mp h
  exact ⟨archive, (FileAccess.run_load none Zip.open? data 0).trans hopen, of_decide_eq_true hholds⟩

def interfaceFile : ByteArray := ⟨#[
  0xCA, 0xFE, 0xBA, 0xBE, 0, 0, 0, 0x34, 0, 3, 1, 0, 1, 0x41, 7, 0, 1, 2, 0x21, 0, 2, 0, 0, 0, 0,
  0, 0, 0, 0, 0, 0]⟩

def classFile : ByteArray := ⟨#[
  0xCA, 0xFE, 0xBA, 0xBE, 0, 0, 0, 0x34, 0, 3, 1, 0, 1, 0x42, 7, 0, 1, 0, 0x21, 0, 2, 0, 0, 0, 0,
  0, 0, 0, 0, 0, 0]⟩

def twoFiles : List (List String × ByteArray) :=
  [(["p", "B.class"], classFile), (["A.class"], interfaceFile)]

/-- Two files in an archive, and in a directory that is walked in another order. -/
def bothForms : FileTree where
  nodes := [
    (["two.jar"], .file (.ok ⟨#[
      0x50, 0x4B, 3, 4, 0x14, 0, 0, 0, 0, 0, 0, 0, 0x21, 0, 3, 0xDF, 0x48, 0xB8, 0x1F, 0, 0, 0,
      0x1F, 0, 0, 0, 9, 0, 0, 0, 0x70, 0x2F, 0x42, 0x2E, 0x63, 0x6C, 0x61, 0x73, 0x73, 0xCA,
      0xFE, 0xBA, 0xBE, 0, 0, 0, 0x34, 0, 3, 1, 0, 1, 0x42, 7, 0, 1, 0, 0x21, 0, 2, 0, 0, 0, 0,
      0, 0, 0, 0, 0, 0, 0x50, 0x4B, 3, 4, 0x14, 0, 0, 0, 0, 0, 0, 0, 0x21, 0, 0xCC, 0xC6, 0xA0,
      0xB3, 0x1F, 0, 0, 0, 0x1F, 0, 0, 0, 7, 0, 0, 0, 0x41, 0x2E, 0x63, 0x6C, 0x61, 0x73, 0x73,
      0xCA, 0xFE, 0xBA, 0xBE, 0, 0, 0, 0x34, 0, 3, 1, 0, 1, 0x41, 7, 0, 1, 2, 0x21, 0, 2, 0, 0,
      0, 0, 0, 0, 0, 0, 0, 0, 0x50, 0x4B, 1, 2, 0x14, 0, 0x14, 0, 0, 0, 0, 0, 0, 0, 0x21, 0, 3,
      0xDF, 0x48, 0xB8, 0x1F, 0, 0, 0, 0x1F, 0, 0, 0, 9, 0, 0, 0, 0, 0, 0, 0, 0, 0, 0, 0, 0x80,
      1, 0, 0, 0, 0, 0x70, 0x2F, 0x42, 0x2E, 0x63, 0x6C, 0x61, 0x73, 0x73, 0x50, 0x4B, 1, 2,
      0x14, 0, 0x14, 0, 0, 0, 0, 0, 0, 0, 0x21, 0, 0xCC, 0xC6, 0xA0, 0xB3, 0x1F, 0, 0, 0, 0x1F,
      0, 0, 0, 7, 0, 0, 0, 0, 0, 0, 0, 0, 0, 0, 0, 0x80, 1, 0x46, 0, 0, 0, 0x41, 0x2E, 0x63,
      0x6C, 0x61, 0x73, 0x73, 0x50, 0x4B, 5, 6, 0, 0, 0, 0, 2, 0, 2, 0, 0x6C, 0, 0, 0, 0x8A, 0,
      0, 0, 0, 0]⟩)),
    (["two"], .directory), (["two", "p"], .directory),
    (["two", "p", "B.class"], .file (.ok classFile)),
    (["two", "A.class"], .file (.ok interfaceFile))]
  nodup := by decide

theorem two_forms_are_exported_alike :
    (∀ file ∈ twoFiles, LeadsToFile file.1) ∧ bothForms.HasArchive "two.jar" twoFiles ∧
    bothForms.HasDirectory "two" twoFiles ∧
    (twoFiles.filterMap fun file => classIn (entryName file.1) file.2.toList).map (·.name) =
      ["B", "A"] ∧
    AgreeUpTo (fun headers others => headers.extraction.classes.Perm others.extraction.classes)
      ({ inputs := ["two.jar"] : Settings }.generate bothForms none).result
      ({ inputs := ["two"] : Settings }.generate bothForms none).result := by
  have hnames : ∀ file ∈ twoFiles, LeadsToFile file.1 := by decide
  have harchive : bothForms.HasArchive "two.jar" twoFiles :=
    ⟨_, rfl, Archive.packs_of_unzip (by decide +kernel)⟩
  have hdirectory : bothForms.HasDirectory "two" twoFiles := by decide +kernel
  have hopens : bothForms.OpensWithMember "two.jar" := by decide +kernel
  have hhidden : hiddenClasses twoFiles = [] := by decide +kernel
  obtain ⟨fromJar, fromDirectory, -, -, -, -, -, halike⟩ :=
    directory_gives_archive_classes_and_hidden hnames harchive hdirectory
  exact ⟨hnames, harchive, hdirectory, by decide +kernel,
    (halike hopens hhidden {} [] [] none).1⟩

/-- A file under `META-INF` in an archive and in a directory, and an archive without members. -/
def underMetaInf : FileTree where
  nodes := [
    (["one.jar"], .file (.ok ⟨#[
      0x50, 0x4B, 3, 4, 0x14, 0, 0, 0, 0, 0, 0, 0, 0x21, 0, 0xCC, 0xC6, 0xA0, 0xB3, 0x1F, 0, 0,
      0, 0x1F, 0, 0, 0, 0x10, 0, 0, 0, 0x4D, 0x45, 0x54, 0x41, 0x2D, 0x49, 0x4E, 0x46, 0x2F,
      0x41, 0x2E, 0x63, 0x6C, 0x61, 0x73, 0x73, 0xCA, 0xFE, 0xBA, 0xBE, 0, 0, 0, 0x34, 0, 3, 1,
      0, 1, 0x41, 7, 0, 1, 2, 0x21, 0, 2, 0, 0, 0, 0, 0, 0, 0, 0, 0, 0, 0x50, 0x4B, 1, 2, 0x14,
      0, 0x14, 0, 0, 0, 0, 0, 0, 0, 0x21, 0, 0xCC, 0xC6, 0xA0, 0xB3, 0x1F, 0, 0, 0, 0x1F, 0, 0,
      0, 0x10, 0, 0, 0, 0, 0, 0, 0, 0, 0, 0, 0, 0x80, 1, 0, 0, 0, 0, 0x4D, 0x45, 0x54, 0x41,
      0x2D, 0x49, 0x4E, 0x46, 0x2F, 0x41, 0x2E, 0x63, 0x6C, 0x61, 0x73, 0x73, 0x50, 0x4B, 5, 6,
      0, 0, 0, 0, 1, 0, 1, 0, 0x3E, 0, 0, 0, 0x4D, 0, 0, 0, 0, 0]⟩)),
    (["one"], .directory), (["one", "META-INF"], .directory),
    (["one", "META-INF", "A.class"], .file (.ok interfaceFile)),
    (["none.jar"], .file (.ok ⟨#[
      0x50, 0x4B, 5, 6, 0, 0, 0, 0, 0, 0, 0, 0, 0, 0, 0, 0, 0, 0, 0, 0, 0, 0]⟩)),
    (["none"], .directory)]
  nodup := by decide

theorem class_under_metaInf_is_in_directory_only :
    underMetaInf.HasArchive "one.jar" [(["META-INF", "A.class"], interfaceFile)] ∧
    underMetaInf.HasDirectory "one" [(["META-INF", "A.class"], interfaceFile)] ∧
    (underMetaInf.readJar "one.jar").result = .ok [] ∧
    (∃ info, (underMetaInf.readDirectory "one").result = .ok [info] ∧ info.name = "A") ∧
    underMetaInf.HasArchive "none.jar" [] ∧ underMetaInf.HasDirectory "none" [] ∧
    (underMetaInf.readInput "none.jar").result = .error (.notAnInput "none.jar") ∧
    (underMetaInf.readInput "none").result = .ok [] := by
  have hone : underMetaInf.HasDirectory "one" [(["META-INF", "A.class"], interfaceFile)] := by
    decide +kernel
  have hnone : underMetaInf.HasDirectory "none" [] := by decide +kernel
  obtain ⟨found, hfound, hclasses⟩ := hone.readDirectory_result
  obtain ⟨others, hothers, hempty⟩ := hnone.readDirectory_result
  have hinterface : ([(["META-INF", "A.class"], interfaceFile)].filterMap
      fun file => classIn (lastName file.1) file.2.toList) = [⟨"A", none, [], true, []⟩] := by
    decide +kernel
  rw [hinterface] at hclasses
  rw [List.perm_singleton.mp hclasses] at hfound
  rw [hempty.eq_nil] at hothers
  have hjar : underMetaInf.HasArchive "one.jar" [(["META-INF", "A.class"], interfaceFile)] :=
    ⟨_, rfl, Archive.packs_of_unzip (by decide +kernel)⟩
  have hnoneJar : underMetaInf.HasArchive "none.jar" [] :=
    ⟨_, rfl, Archive.packs_of_unzip (by decide +kernel)⟩
  obtain ⟨kept, hkept, hleft⟩ := hjar.readJar_result
  have hhidden : ([(["META-INF", "A.class"], interfaceFile)].filterMap
      fun file => classIn (entryName file.1) file.2.toList) = [] := by
    decide +kernel
  rw [hhidden] at hleft
  rw [hleft.eq_nil] at hkept
  refine ⟨hjar, hone, hkept, ⟨_, hfound, rfl⟩, hnoneJar, hnone, by decide +kernel, ?_⟩
  rw [hnone.readInput_eq, hothers]

end JniHeaders
