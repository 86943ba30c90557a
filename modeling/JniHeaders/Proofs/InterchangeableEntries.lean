import JniHeaders.Proofs.ArchiveAndDirectory
import JniHeaders.Proofs.ClassFileNames
import JniHeaders.Proofs.LookupMemory
import JniHeaders.Proofs.StandardReaders
import Mathlib.Data.List.Find

/-!
Class path entries that can be put in the place of one another. A directory finds a class file by
its path, an archive by the name of a member, and a module archive by that name below the place of
its classes. If the three hold the same class files, each lookup gets what the one file of the class
yields, be it that the file can't be read, or that there is no such class.
-/

namespace JniHeaders

/-- Files of classes under the names that lead to them, from internal names. -/
def classFiles (classes : List (String × ByteArray)) : List (List String × ByteArray) :=
  classes.map fun (internal, content) => (Path.names (internal ++ ".class"), content)

def yielded [Formats] (classes : List (String × ByteArray)) (name : String) :
    Option (Except Error ClassInfo) :=
  (classes.find? (qualifiedName ·.1 = name)).map fun (_, content) => parseClass content.toList

/-- What a lookup answers where there are no other classes than these. -/
def foundAmong [Formats] (classes : List (String × ByteArray)) (name : String) :
    Except Error ClassInfo :=
  (yielded classes name).getD (.error (.classNotFound name))

structure ClassSet (classes : List (String × ByteArray)) : Prop where
  binary : ∀ file ∈ classes, ClassFile.isBinaryName file.1
  nodup : (classes.map (·.1)).Nodup

def inModule (files : List (List String × ByteArray)) : List (List String × ByteArray) :=
  files.map fun (names, content) => ("classes" :: names, content)

namespace FileTree

/-- At the path is an archive of just these files, which is no module archive. -/
def HasJar [Formats] (tree : FileTree) (path : String) (files : List (List String × ByteArray)) :
    Prop :=
  tree.HasArchive path files ∧
    ∀ data, tree.read path = .ok data → Archive.slice data 0 4 ≠ moduleMagic

/-- At the path is a header of four bytes and after it an archive of just these files, with places
in it counted from the end of the header. -/
def HasModuleArchive [Formats] (tree : FileTree) (path : String)
    (files : List (List String × ByteArray)) : Prop :=
  ∃ data, tree.read path = .ok (⟨moduleMagic.toArray⟩ ++ data) ∧
    Archive.Packs data (inModule files)

end FileTree

variable {classes : List (String × ByteArray)} {name : String}

namespace ClassSet

variable {file : String × ByteArray}

theorem classPathName_eq_iff (h : ClassSet classes) (hname : LookupName name)
    (hfile : file ∈ classes) :
    classPathName name = file.1 ++ ".class" ↔ qualifiedName file.1 = name :=
  JniHeaders.classPathName_eq_iff hname (h.binary file hfile)

theorem leadsPlainly (h : ClassSet classes) (hfile : file ∈ classes) :
    LeadsPlainly (Path.names (file.1 ++ ".class")) ∧
      entryName (Path.names (file.1 ++ ".class")) = file.1 ++ ".class" := by
  have hname := LookupName.of_legalName (legalName_qualifiedName (h.binary file hfile))
  rw [← (h.classPathName_eq_iff hname hfile).mpr rfl]
  exact hname.leadsPlainly

theorem entryName_eq_iff (h : ClassSet classes) (hname : LookupName name) (hfile : file ∈ classes) :
    entryName (Path.names (file.1 ++ ".class")) = classPathName name ↔
      qualifiedName file.1 = name := by
  rw [(h.leadsPlainly hfile).2, ← h.classPathName_eq_iff hname hfile, eq_comm]

theorem nodup_entryName (h : ClassSet classes) :
    ((classFiles classes).map (entryName ·.1)).Nodup := by
  have hentries : (classFiles classes).map (entryName ·.1) =
      (classes.map (·.1)).map (· ++ ".class") := by
    rw [classFiles, List.map_map, List.map_map]
    exact List.map_congr_left fun file hfile => (h.leadsPlainly hfile).2
  have hinjective : Function.Injective (· ++ ".class" : String → String) := by
    intro first second heq
    simpa [← String.toList_inj] using heq
  rw [hentries]
  exact h.nodup.map hinjective

theorem find?_entryName [Formats] (h : ClassSet classes) (hname : LookupName name) :
    ((classFiles classes).find? (entryName ·.1 = classPathName name)).map
        (fun file => parseClass file.2.toList) = yielded classes name := by
  have hsame : classes.find?
      ((fun file => decide (entryName file.1 = classPathName name)) ∘
        fun (internal, content) => (Path.names (internal ++ ".class"), content)) =
      classes.find? (qualifiedName ·.1 = name) :=
    List.find?_congr fun file hfile => decide_eq_decide.mpr (h.entryName_eq_iff hname hfile)
  rw [classFiles, List.find?_map, hsame, Option.map_map]
  rfl

theorem mem_classFiles_iff (h : ClassSet classes) (hname : LookupName name) (content : Content) :
    (Path.names (classPathName name), content) ∈
        (classFiles classes).map (fun file => (file.1, .ok file.2)) ↔
      ∃ file ∈ classes, qualifiedName file.1 = name ∧ .ok file.2 = content := by
  rw [classFiles, List.map_map, List.mem_map]
  refine exists_congr fun file => and_congr_right fun hfile => ?_
  rw [Function.comp_apply, Prod.mk.injEq, ← h.entryName_eq_iff hname hfile]
  refine and_congr_left fun _ => ⟨fun heq => ?_, fun heq => ?_⟩
  · exact (congrArg entryName heq).trans hname.leadsPlainly.2
  · exact (congrArg Path.names ((h.leadsPlainly hfile).2.symm.trans heq))

end ClassSet

namespace Archive

variable [Formats] {archive : Archive} {files : List (List String × ByteArray)}

theorem readMember_of_content? {member : Member} {content : List UInt8}
    (h : content? member = some content) :
    ClassPathEntry.readMember member = parseClass content := by
  rw [ClassPathEntry.readMember, (content?_eq_some_iff.mp h).1]

theorem Holds.find? (h : archive.Holds files) (hnodup : (files.map (entryName ·.1)).Nodup)
    (name : String) :
    (archive.find? name).map ClassPathEntry.readMember =
      (files.find? (entryName ·.1 = name)).map fun file => parseClass file.2.toList := by
  cases hmember : archive.find? name with
  | none =>
    have hnone : files.find? (entryName ·.1 = name) = none := by
      refine List.find?_eq_none.mpr fun file hfile hsame => ?_
      obtain ⟨member, hmem, hentry⟩ := List.mem_map.mp
        (h.symm.subset (List.mem_map.mpr ⟨file, hfile, rfl⟩))
      have hother := List.find?_eq_none.mp hmember member hmem
      rw [(Prod.mk.inj hentry).1] at hother
      exact hother hsame
    rw [hnone]
    rfl
  | some member =>
    have hname : member.name = name := by simpa using List.find?_some hmember
    obtain ⟨file, hfile, hentry⟩ := List.mem_map.mp
      (h.subset (List.mem_map.mpr ⟨member, List.mem_of_find?_eq_some hmember, rfl⟩))
    obtain ⟨hsame, hcontent⟩ := Prod.mk.inj hentry
    have hfound : files.find? (entryName ·.1 = name) = some file :=
      (find?_eq_some_iff_of_nodup hnodup name file).mpr ⟨hfile, hsame.trans hname⟩
    rw [hfound, Option.map_some, Option.map_some, readMember_of_content? hcontent.symm]

end Archive

section

variable [Formats]

theorem ClassSet.fileFor?_directory {tree : FileTree} {path : String} (h : ClassSet classes)
    (hrooted : tree.Rooted) (hdirectory : tree.HasDirectory path (classFiles classes))
    (hname : LookupName name) :
    (ClassPathEntry.directory path).fileFor? tree name = yielded classes name := by
  obtain ⟨place, hfind, hperm⟩ := hdirectory
  obtain ⟨hplain, hpath⟩ := hname.leadsPlainly
  have hhas : ∀ content, tree.HasFile (Path.join path (classPathName name)) content ↔
      ∃ file ∈ classes, qualifiedName file.1 = name ∧ .ok file.2 = content := by
    intro content
    rw [← h.mem_classFiles_iff hname, ← hperm.mem_iff,
      ← FileTree.hasFile_join_iff hrooted hfind hplain, hpath]
  unfold ClassPathEntry.fileFor? yielded
  cases hfound : classes.find? (qualifiedName ·.1 = name) with
  | none =>
    have hnone : ¬ tree.isFile (Path.join path (classPathName name)) := by
      rw [FileTree.isFile_iff]
      rintro ⟨content, hcontent⟩
      obtain ⟨file, hfile, hsame, -⟩ := (hhas content).mp hcontent
      simpa [hsame] using List.find?_eq_none.mp hfound file hfile
    simp [hnone]
  | some file =>
    have hcontent : tree.HasFile (Path.join path (classPathName name)) (.ok file.2) := by
      refine (hhas _).mpr ⟨file, List.mem_of_find?_eq_some hfound, ?_, rfl⟩
      simpa using List.find?_some hfound
    have hisFile : tree.isFile (Path.join path (classPathName name)) :=
      FileTree.isFile_iff.mpr ⟨_, hcontent⟩
    simp [hisFile, FileTree.readClassFile, hcontent.read_eq, parseContent]

theorem ClassSet.fileFor?_archive {tree : FileTree} {archive : Archive} (h : ClassSet classes)
    (hholds : archive.Holds (classFiles classes)) (hname : LookupName name) :
    (ClassPathEntry.archive archive "").fileFor? tree name = yielded classes name := by
  rw [ClassPathEntry.fileFor?, String.empty_append, hholds.find? h.nodup_entryName,
    h.find?_entryName hname]

omit [Formats] in
theorem entryName_cons {names : List String} (h : names ≠ []) (first : String) :
    entryName (first :: names) = first ++ "/" ++ entryName names := by
  obtain ⟨second, others, rfl⟩ := List.exists_cons_of_ne_nil h
  have hslash : "/".toList = ['/'] := rfl
  rw [← String.toList_inj, toList_entryName, String.toList_append, String.toList_append,
    toList_entryName]
  simp [List.intercalate_cons_cons, hslash]

omit [Formats] in
theorem ClassSet.entryName_inModule (h : ClassSet classes) {file : List String × ByteArray}
    (hfile : file ∈ classFiles classes) :
    entryName ("classes" :: file.1) = moduleRoot ++ entryName file.1 := by
  obtain ⟨⟨internal, content⟩, hmem, rfl⟩ := List.mem_map.mp hfile
  exact entryName_cons (h.leadsPlainly hmem).1.nonempty "classes"

theorem ClassSet.fileFor?_moduleArchive {tree : FileTree} {archive : Archive}
    (h : ClassSet classes) (hholds : archive.Holds (inModule (classFiles classes)))
    (hname : LookupName name) :
    (ClassPathEntry.archive archive moduleRoot).fileFor? tree name = yielded classes name := by
  have hinjective : Function.Injective (moduleRoot ++ · : String → String) := by
    intro first second heq
    simpa [← String.toList_inj] using heq
  have hentries : (inModule (classFiles classes)).map (entryName ·.1) =
      ((classFiles classes).map (entryName ·.1)).map (moduleRoot ++ ·) := by
    rw [inModule, List.map_map, List.map_map]
    exact List.map_congr_left fun file hfile => h.entryName_inModule hfile
  have hnodup : ((inModule (classFiles classes)).map (entryName ·.1)).Nodup := by
    rw [hentries]
    exact h.nodup_entryName.map hinjective
  have hsame : (classFiles classes).find?
      ((fun file => decide (entryName file.1 = moduleRoot ++ classPathName name)) ∘
        fun (names, content) => ("classes" :: names, content)) =
      (classFiles classes).find? (entryName ·.1 = classPathName name) := by
    refine List.find?_congr fun file hfile => decide_eq_decide.mpr ?_
    rw [h.entryName_inModule hfile]
    exact hinjective.eq_iff
  rw [ClassPathEntry.fileFor?, hholds.find? hnodup, inModule, List.find?_map, hsame,
    Option.map_map, ← h.find?_entryName hname]
  rfl

end

namespace ClassPathEntry

variable [Formats] {tree : FileTree} {path : String}

theorem ofPath_directory {files : List (List String × ByteArray)}
    (h : tree.HasDirectory path files) : ofPath tree path = .ok (.directory path) := by
  obtain ⟨place, hfind, -⟩ := h
  rw [ofPath, FileTree.isDirectory, hfind]
  rfl

theorem ofPath_file {data : ByteArray} (h : tree.read path = .ok data) :
    ofPath tree path = ofBytes data := by
  rw [ofPath, (FileTree.read_eq_ok_iff.mp h).isDirectory_eq, h]
  rfl

/-- With no header in front, an archive is found from the first byte on. -/
theorem ofPath_jar [Formats.Lawful] {files : List (List String × ByteArray)}
    (h : tree.HasJar path files) :
    ∃ archive, archive.Holds files ∧ ofPath tree path = .ok (.archive archive "") := by
  obtain ⟨⟨data, hread, archive, hopen, hholds⟩, hheader⟩ := h
  refine ⟨archive, hholds, ?_⟩
  have hbehind : ∀ position, ArchiveFile.mk (OpenFile.mk data position) 0 =
      ArchiveFile.behind ByteArray.empty data position := by
    simp [ArchiveFile.behind]
  have hnoHeader : ¬ (data.extract 0 (0 + moduleMagic.length)).toList = moduleMagic :=
    hheader data hread
  rw [ofPath_file hread, ofBytes]
  simp only [Seekable.read, hnoHeader, if_false, hbehind, Archive.open?_behind _ _ _ 0, hopen]

/-- The header has been read when an archive behind it is opened. -/
theorem ofPath_moduleArchive [Formats.Lawful] {files : List (List String × ByteArray)}
    (h : tree.HasModuleArchive path files) :
    ∃ archive, archive.Holds (inModule files) ∧
      ofPath tree path = .ok (.archive archive moduleRoot) := by
  obtain ⟨data, hread, archive, hopen, hholds⟩ := h
  refine ⟨archive, hholds, ?_⟩
  have hheader : (⟨moduleMagic.toArray⟩ ++ data : ByteArray).extract 0 moduleMagic.length =
      ⟨moduleMagic.toArray⟩ := ByteArray.extract_append_eq_left rfl
  have hmagic : (⟨moduleMagic.toArray⟩ : ByteArray).toList = moduleMagic := by decide +kernel
  have hbehind : ∀ position, ArchiveFile.mk (OpenFile.mk (⟨moduleMagic.toArray⟩ ++ data) position)
      moduleMagic.length = ArchiveFile.behind ⟨moduleMagic.toArray⟩ data position := fun _ => rfl
  rw [ofPath_file hread, ofBytes]
  simp only [Seekable.read, Nat.zero_add, hheader, hmagic, if_true, hbehind,
    Archive.open?_behind _ _ _ 0, hopen]

end ClassPathEntry

section

variable [Formats] {tree : FileTree} {path : String} {entry : ClassPathEntry}

theorem sources_of_entry (hopen : ClassPathEntry.ofPath tree path = .ok entry) :
    [.withoutPlatformStubs, .push path].foldl Sources.prepare (Sources.start tree) =
      ⟨tree, [], [entry], false⟩ := by
  simp only [List.foldl_cons, List.foldl_nil, Sources.prepare, Sources.start, Sources.opened, hopen]
  rfl

theorem answers_of_entry (hopen : ClassPathEntry.ofPath tree path = .ok entry)
    {names : List String}
    (hfiles : ∀ name ∈ names, entry.fileFor? tree name = yielded classes name) :
    (runAll World.prepare [.withoutPlatformStubs, .push path] (World.start tree)).1 =
        [.done, .pushed (.ok ())] ∧
      (runAll World.ask (names.map .resolve)
          (runAll World.prepare [.withoutPlatformStubs, .push path] (World.start tree)).2).1 =
        names.map fun name => .found (foundAmong classes name) := by
  constructor
  · simp only [runAll, World.prepare, World.start, ClassPath.push, hopen]
    rfl
  · have hmakes := (Sources.start_makes tree).prepareAll [.withoutPlatformStubs, .push path]
    rw [runAll_ask_recalls _ hmakes.answer, sources_of_entry hopen, List.map_map]
    refine List.map_congr_left fun name hname => congrArg Answer.found ?_
    have hlookup : Sources.lookup ⟨tree, [], [entry], false⟩ name =
        (entry.fileFor? tree name).getD (.error (.classNotFound name)) := by
      simp only [Sources.lookup, List.find?_nil, List.findSome?_cons, List.findSome?_nil]
      cases entry.fileFor? tree name <;> rfl
    rw [foundAmong, ← hfiles name hname, ← hlookup]

end

/-- A directory, an archive and a module archive that hold the same class files give the same
answers, one lookup after the other: the class, or that its file can't be read, or that there is
no such class. The header of a module archive does not show in what is read after it. -/
theorem entries_answer_alike [Formats] [Formats.Lawful] {tree : FileTree}
    {directory jar jmod : String} {classes : List (String × ByteArray)} {names : List String}
    (hclasses : ClassSet classes)
    (hrooted : tree.Rooted) (hdirectory : tree.HasDirectory directory (classFiles classes))
    (hjar : tree.HasJar jar (classFiles classes))
    (hjmod : tree.HasModuleArchive jmod (classFiles classes))
    (hnames : ∀ name ∈ names, LookupName name) :
    (∀ path ∈ [directory, jar, jmod],
      (runAll World.prepare [.withoutPlatformStubs, .push path] (World.start tree)).1 =
          [.done, .pushed (.ok ())] ∧
        (runAll World.ask (names.map .resolve)
            (runAll World.prepare [.withoutPlatformStubs, .push path] (World.start tree)).2).1 =
          names.map fun name => .found (foundAmong classes name)) ∧
    ∀ (header data : ByteArray) (position : Nat) (α : Type) (access : FileAccess α),
      access.Oriented true →
        access.run
            (ArchiveFile.mk ⟨header ++ data, header.size + position⟩ header.size) =
          access.run (OpenFile.mk data position) := by
  refine ⟨fun path hpath => ?_, fun _ _ _ _ _ h => ArchiveFile.run_behind h fun _ => rfl⟩
  · simp only [List.mem_cons, List.not_mem_nil, or_false] at hpath
    rcases hpath with rfl | rfl | rfl
    · refine answers_of_entry (ClassPathEntry.ofPath_directory hdirectory) fun name hname => ?_
      exact hclasses.fileFor?_directory hrooted hdirectory (hnames name hname)
    · obtain ⟨archive, hholds, hopen⟩ := ClassPathEntry.ofPath_jar hjar
      refine answers_of_entry hopen fun name hname => ?_
      exact hclasses.fileFor?_archive hholds (hnames name hname)
    · obtain ⟨archive, hholds, hopen⟩ := ClassPathEntry.ofPath_moduleArchive hjmod
      refine answers_of_entry hopen fun name hname => ?_
      exact hclasses.fileFor?_moduleArchive hholds (hnames name hname)

def twoClasses : List (String × ByteArray) := [("p/B", classFile), ("A", ByteArray.empty)]

def twoMembers : ByteArray := ⟨#[
  0x50, 0x4B, 3, 4, 0x14, 0, 0, 0, 0, 0, 0, 0, 0x21, 0, 3, 0xDF, 0x48, 0xB8, 0x1F, 0, 0, 0,
  0x1F, 0, 0, 0, 9, 0, 0, 0, 0x70, 0x2F, 0x42, 0x2E, 0x63, 0x6C, 0x61, 0x73, 0x73, 0xCA, 0xFE,
  0xBA, 0xBE, 0, 0, 0, 0x34, 0, 3, 1, 0, 1, 0x42, 7, 0, 1, 0, 0x21, 0, 2, 0, 0, 0, 0, 0, 0, 0,
  0, 0, 0, 0x50, 0x4B, 3, 4, 0x14, 0, 0, 0, 0, 0, 0, 0, 0x21, 0, 0, 0, 0, 0, 0, 0, 0, 0, 0, 0,
  0, 0, 7, 0, 0, 0, 0x41, 0x2E, 0x63, 0x6C, 0x61, 0x73, 0x73, 0x50, 0x4B, 1, 2, 0x14, 0, 0x14,
  0, 0, 0, 0, 0, 0, 0, 0x21, 0, 3, 0xDF, 0x48, 0xB8, 0x1F, 0, 0, 0, 0x1F, 0, 0, 0, 9, 0, 0, 0,
  0, 0, 0, 0, 0, 0, 0, 0, 0x80, 1, 0, 0, 0, 0, 0x70, 0x2F, 0x42, 0x2E, 0x63, 0x6C, 0x61, 0x73,
  0x73, 0x50, 0x4B, 1, 2, 0x14, 0, 0x14, 0, 0, 0, 0, 0, 0, 0, 0x21, 0, 0, 0, 0, 0, 0, 0, 0, 0,
  0, 0, 0, 0, 7, 0, 0, 0, 0, 0, 0, 0, 0, 0, 0, 0, 0x80, 1, 0x46, 0, 0, 0, 0x41, 0x2E, 0x63,
  0x6C, 0x61, 0x73, 0x73, 0x50, 0x4B, 5, 6, 0, 0, 0, 0, 2, 0, 2, 0, 0x6C, 0, 0, 0, 0x6B, 0, 0,
  0, 0, 0]⟩

def twoModuleMembers : ByteArray := ⟨#[
  0x50, 0x4B, 3, 4, 0x14, 0, 0, 0, 0, 0, 0, 0, 0x21, 0, 3, 0xDF, 0x48, 0xB8, 0x1F, 0, 0, 0,
  0x1F, 0, 0, 0, 0x11, 0, 0, 0, 0x63, 0x6C, 0x61, 0x73, 0x73, 0x65, 0x73, 0x2F, 0x70, 0x2F,
  0x42, 0x2E, 0x63, 0x6C, 0x61, 0x73, 0x73, 0xCA, 0xFE, 0xBA, 0xBE, 0, 0, 0, 0x34, 0, 3, 1, 0,
  1, 0x42, 7, 0, 1, 0, 0x21, 0, 2, 0, 0, 0, 0, 0, 0, 0, 0, 0, 0, 0x50, 0x4B, 3, 4, 0x14, 0, 0,
  0, 0, 0, 0, 0, 0x21, 0, 0, 0, 0, 0, 0, 0, 0, 0, 0, 0, 0, 0, 0x0F, 0, 0, 0, 0x63, 0x6C, 0x61,
  0x73, 0x73, 0x65, 0x73, 0x2F, 0x41, 0x2E, 0x63, 0x6C, 0x61, 0x73, 0x73, 0x50, 0x4B, 1, 2,
  0x14, 0, 0x14, 0, 0, 0, 0, 0, 0, 0, 0x21, 0, 3, 0xDF, 0x48, 0xB8, 0x1F, 0, 0, 0, 0x1F, 0, 0,
  0, 0x11, 0, 0, 0, 0, 0, 0, 0, 0, 0, 0, 0, 0x80, 1, 0, 0, 0, 0, 0x63, 0x6C, 0x61, 0x73, 0x73,
  0x65, 0x73, 0x2F, 0x70, 0x2F, 0x42, 0x2E, 0x63, 0x6C, 0x61, 0x73, 0x73, 0x50, 0x4B, 1, 2,
  0x14, 0, 0x14, 0, 0, 0, 0, 0, 0, 0, 0x21, 0, 0, 0, 0, 0, 0, 0, 0, 0, 0, 0, 0, 0, 0x0F, 0, 0,
  0, 0, 0, 0, 0, 0, 0, 0, 0, 0x80, 1, 0x4E, 0, 0, 0, 0x63, 0x6C, 0x61, 0x73, 0x73, 0x65, 0x73,
  0x2F, 0x41, 0x2E, 0x63, 0x6C, 0x61, 0x73, 0x73, 0x50, 0x4B, 5, 6, 0, 0, 0, 0, 2, 0, 2, 0,
  0x7C, 0, 0, 0, 0x7B, 0, 0, 0, 0, 0]⟩

def threeForms : FileTree where
  nodes := [(["c.jar"], .file (.ok twoMembers)),
    (["c.jmod"], .file (.ok (⟨moduleMagic.toArray⟩ ++ twoModuleMembers))), (["c"], .directory),
    (["c", "A.class"], .file (.ok ByteArray.empty)), (["c", "p"], .directory),
    (["c", "p", "B.class"], .file (.ok classFile))]
  nodup := by decide

theorem threeForms_hasJar : threeForms.HasJar "c.jar" (classFiles twoClasses) := by
  refine ⟨⟨_, rfl, Archive.packs_of_unzip (by decide +kernel)⟩, fun data hdata => ?_⟩
  have hread : threeForms.read "c.jar" = .ok twoMembers := rfl
  cases hread.symm.trans hdata
  decide +kernel

theorem foundAmong_twoClasses :
    ["p.B", "A", "C"].map (fun name => Answer.found (foundAmong twoClasses name)) =
      [.found (.ok ⟨"B", none, [], false, []⟩), .found (.error .badClassFile),
        .found (.error (.classNotFound "C"))] := by
  have hclass : ClassFile.read classFile.toList = some ⟨"B", none, [], false, []⟩ := by
    decide +kernel
  have hempty : ClassFile.read ByteArray.empty.toList = none := by decide +kernel
  have hfind : ["p.B", "A", "C"].map (fun name => twoClasses.find? (qualifiedName ·.1 = name)) =
      [some ("p/B", classFile), some ("A", ByteArray.empty), none] := by decide +kernel
  simp only [List.map_cons, List.map_nil, List.cons.injEq] at hfind
  obtain ⟨hB, hA, hC, -⟩ := hfind
  simp only [List.map_cons, List.map_nil, foundAmong, yielded, hB, hA, hC, Option.map_some,
    Option.map_none, Option.getD_some, Option.getD_none, parseClass, hclass, hempty]

theorem three_forms_answer_alike :
    ClassSet twoClasses ∧ threeForms.Rooted ∧
    threeForms.HasDirectory "c" (classFiles twoClasses) ∧
    threeForms.HasJar "c.jar" (classFiles twoClasses) ∧
    threeForms.HasModuleArchive "c.jmod" (classFiles twoClasses) ∧
    (∀ name ∈ ["p.B", "A", "C"], LookupName name) ∧
    ∀ path ∈ ["c", "c.jar", "c.jmod"],
      (runAll World.ask (["p.B", "A", "C"].map .resolve)
          (runAll World.prepare [.withoutPlatformStubs, .push path] (World.start threeForms)).2).1 =
        [.found (.ok ⟨"B", none, [], false, []⟩), .found (.error .badClassFile),
          .found (.error (.classNotFound "C"))] := by
  have hclasses : ClassSet twoClasses := ⟨by decide, by decide⟩
  have hdirectory : threeForms.HasDirectory "c" (classFiles twoClasses) := by decide +kernel
  have hjmod : threeForms.HasModuleArchive "c.jmod" (classFiles twoClasses) :=
    ⟨twoModuleMembers, rfl, Archive.packs_of_unzip (by decide +kernel)⟩
  have hnames : ∀ name ∈ ["p.B", "A", "C"], LookupName name := by decide
  refine ⟨hclasses, by decide, hdirectory, threeForms_hasJar, hjmod, hnames, ?_⟩
  intro path hpath
  have halike := entries_answer_alike hclasses (by decide) hdirectory threeForms_hasJar hjmod hnames
  rw [(halike.1 path hpath).2, foundAmong_twoClasses]

end JniHeaders
