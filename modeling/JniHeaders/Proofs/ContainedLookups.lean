import JniHeaders.ClassPath
import JniHeaders.Proofs.ClassFileNames
import JniHeaders.Proofs.StandardReaders
import JniHeaders.Proofs.SymbolIdentity

/-!
Lookups that stay where they are made. Classes are looked up because a descriptor or a class file
names them, and either may come from anywhere. The path of such a class goes down from the directory
it is looked up in, one proper name after the other, so the answer depends on what lies below the
directory and on nothing else.
-/

namespace JniHeaders

open Descriptor

inductive Naming where
  | typeDescriptor (text : String)
  | methodDescriptor (text : String)
  | classFile (bytes : List UInt8)

namespace Naming

section

variable [Formats]

/-- The classes that may be looked up because of what was read. -/
def classes : Naming → List String
  | typeDescriptor text =>
    match JavaType.parse text with
    | .ok type => type.objectName?.toList
    | .error _ => []
  | methodDescriptor text =>
    match MethodSignature.parse text with
    | .ok sig => (sig.parameters ++ [sig.result]).filterMap (·.objectName?)
    | .error _ => []
  | classFile bytes =>
    match parseClass bytes with
    | .ok info => info.superclass.toList ++ info.interfaces
    | .error _ => []

/-- Whether a class is written there by its internal name. -/
def Writes : Naming → String → Prop
  | typeDescriptor text, internal => 'L' :: internal.toList ++ [';'] <:+: text.toList
  | methodDescriptor text, internal => 'L' :: internal.toList ++ [';'] <:+: text.toList
  | classFile bytes, internal => ∃ file : ClassFile, Formats.readClass bytes = some file ∧
      internal ∈ file.superclass.toList ++ file.interfaces

end

end Naming

/-- A class that is written with an internal name is looked up at a path that can't lead out of the
directory it is looked up in. -/
structure LooksBelow [Formats] (internal name : String) : Prop where
  qualified : name = qualifiedName internal
  path : classPathName name = internal ++ ".class"
  relative : Path.isAbsolute (classPathName name) = false
  components : ∀ component ∈ Path.segments (classPathName name).toList,
    component ≠ [] ∧ component ≠ ['.'] ∧ component ≠ ['.', '.']
  found_below : ∀ {tree : FileTree} {directory : String} {place found : List String} {node : Node},
    tree.find directory = .ok (place, .directory) →
    tree.find (Path.join directory (classPathName name)) = .ok (found, node) →
    found = place ++ Path.names (classPathName name)
  depends_below : ∀ {tree other : FileTree} {directory : String} {place : List String},
    tree.find directory = .ok (place, .directory) → other.find directory = .ok (place, .directory) →
    (∀ below, tree.node? (place ++ below) = other.node? (place ++ below)) →
    (ClassPathEntry.directory directory).find tree name =
      (ClassPathEntry.directory directory).find other name

theorem infix_of_objectName? {type : JavaType} {name : String} (h : type.objectName? = some name) :
    'L' :: name.toList.map slashed ++ [';'] <:+: type.text := by
  induction type with
  | primitive kind => cases h
  | object other =>
    cases h
    exact List.infix_rfl
  | array dimensions element ih => exact (ih h).trans (List.suffix_append _ _).isInfix

theorem legalName_of_objectName? {type : JavaType} {name : String} (hspelled : type.SpelledResult)
    (h : type.objectName? = some name) : LegalName name := by
  rcases hspelled with rfl | hspelled
  · cases h
  · induction type with
    | primitive kind => cases h
    | object other =>
      cases h
      exact hspelled
    | array dimensions element ih => exact ih h hspelled.2.2

theorem exists_internal {name : String} (h : LegalName name) :
    ∃ internal : String, internal.toList = name.toList.map slashed ∧
      ClassFile.isBinaryName internal ∧ name = qualifiedName internal := by
  have hbinary : ClassFile.isBinaryName (String.ofList (name.toList.map slashed)) := by
    rw [ClassFile.isBinaryName_iff, String.toList_ofList]
    exact isNameText_slashed h
  refine ⟨_, String.toList_ofList, hbinary, ?_⟩
  rw [← String.toList_inj, toList_qualifiedName hbinary, String.toList_ofList,
    slashed_eq_swapped h, map_swapped_swapped]

theorem LeadsPlainly.components {names : List String} (h : LeadsPlainly names) :
    ∀ component ∈ Path.segments (entryName names).toList,
      component ≠ [] ∧ component ≠ ['.'] ∧ component ≠ ['.', '.'] := by
  have hsegments : Path.segments (entryName names).toList = names.map String.toList := by
    rw [Path.segments_eq_splitOn, toList_entryName, List.splitOn_intercalate]
    · simpa using h.slashless
    · simpa using h.nonempty
  rw [hsegments, List.forall_mem_map]
  intro name hname
  obtain ⟨hsome, hdot, hdots⟩ := h.named name hname
  refine ⟨by simpa using hsome, fun heq => hdot ?_, fun heq => hdots ?_⟩
  · rw [← String.toList_inj, heq]
    rfl
  · rw [← String.toList_inj, heq]
    rfl

namespace FileTree

variable {tree other : FileTree} {place names : List String} {path : String}

theorem follow_agree (h : ∀ below, tree.node? (place ++ below) = other.node? (place ++ below))
    (hplain : ∀ name ∈ names, name ≠ "." ∧ name ≠ "..") :
    tree.follow place names = other.follow place names := by
  induction names generalizing place with
  | nil => rfl
  | cons name names ih =>
    obtain ⟨hname, hnames⟩ := List.forall_mem_cons.mp hplain
    have hhere : tree.node? place = other.node? place := by simpa using h []
    have hbelow : tree.follow (place ++ [name]) names = other.follow (place ++ [name]) names :=
      ih (fun below => by simpa using h (name :: below)) hnames
    rw [follow, follow, hhere, step_of_plain hname, hbelow]

theorem hasFile_join_agree (htree : tree.find path = .ok (place, .directory))
    (hother : other.find path = .ok (place, .directory))
    (h : ∀ below, tree.node? (place ++ below) = other.node? (place ++ below))
    (hnames : LeadsPlainly names) (content : Content) :
    tree.HasFile (Path.join path (entryName names)) content ↔
      other.HasFile (Path.join path (entryName names)) content := by
  have hplain : ∀ name ∈ names, name ≠ "." ∧ name ≠ ".." := fun name hname =>
    (hnames.named name hname).2
  simp only [HasFile, find_join_eq_ok_iff htree hnames, find_join_eq_ok_iff hother hnames,
    follow_agree h hplain]
  refine exists_congr fun found => and_congr_right fun hfollow => ?_
  rw [follow_plain hplain hfollow, h names]

end FileTree

theorem ClassPathEntry.find_directory_congr [Formats] {tree other : FileTree}
    {directory name : String}
    (h : ∀ content, tree.HasFile (Path.join directory (classPathName name)) content ↔
      other.HasFile (Path.join directory (classPathName name)) content) :
    (ClassPathEntry.directory directory).find tree name =
      (ClassPathEntry.directory directory).find other name := by
  have hfiles : tree.isFile (Path.join directory (classPathName name)) ↔
      other.isFile (Path.join directory (classPathName name)) := by
    rw [FileTree.isFile_iff, FileTree.isFile_iff]
    exact exists_congr h
  simp only [find, FileTree.readClassFile]
  by_cases hfile : tree.isFile (Path.join directory (classPathName name))
  · obtain ⟨content, hcontent⟩ := FileTree.isFile_iff.mp hfile
    rw [if_pos hfile, if_pos (hfiles.mp hfile), hcontent.read_eq, ((h content).mp hcontent).read_eq]
  · rw [if_neg hfile, if_neg (mt hfiles.mpr hfile)]

theorem looksBelow_of_binary [Formats] {internal name : String}
    (hinternal : ClassFile.isBinaryName internal)
    (hname : name = qualifiedName internal) : LooksBelow internal name := by
  have hlookup : LookupName name := .of_legalName (hname ▸ legalName_qualifiedName hinternal)
  obtain ⟨hplain, hpath⟩ := hlookup.leadsPlainly
  have hdots : ∀ part ∈ Path.names (classPathName name), part ≠ "." ∧ part ≠ ".." :=
    fun part hpart => (hplain.named part hpart).2
  constructor
  · exact hname
  · exact (classPathName_eq_iff hlookup hinternal).mpr hname.symm
  · rw [← hpath]
    exact hplain.isAbsolute_entryName
  · have hcomponents := hplain.components
    rwa [hpath] at hcomponents
  · intro tree directory place found node hdirectory hfound
    rw [← hpath, FileTree.find_join_eq_ok_iff hdirectory hplain] at hfound
    exact FileTree.follow_plain hdots hfound.1
  · intro tree other directory place htree hother hbelow
    refine ClassPathEntry.find_directory_congr fun content => ?_
    rw [← hpath]
    exact FileTree.hasFile_join_agree htree hother hbelow hplain content

theorem MethodSignature.text_infix {sig : MethodSignature} {type : JavaType}
    (h : type ∈ sig.parameters ++ [sig.result]) : type.text <:+: sig.text := by
  rcases List.mem_append.mp h with hparameter | hresult
  · have hinfix : type.text <:+: sig.parameters.flatMap JavaType.text := by
      rw [List.flatMap_def]
      exact List.infix_of_mem_flatten (List.mem_map_of_mem hparameter)
    exact hinfix.trans ⟨['('], ')' :: sig.result.text, by simp [text]⟩
  · rw [List.mem_singleton.mp hresult]
    exact ⟨'(' :: sig.parameters.flatMap JavaType.text ++ [')'], [], by simp [text]⟩

theorem MethodSignature.spelledResult_of_mem {sig : MethodSignature} (hsig : sig.Spelled)
    {type : JavaType} (h : type ∈ sig.parameters ++ [sig.result]) : type.SpelledResult := by
  rcases List.mem_append.mp h with hparameter | hresult
  · exact Or.inr (hsig.parameters type hparameter)
  · rw [List.mem_singleton.mp hresult]
    exact hsig.result

theorem ClassFile.mem_parents_info_iff {file : ClassFile} {name : String} :
    name ∈ file.info.superclass.toList ++ file.info.interfaces ↔
      ∃ internal ∈ file.superclass.toList ++ file.interfaces, qualifiedName internal = name := by
  simp [info, or_and_right, exists_or]

namespace Naming

theorem written_in_type {type : JavaType} {name : String} (hspelled : type.SpelledResult)
    (h : type.objectName? = some name) :
    ∃ internal : String, 'L' :: internal.toList ++ [';'] <:+: type.text ∧
      ClassFile.isBinaryName internal ∧ name = qualifiedName internal := by
  obtain ⟨internal, htext, hbinary, hname⟩ := exists_internal (legalName_of_objectName? hspelled h)
  exact ⟨internal, by rw [htext]; exact infix_of_objectName? h, hbinary, hname⟩

theorem written [Formats] [Formats.Lawful] (source : Naming) {name : String}
    (h : name ∈ source.classes) :
    ∃ internal, source.Writes internal ∧ ClassFile.isBinaryName internal ∧
      name = qualifiedName internal := by
  cases source with
  | typeDescriptor text =>
    simp only [classes] at h
    split at h
    · rename_i type hparse
      obtain ⟨hwellFormed, rfl⟩ := (JavaType.parse_eq_ok_iff _ _).mp hparse
      obtain ⟨internal, hinfix, hbinary, hname⟩ :=
        written_in_type ((JavaType.wellFormedResult_iff type).mp hwellFormed).1
          (Option.mem_toList.mp h)
      refine ⟨internal, ?_, hbinary, hname⟩
      simpa [Writes, JavaType.encode] using hinfix
    · cases h
  | methodDescriptor text =>
    simp only [classes] at h
    split at h
    · rename_i sig hparse
      obtain ⟨hwellFormed, rfl⟩ := (MethodSignature.parse_eq_ok_iff _ _).mp hparse
      have hsig := ((MethodSignature.wellFormed_iff sig).mp hwellFormed).1
      obtain ⟨type, htype, hobject⟩ := List.mem_filterMap.mp h
      obtain ⟨internal, hinfix, hbinary, hname⟩ :=
        written_in_type (MethodSignature.spelledResult_of_mem hsig htype) hobject
      refine ⟨internal, ?_, hbinary, hname⟩
      simpa [Writes, MethodSignature.encode] using hinfix.trans (MethodSignature.text_infix htype)
    · cases h
  | classFile bytes =>
    simp only [classes] at h
    split at h
    · rename_i info hparse
      obtain ⟨file, hfile, rfl⟩ := Option.map_eq_some_iff.mp (parseClass_eq_ok_iff.mp hparse)
      obtain ⟨internal, hinternal, rfl⟩ := ClassFile.mem_parents_info_iff.mp h
      have hlegal := Formats.Lawful.names_legal hfile internal (List.mem_cons_of_mem _ hinternal)
      exact ⟨internal, ⟨file, hfile, hinternal⟩, (ClassFile.isBinaryName_iff internal).mpr hlegal,
        rfl⟩
    · cases h

end Naming

/-- Classes are looked up below a directory only, each at a path of its own, which is the internal
name that was read and an ending. -/
theorem named_classes_are_looked_up_below [Formats] [Formats.Lawful] :
    (∀ source : Naming, ∀ name ∈ source.classes,
      ∃ internal, source.Writes internal ∧ LooksBelow internal name) ∧
    ∀ source other : Naming, ∀ name ∈ source.classes, ∀ otherName ∈ other.classes,
      name ≠ otherName → classPathName name ≠ classPathName otherName := by
  refine ⟨fun source name hname => ?_, fun source other name hname otherName hother hne hpath => ?_⟩
  · obtain ⟨internal, hwrites, hbinary, hqualified⟩ := source.written hname
    exact ⟨internal, hwrites, looksBelow_of_binary hbinary hqualified⟩
  · obtain ⟨internal, -, hbinary, hqualified⟩ := source.written hname
    obtain ⟨otherInternal, -, hotherBinary, hotherQualified⟩ := other.written hother
    have hlookup : LookupName otherName :=
      .of_legalName (hotherQualified ▸ legalName_qualifiedName hotherBinary)
    rw [(looksBelow_of_binary hbinary hqualified).path, eq_comm,
      classPathName_eq_iff hlookup hbinary] at hpath
    exact hne (hqualified.trans hpath)

def heir : List UInt8 := [
  0xCA, 0xFE, 0xBA, 0xBE, 0, 0, 0, 0x34, 0, 5, 1, 0, 1, 0x41, 7, 0, 1, 1, 0, 3, 0x70, 0x2F, 0x53,
  7, 0, 3, 0, 0x21, 0, 2, 0, 4, 0, 0, 0, 0, 0, 0, 0, 0]

theorem classes_of_arrays_and_heirs_are_looked_up_below :
    "a.b)" ∈ (Naming.methodDescriptor "([[La/b);)V").classes ∧
    "p.S" ∈ (Naming.classFile heir).classes ∧
    (∃ internal, 'L' :: internal.toList ++ [';'] <:+: "([[La/b);)V".toList ∧
      LooksBelow internal "a.b)") ∧
    (∃ internal, (Naming.classFile heir).Writes internal ∧ LooksBelow internal "p.S") ∧
    classPathName "a.b)" ≠ classPathName "p.S" := by
  have hparse : MethodSignature.parse "([[La/b);)V" =
      .ok ⟨[.array 2 (.object "a.b)")], .primitive .void⟩ :=
    (MethodSignature.parse_eq_ok_iff _ _).mpr
      ⟨(MethodSignature.wellFormed_iff _).mpr ⟨⟨by decide, Or.inl rfl⟩, by decide⟩, by decide⟩
  have hread : ClassFile.read heir = some ⟨"A", some "p.S", [], false, []⟩ := by decide +kernel
  have hclass : "a.b)" ∈ (Naming.methodDescriptor "([[La/b);)V").classes := by
    simp [Naming.classes, hparse, JavaType.objectName?]
  have hsuper : "p.S" ∈ (Naming.classFile heir).classes := by
    simp [Naming.classes, parseClass, hread]
  obtain ⟨hbelow, hdistinct⟩ := named_classes_are_looked_up_below
  exact ⟨hclass, hsuper, hbelow _ _ hclass, hbelow _ _ hsuper,
    hdistinct _ _ _ hclass _ hsuper (by decide)⟩

end JniHeaders
