import JniHeaders.Proofs.ClassFileNames
import JniHeaders.Proofs.ExportedClasses
import JniHeaders.Proofs.ReaderLaws

/-!
The names of exported classes. Whatever kind of input a class comes from, it has been read from
the bytes of a class file, so its name is one that a class file can hold. The classes of a batch
are some of these, and its methods are theirs.
-/

namespace JniHeaders

variable [Formats]

def ClassInfo.IsRead (info : ClassInfo) : Prop := ∃ bytes, ClassFile.read bytes = some info

theorem ClassInfo.IsRead.legalName [Formats.Lawful] {info : ClassInfo} (h : info.IsRead) :
    LegalName info.name := by
  obtain ⟨bytes, hread⟩ := h
  obtain ⟨file, hfile, rfl⟩ := Option.map_eq_some_iff.mp hread
  have hlegal := Formats.Lawful.names_legal hfile file.name List.mem_cons_self
  exact legalName_qualifiedName ((ClassFile.isBinaryName_iff file.name).mpr hlegal)

variable {info : ClassInfo} {infos : List ClassInfo}

theorem isRead_of_parseClass {bytes : List UInt8} (h : parseClass bytes = .ok info) :
    info.IsRead :=
  ⟨bytes, parseClass_eq_ok_iff.mp h⟩

theorem isRead_of_parseContent {content : Content} (h : parseContent content = .ok info) :
    info.IsRead := by
  unfold parseContent at h
  split at h
  · cases h
  · exact isRead_of_parseClass h

theorem Archive.isRead_of_readMember {origin : String} {member : Member}
    (h : (readMember origin member).result = .ok (some info)) : info.IsRead := by
  unfold readMember at h
  split at h
  · cases h
  · split at h
    · split at h
      · cases h
      · split at h <;> cases h
        exact isRead_of_parseClass ‹_›
    · cases h

theorem Archive.isRead_of_readMembers {origin : String} {members : List Member}
    (h : (readMembers origin members).result = .ok infos) :
    ∀ info ∈ infos, info.IsRead := by
  induction members generalizing infos with
  | nil =>
    cases h
    simp
  | cons member members ih =>
    rw [readMembers] at h
    obtain ⟨found, hfound, h⟩ := Reported.result_bind_eq_ok_iff.mp h
    obtain ⟨others, hothers, h⟩ := Reported.result_bind_eq_ok_iff.mp h
    cases h
    intro info hinfo
    rcases List.mem_append.mp hinfo with hfirst | hrest
    · rw [Option.mem_toList.mp hfirst] at hfound
      exact isRead_of_readMember hfound
    · exact ih hothers info hrest

theorem isRead_of_readArchive {path : String} {data : ByteArray}
    (h : (readArchive path data).result = .ok infos) : ∀ info ∈ infos, info.IsRead := by
  unfold readArchive at h
  split at h
  · cases h
  · exact Archive.isRead_of_readMembers h

namespace FileTree

variable {tree : FileTree} {path : String}

theorem isRead_of_readFiles {files : List (String × String × Content)}
    (h : (readFiles files).result = .ok infos) : ∀ info ∈ infos, info.IsRead := by
  induction files generalizing infos with
  | nil =>
    cases h
    simp
  | cons file files ih =>
    obtain ⟨path, name, content⟩ := file
    rw [readFiles] at h
    split at h
    · split at h
      · rename_i info hinfo
        cases hothers : (readFiles files).result with
        | error cause =>
          rw [hothers] at h
          cases h
        | ok others =>
          rw [hothers] at h
          cases h
          exact List.forall_mem_cons.mpr ⟨isRead_of_parseContent hinfo, ih hothers⟩
      · exact ih h
    · exact ih h

theorem isRead_of_readDirectory (h : (tree.readDirectory path).result = .ok infos) :
    ∀ info ∈ infos, info.IsRead := by
  unfold readDirectory at h
  split at h
  · cases h
  · exact isRead_of_readFiles h

theorem isRead_of_readInput (h : (tree.readInput path).result = .ok infos) :
    ∀ info ∈ infos, info.IsRead := by
  unfold readInput at h
  split at h
  · exact isRead_of_readDirectory h
  · split at h
    · cases h
    · rename_i data _
      dsimp only at h
      split at h
      · cases hclass : parseClass data.toList with
        | error cause =>
          rw [hclass] at h
          cases h
        | ok info =>
          rw [hclass] at h
          cases h
          simpa using isRead_of_parseClass hclass
      · split at h
        · exact isRead_of_readArchive h
        · cases h

theorem isRead_of_mem_inputClasses {inputs : List String} (h : info ∈ tree.inputClasses inputs) :
    info.IsRead := by
  obtain ⟨input, -, hinfo⟩ := List.mem_flatMap.mp h
  cases hresult : (tree.readInput input).result with
  | error cause =>
    rw [hresult] at hinfo
    cases hinfo
  | ok infos =>
    rw [hresult] at hinfo
    exact isRead_of_readInput hresult info hinfo

end FileTree

omit [Formats] in
theorem Extraction.exists_of_mem_classNames {σ : Type} {oracle : Oracle σ}
    {classes : List ClassInfo} {state : σ} {name : String}
    (h : name ∈ (of oracle classes state).1.classNames) :
    ∃ info ∈ classes, info.name = name := by
  rcases List.mem_append.mp h with hclass | hmethod
  · rw [classes_of] at hclass
    exact List.mem_map.mp hclass
  · obtain ⟨record, hrecord, rfl⟩ := List.mem_map.mp hmethod
    obtain ⟨className, method, hcandidate, hrecords⟩ :=
      (extraction_sorted oracle classes state).exists_recorded hrecord
    obtain ⟨info, hinfo, hown⟩ := List.mem_flatMap.mp hcandidate
    obtain ⟨_, -, heq⟩ := List.mem_map.mp hown
    cases heq
    exact ⟨info, hinfo, hrecords.className.symm⟩

theorem Settings.legalName_of_generate [Formats.Lawful] {settings : Settings} {tree : FileTree}
    {environment : Option String} {headers : Headers}
    (h : (settings.generate tree environment).result = .ok headers) :
    ∀ name ∈ headers.extraction.classNames, LegalName name := by
  obtain ⟨path, exported, after, hpath, hinputs⟩ := exists_of_generate_eq_ok h
  have hread := ClassPath.readable_of_insertInputs hinputs
  obtain ⟨_, hexported, -⟩ := insertInputs_exports hpath hread
  cases hinputs.symm.trans hexported
  rw [generate_result hpath hinputs] at h
  cases hchosen : choose (firstOfEachName (tree.inputClasses settings.inputs))
      settings.selection with
  | error cause =>
    rw [hchosen] at h
    cases h
  | ok chosen =>
    rw [hchosen] at h
    cases h
    intro name hname
    obtain ⟨info, hinfo, rfl⟩ := Extraction.exists_of_mem_classNames hname
    have hfirst := (choose_sublist hchosen).subset hinfo
    have hinput := (firstOfEachName_sublist _).subset hfirst
    exact (FileTree.isRead_of_mem_inputClasses hinput).legalName

end JniHeaders
