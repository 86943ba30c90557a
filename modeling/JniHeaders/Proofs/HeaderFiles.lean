import JniHeaders.Proofs.ExportedNames
import JniHeaders.Proofs.FileTreeWrites
import JniHeaders.Proofs.HeaderGrouping
import JniHeaders.Proofs.StandardReaders

/-!
The files that the headers of single classes go to. Stems come from names that class files can
hold, so each names a file right in the directory, and no stem comes twice. What has been written
is therefore never written over, and a run that stops leaves the files of the headers before the
one that could not be written.
-/

namespace JniHeaders

theorem slash_not_mem_headerStem {name : String} (h : LegalName name) :
    '/' ∉ (headerStem name).toList := by
  have hname := Descriptor.slash_not_mem ((legalName_iff_segmented name).mp h)
  rw [headerStem, String.toList_ofList]
  intro hmem
  obtain ⟨c, hc, hslash⟩ := List.mem_map.mp hmem
  split at hslash
  · cases hslash
  · exact hname (hslash ▸ hc)

theorem leadsPlainly_headerFile {name : String} (h : LegalName name) :
    LeadsPlainly [headerStem name ++ ".h"] := by
  have hlast : (headerStem name ++ ".h").toList.getLast? = some 'h' := by
    rw [String.toList_append, List.getLast?_append]
    rfl
  refine ⟨⟨List.cons_ne_nil _ _, ?_⟩, ?_⟩
  · rw [List.forall_mem_singleton, String.toList_append]
    simpa using slash_not_mem_headerStem h
  · rw [List.forall_mem_singleton]
    refine ⟨?_, ?_, ?_⟩ <;> intro heq <;> rw [heq] at hlast <;> cases hlast

namespace Headers

def headerPlace (place : List String) (stem : String) : List String := place ++ [stem ++ ".h"]

theorem headerFile_inj {stem other : String} : stem ++ ".h" = other ++ ".h" ↔ stem = other := by
  rw [← String.toList_inj, String.toList_append, String.toList_append,
    List.append_cancel_right_eq, String.toList_inj]

theorem headerPlace_inj {place : List String} {stem other : String} :
    headerPlace place stem = headerPlace place other ↔ stem = other := by
  rw [headerPlace, headerPlace, List.append_cancel_left_eq, List.singleton_inj, headerFile_inj]

/-- Every document has a file of its own right in the directory, which holds its text, and nothing
else has changed. -/
structure Writes (directory : String) (place : List String) (before after : FileTree)
    (documents : List (String × Header)) : Prop where
  reaches : after.Reaches (Path.names directory) place
  names : ∀ document ∈ documents,
    Path.NamesFileIn (Path.names directory) (document.1 ++ ".h") (headerPath directory document.1)
  written : ∀ document ∈ documents, after.find (headerPath directory document.1) =
    .ok (headerPlace place document.1, .file (.ok document.2.render.toUTF8))
  others : ∀ other ∉ documents.map (headerPlace place ·.1), after.node? other = before.node? other

variable {refuses : FileTree.Refusals} {directory : String} {place : List String}
  {tree before between after : FileTree} {documents : List (String × Header)} {stem : String}
  {header : Header} {cause : FileError} {paths : List String}

theorem Writes.nothing (h : tree.Reaches (Path.names directory) place) :
    Writes directory place tree tree [] where
  reaches := h
  names := nofun
  written := nofun
  others _ _ := rfl

section

variable (hdirectory : tree.Reaches (Path.names directory) place)
  (hplain : LeadsPlainly [stem ++ ".h"])
include hdirectory hplain

theorem writeUnless_eq_error_iff :
    tree.writeUnless refuses (headerPath directory stem) header.render.toUTF8 = .error cause ↔
      refuses tree (headerPath directory stem) = some cause ∨
        refuses tree (headerPath directory stem) = none ∧ cause = .isADirectory ∧
          tree.node? (headerPlace place stem) = some .directory := by
  unfold FileTree.writeUnless
  cases refuses tree (headerPath directory stem) with
  | some reason => simp
  | none =>
    have hwrite := FileTree.write_of_namesFileIn hdirectory
      (Path.namesFileIn_join hplain directory) header.render.toUTF8
    dsimp only [headerPath, headerPlace]
    rw [hwrite]
    split <;> rename_i hnode <;> simp [hnode, eq_comm]

theorem writes_of_writeUnless
    (h : tree.writeUnless refuses (headerPath directory stem) header.render.toUTF8 = .ok after) :
    Writes directory place tree after [(stem, header)] := by
  have hpath := Path.namesFileIn_join hplain directory
  unfold FileTree.writeUnless at h
  split at h
  · cases h
  · rw [headerPath, FileTree.write_of_namesFileIn hdirectory hpath] at h
    split at h
    · cases h
    · rename_i hfree
      cases h
      have hnode := FileTree.node?_put hfree (.file (.ok header.render.toUTF8))
      have hreaches := hdirectory.kept (FileTree.keepsDirectories_put hfree
        (.file (.ok header.render.toUTF8)))
      refine ⟨hreaches, ?_, ?_, ?_⟩
      · exact List.forall_mem_singleton.mpr hpath
      · refine List.forall_mem_singleton.mpr (FileTree.find_of_namesFileIn hreaches hpath ?_)
        rw [hnode, if_pos rfl]
      · intro other hother
        rw [hnode, if_neg (by simpa [headerPlace] using hother)]

end

/-- What has been written stays where no later document has its stem. -/
theorem Writes.cons (hfirst : Writes directory place before between [(stem, header)])
    (hrest : Writes directory place between after documents)
    (hnew : stem ∉ documents.map (·.1)) :
    Writes directory place before after ((stem, header) :: documents) where
  reaches := hrest.reaches
  names := List.forall_mem_cons.mpr ⟨hfirst.names _ List.mem_cons_self, hrest.names⟩
  written := by
    have hpath := hfirst.names _ List.mem_cons_self
    have hplace : headerPlace place stem ∉ documents.map (headerPlace place ·.1) := by
      intro hmem
      obtain ⟨document, hdocument, hsame⟩ := List.mem_map.mp hmem
      exact hnew (List.mem_map.mpr ⟨document, hdocument, headerPlace_inj.mp hsame⟩)
    have hnode : between.node? (headerPlace place stem) = some (.file (.ok header.render.toUTF8)) :=
      FileTree.node?_of_find (hfirst.written _ List.mem_cons_self)
    refine List.forall_mem_cons.mpr ⟨?_, hrest.written⟩
    exact FileTree.find_of_namesFileIn hrest.reaches hpath ((hrest.others _ hplace).trans hnode)
  others other hother := by
    obtain ⟨hhead, htail⟩ := not_or.mp (mt List.mem_cons.mpr hother)
    exact (hrest.others other htail).trans (hfirst.others other (by simpa using hhead))

section

variable (hdirectory : tree.Reaches (Path.names directory) place)
  (hplain : ∀ document ∈ documents, LeadsPlainly [document.1 ++ ".h"])
  (hnodup : (documents.map (·.1)).Nodup)
include hdirectory hplain hnodup

theorem writeEach_of_ok (h : writeEach refuses directory documents tree = (.ok paths, after)) :
    paths = documents.map (headerPath directory ·.1) ∧
      Writes directory place tree after documents := by
  induction documents generalizing tree paths with
  | nil =>
    cases h
    exact ⟨rfl, .nothing hdirectory⟩
  | cons document documents ih =>
    obtain ⟨stem, header⟩ := document
    obtain ⟨hfirst, hothers⟩ := List.forall_mem_cons.mp hplain
    obtain ⟨hnew, hnodup⟩ := List.nodup_cons.mp hnodup
    simp only [writeEach] at h
    split at h
    · cases h
    · rename_i between hwrite
      have hwrites := writes_of_writeUnless hdirectory hfirst hwrite
      split at h
      · cases h
      · rename_i hrun
        cases h
        obtain ⟨rfl, hrest⟩ := ih hwrites.reaches hothers hnodup hrun
        exact ⟨rfl, hwrites.cons hrest hnew⟩

theorem writeEach_of_error
    (h : writeEach refuses directory documents tree = (.error cause, after)) :
    ∃ written stem header later, documents = written ++ (stem, header) :: later ∧
      Writes directory place tree after written ∧
      after.writeUnless refuses (headerPath directory stem) header.render.toUTF8 =
        .error cause := by
  induction documents generalizing tree with
  | nil => cases h
  | cons document documents ih =>
    obtain ⟨stem, header⟩ := document
    obtain ⟨hfirst, hothers⟩ := List.forall_mem_cons.mp hplain
    obtain ⟨hnew, hnodup⟩ := List.nodup_cons.mp hnodup
    simp only [writeEach] at h
    split at h
    · rename_i hwrite
      cases h
      exact ⟨[], stem, header, documents, rfl, .nothing hdirectory, hwrite⟩
    · rename_i between hwrite
      have hwrites := writes_of_writeUnless hdirectory hfirst hwrite
      split at h
      · rename_i hrun
        cases h
        obtain ⟨written, last, failed, later, rfl, hrest, hfails⟩ :=
          ih hwrites.reaches hothers hnodup hrun
        have hnew : stem ∉ written.map (·.1) := fun hmem => hnew (by simp [hmem])
        exact ⟨(stem, header) :: written, last, failed, later, rfl, hwrites.cons hrest hnew, hfails⟩
      · cases h

end

theorem perClass_nodup (headers : Headers) : (headers.perClass.map (·.1)).Nodup := by
  rw [perClass, Extraction.perClass_stems]
  exact headers.extraction.grouping_collects.nodup

theorem leadsPlainly_of_mem_perClass {headers : Headers}
    (h : ∀ name ∈ headers.extraction.classNames, LegalName name) :
    ∀ document ∈ headers.perClass, LeadsPlainly [document.1 ++ ".h"] := by
  intro document hdocument
  obtain ⟨hstem, -⟩ := Extraction.mem_perClass_iff.mp hdocument
  obtain ⟨name, hname, heq⟩ := List.mem_map.mp hstem
  rw [← heq]
  exact leadsPlainly_headerFile (h name hname)

theorem headerPaths_nodup (hplain : ∀ document ∈ documents, LeadsPlainly [document.1 ++ ".h"])
    (hnodup : (documents.map (·.1)).Nodup) (directory : String) :
    (documents.map (headerPath directory ·.1)).Nodup := by
  rw [List.nodup_iff_pairwise_ne, List.pairwise_map] at hnodup ⊢
  refine hnodup.imp_of_mem fun {first second} hfirst hsecond hdiffer hsame => hdiffer ?_
  exact headerFile_inj.mp (Path.join_injective (hplain first hfirst) (hplain second hsecond) hsame)

end Headers

open Headers in
/-- Each header goes to a file of its own right in the directory. Where all can be written, all
have been, and no other file is touched. Where one can't be, just those before it have been. -/
theorem class_headers_are_written_to_files_of_their_own [Formats] [Formats.Lawful]
    {settings : Settings} {source : FileTree} {environment : Option String} {headers : Headers}
    (hheaders : (settings.generate source environment).result = .ok headers)
    (refuses : FileTree.Refusals) (directory : String) (tree : FileTree)
    {created : Except FileError Unit} {made after : FileTree} {reported : Reported (List String)}
    (hmade : tree.createDirectory directory = (created, made))
    (hrun : headers.writeDirectoryUnless refuses directory tree = (reported, after)) :
    tree.MakesWay made (Path.names directory) ∧
    (∀ place content,
      made.node? place = some (.file content) ↔ tree.node? place = some (.file content)) ∧
    (∀ paths, reported.result = .ok paths →
      paths = headers.perClass.map (headerPath directory ·.1) ∧ paths.Nodup ∧
      ∃ place, Writes directory place made after headers.perClass) ∧
    ∀ cause, reported.result = .error cause → ∃ reason, cause = .file reason ∧
      (created = .error reason ∧ after = made ∨
        ∃ place written stem header later,
          headers.perClass = written ++ (stem, header) :: later ∧
          Writes directory place made after written ∧
          (refuses after (headerPath directory stem) = some reason ∨
            reason = .isADirectory ∧
              after.node? (headerPlace place stem) = some .directory)) := by
  have hplain := leadsPlainly_of_mem_perClass (Settings.legalName_of_generate hheaders)
  obtain ⟨hway, hreaches⟩ := tree.makeDirectories_makes (Path.names directory)
  change tree.makeDirectories (Path.names directory) = _ at hmade
  rw [hmade] at hway hreaches
  unfold writeDirectoryUnless FileTree.createDirectory at hrun
  rw [hmade] at hrun
  cases created with
  | error reason =>
    cases hrun
    refine ⟨hway, fun _ _ => hway.node?_eq_file_iff, nofun, fun cause hcause => ?_⟩
    cases hcause
    exact ⟨reason, rfl, Or.inl ⟨rfl, rfl⟩⟩
  | ok _ =>
    obtain ⟨place, hplace⟩ := hreaches rfl
    dsimp only at hrun
    split at hrun
    · rename_i reason last heach
      cases hrun
      refine ⟨hway, fun _ _ => hway.node?_eq_file_iff, nofun, fun cause hcause => ?_⟩
      cases hcause
      obtain ⟨written, stem, header, later, hsplit, hwrites, hfails⟩ :=
        writeEach_of_error hplace hplain headers.perClass_nodup heach
      have hstem := hplain (stem, header) (by simp [hsplit])
      refine ⟨reason, rfl, Or.inr ⟨place, written, stem, header, later, hsplit, hwrites, ?_⟩⟩
      rcases (writeUnless_eq_error_iff hwrites.reaches hstem).mp hfails with hrefused | ⟨-, hnode⟩
      · exact Or.inl hrefused
      · exact Or.inr hnode
    · rename_i paths last heach
      cases hrun
      refine ⟨hway, fun _ _ => hway.node?_eq_file_iff, fun found hfound => ?_, nofun⟩
      cases hfound
      obtain ⟨rfl, hwrites⟩ := writeEach_of_ok hplace hplain headers.perClass_nodup heach
      exact ⟨rfl, headerPaths_nodup hplain headers.perClass_nodup directory, place, hwrites⟩

def twoInputs : Settings where
  inputs := ["y", "z"]
  hasPlatformClasses := false

def twoHeaders : Headers where
  extraction := ⟨["B", "A"], [voidMethod "B" "f"], []⟩
  options := {}

theorem two_headers_are_written_to_a_new_directory :
    (twoInputs.generate threeFiles none).result = .ok twoHeaders ∧
    (twoHeaders.writeDirectory "out/c" threeFiles).1.result = .ok ["out/c/B.h", "out/c/A.h"] ∧
    ∃ place, Headers.Writes "out/c" place (threeFiles.createDirectory "out/c").2
      (twoHeaders.writeDirectory "out/c" threeFiles).2 twoHeaders.perClass := by
  have hheaders : (twoInputs.generate threeFiles none).result = .ok twoHeaders := by
    decide +kernel
  have hpaths : (twoHeaders.writeDirectory "out/c" threeFiles).1.result =
      .ok ["out/c/B.h", "out/c/A.h"] := by
    decide +kernel
  obtain ⟨-, -, hok, -⟩ := class_headers_are_written_to_files_of_their_own hheaders
    (fun _ _ => none) "out/c" threeFiles rfl rfl
  obtain ⟨-, -, hwrites⟩ := hok _ hpaths
  exact ⟨hheaders, hpaths, hwrites⟩

end JniHeaders
