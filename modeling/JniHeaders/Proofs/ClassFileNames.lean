import JniHeaders.Proofs.ClassFileRules
import JniHeaders.Proofs.FileTreePaths

/-!
Where the file of a class lies. A class with an internal name is looked for under its qualified
name, and the path of its file comes out as the internal name and an ending. The names on that path
lead plainly to the file, so that nothing else is found there.
-/

namespace JniHeaders

open Descriptor

/-- The segments of a name can be the names of directories and of a file. -/
def LookupName (name : String) : Prop :=
  ∀ segment ∈ segments name, segment ≠ [] ∧ '/' ∉ segment

instance (name : String) : Decidable (LookupName name) :=
  inferInstanceAs (Decidable (∀ segment ∈ segments name, segment ≠ [] ∧ '/' ∉ segment))

theorem not_mem_of_mem_splitOn {separator : Char} {text segment : List Char}
    (h : segment ∈ text.splitOn separator) : separator ∉ segment := by
  induction text generalizing segment with
  | nil =>
    obtain rfl : segment = [] := by simpa using h
    exact List.not_mem_nil
  | cons c text ih =>
    obtain ⟨first, others, hsplit⟩ :=
      List.exists_cons_of_ne_nil (List.splitOn_ne_nil separator text)
    rw [List.splitOn_cons_eq_if_modifyHead, hsplit] at h
    rw [hsplit] at ih
    by_cases hsame : c = separator
    · rw [if_pos (by simpa using hsame)] at h
      rcases List.mem_cons.mp h with rfl | hmem
      · exact List.not_mem_nil
      · exact ih hmem
    · rw [if_neg (by simpa using hsame), List.modifyHead_cons] at h
      rcases List.mem_cons.mp h with rfl | hmem
      · simpa [Ne.symm hsame] using ih List.mem_cons_self
      · exact ih (List.mem_cons_of_mem _ hmem)

variable {name internal : String}

theorem LookupName.slash_not_mem (h : LookupName name) : '/' ∉ name.toList := by
  intro hslash
  have hpass : Segmented (· ≠ '/') (· ≠ '/') true name.toList := by
    refine (segmented_fresh_iff name).mpr fun segment hsegment => ?_
    obtain ⟨hsome, hslashless⟩ := h segment hsegment
    cases segment with
    | nil => exact hsome rfl
    | cons c rest =>
      obtain ⟨hfirst, hrest⟩ := List.ne_and_not_mem_of_not_mem_cons hslashless
      exact ⟨by simpa using hfirst.symm, fun d hd => by simpa using ne_of_mem_of_not_mem hd hrest⟩
  simpa using hpass.dot_or_holds hslash

theorem LookupName.of_legalName (h : LegalName name) : LookupName name := by
  intro segment hsegment
  obtain ⟨hsome, hall⟩ := h segment hsegment
  refine ⟨hsome, fun hslash => ?_⟩
  exact absurd (hall '/' hslash) (by decide)

theorem toList_classPathName (name : String) :
    (classPathName name).toList = name.toList.map slashed ++ ".class".toList := by
  rw [classPathName, String.toList_ofList]
  rfl

theorem LookupName.splitOn_slashed (h : LookupName name) :
    (name.toList.map slashed).splitOn '/' = segments name := by
  have hsegments := splitOn_map_swapped (name.toList.map swapped)
  rw [map_swapped_swapped] at hsegments
  have hsame : ∀ segment ∈ segments name, segment.map swapped = segment := by
    intro segment hsegment
    have hdot : '.' ∉ segment := not_mem_of_mem_splitOn hsegment
    have hslash := (h segment hsegment).2
    refine (List.map_congr_left fun c hc => ?_).trans (List.map_id segment)
    simp [swapped, ne_of_mem_of_not_mem hc hslash, ne_of_mem_of_not_mem hc hdot]
  have hback : (segments name).map (List.map swapped) = segments name :=
    (List.map_congr_left hsame).trans (List.map_id _)
  have htwice : List.map swapped ∘ List.map swapped = id := funext map_swapped_swapped
  rw [map_slashed h.slash_not_mem, ← hback, segments, hsegments, List.map_map, htwice, List.map_id]

theorem ne_dots_of_dot_not_mem {segment : List Char} (h : '.' ∉ segment) :
    String.ofList segment ≠ "." ∧ String.ofList segment ≠ ".." := by
  constructor
  · intro heq
    have hsegment : segment = ['.'] := by simpa using congrArg String.toList heq
    simp [hsegment] at h
  · intro heq
    have hsegment : segment = ['.', '.'] := by simpa using congrArg String.toList heq
    simp [hsegment] at h

theorem leadsPlainly_of_segments {directories : List (List Char)} {last : List Char}
    (h : ∀ segment ∈ directories ++ [last], segment ≠ [] ∧ '/' ∉ segment ∧ '.' ∉ segment) :
    LeadsPlainly (directories.map String.ofList ++ [String.ofList (last ++ ".class".toList)]) where
  nonempty := by simp
  slashless := by
    intro name hname
    rcases List.mem_append.mp hname with hdirectory | hfile
    · obtain ⟨segment, hsegment, rfl⟩ := List.mem_map.mp hdirectory
      simpa using (h segment (List.mem_append_left _ hsegment)).2.1
    · rw [List.mem_singleton.mp hfile]
      have hlast := (h last (by simp)).2.1
      simpa using hlast
  named := by
    intro name hname
    rcases List.mem_append.mp hname with hdirectory | hfile
    · obtain ⟨segment, hsegment, rfl⟩ := List.mem_map.mp hdirectory
      obtain ⟨hsome, -, hdot⟩ := h segment (List.mem_append_left _ hsegment)
      exact ⟨by simpa using hsome, ne_dots_of_dot_not_mem hdot⟩
    · rw [List.mem_singleton.mp hfile]
      have hlong : 2 < (String.ofList (last ++ ".class".toList)).toList.length := by
        simp
      refine ⟨?_, ?_, ?_⟩ <;> intro heq <;> rw [heq] at hlong <;> exact absurd hlong (by decide)

theorem LookupName.exists_names (h : LookupName name) :
    ∃ names, LeadsPlainly names ∧ entryName names = classPathName name := by
  have hsome : segments name ≠ [] := List.splitOn_ne_nil _ _
  obtain ⟨directories, last, hsplit⟩ : ∃ directories last, segments name = directories ++ [last] :=
    ⟨_, _, (List.dropLast_concat_getLast hsome).symm⟩
  refine ⟨directories.map String.ofList ++ [String.ofList (last ++ ".class".toList)], ?_, ?_⟩
  · refine leadsPlainly_of_segments fun segment hmem => ?_
    rw [← hsplit] at hmem
    exact ⟨(h segment hmem).1, (h segment hmem).2, not_mem_of_mem_splitOn hmem⟩
  · have htext : ['/'].intercalate ((name.toList.map slashed).splitOn '/') =
        name.toList.map slashed := List.intercalate_splitOn '/'
    rw [h.splitOn_slashed, hsplit] at htext
    have hpath : (entryName (directories.map String.ofList ++ [String.ofList last])).toList =
        name.toList.map slashed := by
      rw [toList_entryName, ← htext]
      simp [Function.comp_def]
    rw [← String.toList_inj, toList_classPathName, ← hpath, entryName_concat, entryName_concat]
    simp

theorem LookupName.leadsPlainly (h : LookupName name) :
    LeadsPlainly (Path.names (classPathName name)) ∧
      entryName (Path.names (classPathName name)) = classPathName name := by
  obtain ⟨names, hplain, hpath⟩ := h.exists_names
  rw [← hpath, hplain.names_entryName]
  exact ⟨hplain, rfl⟩

theorem toList_qualifiedName (h : ClassFile.isBinaryName internal) :
    (qualifiedName internal).toList = internal.toList.map swapped := by
  have hdot := dot_not_mem ((ClassFile.isBinaryName_iff internal).mp h)
  rw [qualifiedName, String.toList_ofList]
  refine List.map_congr_left fun c hc => ?_
  have hc : c ≠ '.' := ne_of_mem_of_not_mem hc hdot
  simp [swapped, hc]

theorem legalName_qualifiedName (h : ClassFile.isBinaryName internal) :
    LegalName (qualifiedName internal) := by
  have hlegal := (isNameText_iff _).mp ((ClassFile.isBinaryName_iff internal).mp h)
  rwa [← toList_qualifiedName h, String.ofList_toList] at hlegal

/-- A class file lies where its class is looked for, and no other class is looked for there. -/
theorem classPathName_eq_iff (hname : LookupName name)
    (hinternal : ClassFile.isBinaryName internal) :
    classPathName name = internal ++ ".class" ↔ qualifiedName internal = name := by
  rw [← String.toList_inj, ← String.toList_inj, toList_classPathName, String.toList_append,
    List.append_cancel_right_eq, map_slashed hname.slash_not_mem, toList_qualifiedName hinternal]
  constructor
  · intro h
    rw [← h, map_swapped_swapped]
  · intro h
    rw [← h, map_swapped_swapped]

end JniHeaders
