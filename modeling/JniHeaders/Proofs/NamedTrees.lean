import JniHeaders.CommandLine
import JniHeaders.Proofs.FileTreeWrites

/-!
Trees whose files have names that files can have. A tree could hold a file under a name with a
slash, which no path leads to. The program leaves no such file where there was none.
-/

namespace JniHeaders

theorem Path.exists_segment_of_mem {text : List Char} {c : Char} (h : c ∈ text) (hc : c ≠ '/') :
    ∃ segment ∈ segments text, c ∈ segment := by
  induction text with
  | nil => cases h
  | cons d text ih =>
    obtain ⟨first, others, hsplit⟩ : ∃ first others, segments text = first :: others := by
      rw [segments_eq_splitOn]
      exact List.exists_cons_of_ne_nil (List.splitOn_ne_nil '/' text)
    rw [hsplit] at ih
    rw [segments, hsplit]
    dsimp only
    rcases List.mem_cons.mp h with rfl | hmem
    · rw [if_neg hc]
      exact ⟨_, List.mem_cons_self, List.mem_cons_self⟩
    · obtain ⟨segment, hsegment, hin⟩ := ih hmem
      split
      · exact ⟨segment, List.mem_cons_of_mem _ hsegment, hin⟩
      · rcases List.mem_cons.mp hsegment with rfl | hother
        · exact ⟨_, List.mem_cons_self, List.mem_cons_of_mem _ hin⟩
        · exact ⟨segment, List.mem_cons_of_mem _ hother, hin⟩

/-- The last name on a path is the name of a file, unless a slash follows it. -/
theorem Path.leadsPlainly_last {path last : String} (hpath : path ≠ "")
    (hslash : endsInSlash path = false) (hlast : (Path.names path).getLast? = some last)
    (hdots : last ≠ "." ∧ last ≠ "..") : LeadsPlainly [last] := by
  have hsome : path.toList ≠ [] := by simpa using hpath
  have hend : path.toList.getLast hsome ≠ '/' := by
    rw [endsInSlash, List.getLast?_eq_some_getLast hsome] at hslash
    simpa using hslash
  obtain ⟨segment, hsegment, hin⟩ := exists_segment_of_mem (List.getLast_mem hsome) hend
  have hparts : (segments path.toList).filter (· ≠ []) ≠ [] :=
    List.ne_nil_of_mem (List.mem_filter.mpr ⟨hsegment, by simpa using List.ne_nil_of_mem hin⟩)
  obtain ⟨part, hpart⟩ := Option.isSome_iff_exists.mp (List.getLast?_isSome.mpr hparts)
  rw [Path.names, List.getLast?_append, List.getLast?_map, hpart] at hlast
  cases hlast
  obtain ⟨hmem, hnonempty⟩ := List.mem_filter.mp (List.mem_of_getLast? hpart)
  rw [segments_eq_splitOn] at hmem
  refine ⟨⟨List.cons_ne_nil _ _, ?_⟩, ?_⟩
  · rw [List.forall_mem_singleton, String.toList_ofList]
    exact not_mem_of_mem_splitOn hmem
  · rw [List.forall_mem_singleton]
    exact ⟨by simpa [← String.toList_inj] using hnonempty, hdots⟩

namespace FileTree

variable {tree after made : FileTree} {place names : List String} {node : Node} {path : String}

/-- Every file has a name that a file can have. -/
def Named (tree : FileTree) : Prop :=
  ∀ entry ∈ tree.nodes, entry.2 ≠ .directory → ∀ name ∈ entry.1.getLast?, LeadsPlainly [name]

instance (tree : FileTree) : Decidable tree.Named :=
  inferInstanceAs (Decidable (∀ entry ∈ tree.nodes, entry.2 ≠ .directory →
    ∀ name ∈ entry.1.getLast?, LeadsPlainly [name]))

theorem Named.put (h : tree.Named)
    (hnode : node ≠ .directory → ∀ name ∈ place.getLast?, LeadsPlainly [name]) :
    (tree.put place node).Named := by
  intro entry hentry
  rcases List.mem_cons.mp hentry with rfl | hold
  · exact hnode
  · exact h entry (List.mem_filter.mp hold).1

theorem write_cases {content : ByteArray} (h : tree.write path content = .ok after) :
    path ≠ "" ∧ Path.endsInSlash path = false ∧ ∃ last parent,
      (Path.names path).getLast? = some last ∧ (last ≠ "." ∧ last ≠ "..") ∧
      after = tree.put (parent ++ [last]) (.file (.ok content)) := by
  unfold write at h
  split at h
  · cases h
  · rename_i hpath
    split at h
    · cases h
    · rename_i last hlast
      split at h
      · cases h
      · rename_i parent _
        split at h
        · cases h
        · rename_i hfile
          cases h
          simp only [not_or, Bool.not_eq_true] at hfile
          obtain ⟨hslash, hdot, hdots, -⟩ := hfile
          refine ⟨hpath, hslash, last, parent, hlast, ⟨hdot, hdots⟩, ?_⟩
          rw [step_of_plain ⟨hdot, hdots⟩]

theorem Named.write (h : tree.Named) {content : ByteArray}
    (hwrite : tree.write path content = .ok after) : after.Named := by
  obtain ⟨hpath, hslash, last, parent, hlast, hdots, rfl⟩ := write_cases hwrite
  have hplain := Path.leadsPlainly_last hpath hslash hlast hdots
  refine h.put fun _ name hname => ?_
  rw [List.getLast?_concat] at hname
  cases hname
  exact hplain

theorem Named.makeDirectory (h : tree.Named) (hmade : tree.makeDirectory names = .ok made) :
    made.Named := by
  rcases makeDirectory_cases hmade with
    ⟨-, rfl⟩ | ⟨directories, last, parent, -, -, ⟨-, rfl⟩ | ⟨-, rfl⟩⟩
  · exact h
  · exact h
  · exact h.put fun hfile => absurd rfl hfile

theorem Named.makeDirectories (h : tree.Named) (names : List String) :
    (tree.makeDirectories names).2.Named := by
  fun_induction FileTree.makeDirectories tree names with
  | case1 => exact h
  | case2 names _ made hmade => exact h.makeDirectory hmade
  | case3 names _ _ cause made hparent ih => rwa [hparent] at ih
  | case4 names _ _ between hparent cause _ ih => rwa [hparent] at ih
  | case5 names _ _ between hparent made hmade ih =>
    rw [hparent] at ih
    exact Named.makeDirectory ih hmade
  | case6 names _ cause _ _ => exact h

end FileTree

namespace Headers

open FileTree

variable {tree : FileTree}

theorem writeFile_named (headers : Headers) (path : String) (h : tree.Named) :
    (headers.writeFile path tree).2.Named := by
  unfold writeFile
  split
  · exact h
  · exact h.write ‹_›

theorem writeEach_named (refuses : Refusals) (directory : String)
    (documents : List (String × Header)) (h : tree.Named) :
    (writeEach refuses directory documents tree).2.Named := by
  induction documents generalizing tree with
  | nil => exact h
  | cons document documents ih =>
    rw [writeEach]
    split
    · exact h
    · rename_i between hwrite
      have hbetween : between.Named := by
        unfold writeUnless at hwrite
        split at hwrite
        · cases hwrite
        · exact h.write hwrite
      have hrest := ih hbetween
      split <;> rename_i hrun <;> rwa [hrun] at hrest

theorem writeDirectory_named (headers : Headers) (directory : String) (h : tree.Named) :
    (headers.writeDirectory directory tree).2.Named := by
  have hmade := h.makeDirectories (Path.names directory)
  unfold writeDirectory writeDirectoryUnless createDirectory
  split <;> rename_i hdirectory <;> rw [hdirectory] at hmade
  · exact hmade
  · have hwritten := writeEach_named (fun _ _ => none) directory headers.perClass hmade
    dsimp only
    split <;> rename_i hrun <;> rwa [hrun] at hwritten

end Headers

namespace CommandLine

theorem tree_ofWrite {α : Type} (notices : List Notice) (failing : String)
    (written : Reported α × FileTree) : (ofWrite notices failing written).tree = written.2 := by
  rcases written with ⟨⟨more, _ | _⟩, tree⟩ <;> rfl

/-- Whatever the program is asked to do, its files get names that files can have. -/
theorem run_named [Formats] (arguments : List String) {tree : FileTree}
    (environment : Option String) (h : tree.Named) :
    (run arguments tree environment).tree.Named := by
  unfold run
  split
  · rename_i halt _
    cases halt <;> exact h
  · rename_i command _
    unfold Command.run
    split
    · exact h
    · rename_i headers _
      unfold Destination.put
      split
      · rw [tree_ofWrite]
        exact headers.writeFile_named _ h
      · rw [tree_ofWrite]
        exact headers.writeDirectory_named _ h
      · exact h

end CommandLine

end JniHeaders
