import JniHeaders.ClassPath
import JniHeaders.ClassPath.Ancestry
import JniHeaders.NativeType

/-!
A class path answers questions about ancestry. It holds finitely many classes, so that every
search in it ends.
-/

namespace JniHeaders.ClassPath

def answer [Formats] (tree : FileTree) (path : ClassPath) (name : String) :
    Except Error ClassInfo :=
  (path.resolve tree name).1

/-- Every class that a lookup can find: the stubs, and what can be read from the files and from
the members of the archives. -/
def candidates [Formats] (tree : FileTree) (entries : List ClassPathEntry) : List ClassInfo :=
  platformStubs ++
    tree.nodes.filterMap (fun (_, node) =>
      match node with
      | .file content => (parseContent content).toOption
      | .directory => none) ++
    entries.flatMap fun entry =>
      match entry with
      | .directory _ => []
      | .archive contents _ => contents.members.filterMap fun member =>
          (ClassPathEntry.readMember member).toOption

def knownClasses (path : ClassPath) : List ClassInfo :=
  path.cells.filterMap fun (_, cell) =>
    match cell with
    | .found info => some info
    | _ => none

theorem mem_of_lookup {α β : Type} [BEq α] [LawfulBEq α] {key : α} {value : β}
    {pairs : List (α × β)} (h : pairs.lookup key = some value) : (key, value) ∈ pairs := by
  obtain ⟨earlier, later, rfl, -⟩ := List.lookup_eq_some_iff.mp h
  exact List.mem_append_right _ List.mem_cons_self

theorem mem_nodes_of_read {tree : FileTree} {file : String} {data : ByteArray}
    (h : tree.read file = .ok data) : ∃ place, (place, Node.file (.ok data)) ∈ tree.nodes := by
  unfold FileTree.read FileTree.find at h
  split at h
  · cases h
  · cases h
  · rename_i place content found
    subst h
    split at found
    · cases found
    · split at found
      · cases found
      · split at found
        · cases found
        · rename_i node isNode
          cases found
          unfold FileTree.node? at isNode
          split at isNode
          · cases isNode
          · exact ⟨place, mem_of_lookup isNode⟩

theorem toOption_eq_some {α : Type} {result : Except Error α} {value : α}
    (h : result = .ok value) : result.toOption = some value := by
  subst h
  rfl

section

variable [Formats]

theorem find_mem_candidates {tree : FileTree} {entries : List ClassPathEntry}
    {entry : ClassPathEntry} {name : String} {info : ClassInfo} (mem : entry ∈ entries)
    (h : entry.find tree name = .ok (some info)) : info ∈ candidates tree entries := by
  unfold candidates
  cases entry with
  | directory folder =>
    apply List.mem_append_left
    apply List.mem_append_right
    simp only [ClassPathEntry.find] at h
    split at h
    · cases read : tree.readClassFile (Path.join folder (classPathName name)) with
      | error cause => rw [read] at h; cases h
      | ok value =>
        rw [read] at h
        cases h
        unfold FileTree.readClassFile at read
        cases content : tree.read (Path.join folder (classPathName name)) with
        | error cause => rw [content] at read; cases read
        | ok data =>
          rw [content] at read
          obtain ⟨place, isNode⟩ := mem_nodes_of_read content
          exact List.mem_filterMap.mpr ⟨_, isNode, toOption_eq_some read⟩
    · cases h
  | archive contents root =>
    apply List.mem_append_right
    simp only [ClassPathEntry.find] at h
    split at h
    · cases h
    · rename_i member found
      cases read : ClassPathEntry.readMember member with
      | error cause => rw [read] at h; cases h
      | ok value =>
        rw [read] at h
        cases h
        refine List.mem_flatMap.mpr ⟨_, mem, List.mem_filterMap.mpr ⟨member, ?_, ?_⟩⟩
        · exact List.mem_of_find?_eq_some found
        · exact toOption_eq_some read

theorem findFirst_mem_candidates {tree : FileTree} {all entries : List ClassPathEntry}
    {name : String} {info : ClassInfo} (sub : ∀ entry ∈ entries, entry ∈ all)
    (h : ClassPathEntry.findFirst tree name entries = .ok (some info)) :
    info ∈ candidates tree all := by
  induction entries with
  | nil => cases h
  | cons entry entries ih =>
    unfold ClassPathEntry.findFirst at h
    split at h
    · cases h
    · rename_i found
      cases h
      exact find_mem_candidates (sub entry (List.mem_cons_self ..)) found
    · exact ih (fun other mem => sub other (List.mem_cons_of_mem _ mem)) h

theorem locate_mem_candidates {tree : FileTree} {path : ClassPath} {name : String}
    {info : ClassInfo} (h : path.locate tree name = .ok (some info)) :
    info ∈ candidates tree path.entries := by
  unfold locate at h
  split at h
  · cases h
  · rename_i found
    cases h
    exact findFirst_mem_candidates (fun _ mem => mem) found
  · refine List.mem_append_left _ (List.mem_append_left _ ?_)
    split at h
    · injection h with stub
      exact List.mem_of_find?_eq_some stub
    · cases h

end

theorem mem_knownClasses {path : ClassPath} {name : String} {info : ClassInfo}
    (h : path.cell name = .found info) : info ∈ path.knownClasses := by
  unfold cell at h
  cases kept : path.cells.lookup name with
  | none => rw [kept] at h; cases h
  | some cell =>
    rw [kept] at h
    cases h
    exact List.mem_filterMap.mpr ⟨_, mem_of_lookup kept, rfl⟩

section

variable [Formats]

theorem answer_mem_candidates {tree : FileTree} {path : ClassPath} {name : String}
    {info : ClassInfo} (h : path.answer tree name = .ok info) :
    info ∈ path.knownClasses ++ candidates tree path.entries := by
  unfold answer at h
  rcases path.resolve_cases tree name with
    ⟨_, known, run⟩ | ⟨-, run⟩ | ⟨-, ⟨_, -, run⟩ | ⟨-, run⟩ | ⟨_, located, run⟩⟩ <;>
    rw [run] at h <;> cases h
  · exact List.mem_append_left _ (mem_knownClasses known)
  · exact List.mem_append_right _ (locate_mem_candidates located)

theorem answer_eq (tree : FileTree) (path : ClassPath) (name : String) :
    path.answer tree name =
      match path.cell name with
      | .found info => .ok info
      | .missing => .error (.classNotFound name)
      | .empty =>
        match path.locate tree name with
        | .error cause => .error cause
        | .ok none => .error (.classNotFound name)
        | .ok (some info) => .ok info := by
  unfold answer
  rcases path.resolve_cases tree name with
    ⟨_, known, run⟩ | ⟨known, run⟩ | ⟨known, filled⟩
  · simp [run, known]
  · simp [run, known]
  · rcases filled with ⟨_, located, run⟩ | ⟨located, run⟩ | ⟨_, located, run⟩ <;>
      simp [run, known, located]

/-- A cell that a lookup fills holds what the lookup answers. -/
theorem answer_resolve (tree : FileTree) (path : ClassPath) (name : String) :
    (path.resolve tree name).2.answer tree = path.answer tree := by
  funext other
  rcases path.resolve_cases tree name with
    ⟨_, -, run⟩ | ⟨-, run⟩ | ⟨known, filled⟩
  · rw [run]
  · rw [run]
  · rcases filled with ⟨_, located, run⟩ | ⟨located, run⟩ | ⟨_, located, run⟩ <;>
      rw [run, answer_eq, answer_eq, cell_keep, locate_keep] <;>
      by_cases h : other = name <;> simp [h, known, located]

/-- The states that a class path comes to while it answers have the same answers. -/
theorem isFinite (tree : FileTree) (path : ClassPath) :
    Ancestry.IsFinite (fun name (path : ClassPath) => path.resolve tree name)
      (fun other => other.answer tree = path.answer tree) := by
  apply Ancestry.isFinite_of_infos (path.knownClasses ++ candidates tree path.entries)
  · intro name other same
    exact (answer_resolve tree other name).trans same
  · intro other same name info found
    apply answer_mem_candidates
    rw [← same]
    exact found

def isSubclass (tree : FileTree) : Oracle ClassPath := fun name ancestor path =>
  Ancestry.isSubclass (fun name path => path.resolve tree name) (path.isFinite tree) name ancestor
    path rfl

end

end JniHeaders.ClassPath
