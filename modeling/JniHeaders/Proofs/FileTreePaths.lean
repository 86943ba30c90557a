import JniHeaders.Proofs.EntryNames
import Mathlib.Data.List.Induction
import Mathlib.Data.List.Nodup

/-!
Paths that go on from a directory. Names that each mean what they say lead from a directory to a
place below it. In a tree of which every node lies in a directory they get there, so that the
files which such paths lead to are those that a walk from the directory meets.
-/

namespace JniHeaders

/-- Names that lead further down, one after the other. -/
structure LeadsPlainly (names : List String) : Prop extends LeadsToFile names where
  named : ∀ name ∈ names, name ≠ "" ∧ name ≠ "." ∧ name ≠ ".."

instance (names : List String) : Decidable (LeadsPlainly names) :=
  decidable_of_iff (LeadsToFile names ∧ ∀ name ∈ names, name ≠ "" ∧ name ≠ "." ∧ name ≠ "..")
    ⟨fun h => ⟨h.1, h.2⟩, fun h => ⟨h.toLeadsToFile, h.named⟩⟩

namespace Path

theorem segments_eq_splitOn (text : List Char) : segments text = text.splitOn '/' := by
  induction text with
  | nil => rfl
  | cons c text ih =>
    obtain ⟨first, others, hsplit⟩ := List.exists_cons_of_ne_nil (List.splitOn_ne_nil '/' text)
    rw [segments, ih, List.splitOn_cons_eq_if_modifyHead, hsplit]
    by_cases hslash : c = '/' <;> simp [hslash]

theorem segments_append_slash (before after : List Char) :
    segments (before ++ '/' :: after) = segments before ++ segments after := by
  simp only [segments_eq_splitOn]
  exact List.splitOnP_append_cons before after (beq_self_eq_true '/')

end Path

variable {names : List String}

theorem toList_entryName (names : List String) :
    (entryName names).toList = ['/'].intercalate (names.map String.toList) := by
  rw [entryName, String.toList_intercalate]
  rfl

namespace LeadsPlainly

theorem head?_entryName (h : LeadsPlainly names) :
    ∃ c, (entryName names).toList.head? = some c ∧ c ≠ '/' := by
  obtain ⟨name, others, rfl⟩ := List.exists_cons_of_ne_nil h.nonempty
  have hname : name.toList ≠ [] := by
    simpa using (h.named name List.mem_cons_self).1
  obtain ⟨c, rest, hc⟩ := List.exists_cons_of_ne_nil hname
  refine ⟨c, ?_, ?_⟩
  · rw [toList_entryName]
    cases others <;> simp [hc]
  · rintro rfl
    exact h.slashless name List.mem_cons_self (by simp [hc])

theorem getLast?_entryName (h : LeadsPlainly names) :
    ∃ c, (entryName names).toList.getLast? = some c ∧ c ≠ '/' := by
  obtain ⟨directories, last, rfl, hslash, -⟩ := h.exists_eq_concat
  have hlast : last.toList ≠ [] := by
    simpa using (h.named last (by simp)).1
  refine ⟨last.toList.getLast hlast, ?_, ?_⟩
  · rw [entryName_concat, List.getLast?_append, List.getLast?_eq_some_getLast hlast]
    rfl
  · rintro hc
    exact hslash (hc ▸ List.getLast_mem hlast)

theorem isAbsolute_entryName (h : LeadsPlainly names) :
    Path.isAbsolute (entryName names) = false := by
  obtain ⟨c, hhead, hc⟩ := h.head?_entryName
  simp [Path.isAbsolute, hhead, hc]

theorem segments_entryName (h : LeadsPlainly names) :
    (Path.segments (entryName names).toList).filter (· ≠ []) = names.map String.toList := by
  rw [Path.segments_eq_splitOn, toList_entryName, List.splitOn_intercalate]
  · simpa using fun name hname => (h.named name hname).1
  · simpa using h.slashless
  · simpa using h.nonempty

theorem names_entryName (h : LeadsPlainly names) : Path.names (entryName names) = names := by
  rw [Path.names, h.isAbsolute_entryName, h.segments_entryName]
  simp

end LeadsPlainly

namespace Path

variable {base : String}

theorem join_eq_append (h : LeadsPlainly names) (hbase : base ≠ "") :
    ∃ before, (join base (entryName names)).toList = before ++ '/' :: (entryName names).toList ∧
      (base.toList = before ++ ['/'] ∨ base.toList = before) := by
  by_cases hslash : endsInSlash base
  · obtain ⟨before, hbefore⟩ := List.getLast?_eq_some_iff.mp (of_decide_eq_true hslash)
    refine ⟨before, ?_, Or.inl hbefore⟩
    simp [join, h.isAbsolute_entryName, hslash, hbefore]
  · refine ⟨base.toList, ?_, Or.inr rfl⟩
    simp [join, h.isAbsolute_entryName, hslash, hbase]

theorem names_join (hbase : base ≠ "") (h : LeadsPlainly names) :
    Path.names (join base (entryName names)) = Path.names base ++ names := by
  obtain ⟨before, hjoin, hbefore⟩ := join_eq_append h hbase
  have hsegments : (segments (join base (entryName names)).toList).filter (· ≠ []) =
      (segments base.toList).filter (· ≠ []) ++ names.map String.toList := by
    rw [hjoin, segments_append_slash, List.filter_append, h.segments_entryName]
    rcases hbefore with hslash | hsame
    · have hend : segments [] = [[]] := rfl
      simp [hslash, segments_append_slash, hend]
    · rw [hsame]
  have habsolute : isAbsolute (join base (entryName names)) = isAbsolute base := by
    unfold isAbsolute
    rw [hjoin]
    rcases hbefore with hslash | hsame
    · cases before <;> simp [hslash]
    · obtain ⟨c, rest, rfl⟩ : ∃ c rest, before = c :: rest :=
        List.exists_cons_of_ne_nil (by simpa [← hsame] using hbase)
      simp [hsame]
  rw [Path.names, Path.names, habsolute, hsegments]
  simp

theorem endsInSlash_join (hbase : base ≠ "") (h : LeadsPlainly names) :
    endsInSlash (join base (entryName names)) = false := by
  obtain ⟨c, hlast, hc⟩ := h.getLast?_entryName
  obtain ⟨before, hjoin, -⟩ := join_eq_append h hbase
  rw [endsInSlash, hjoin, List.getLast?_append, List.getLast?_cons, hlast]
  simpa using hc

theorem join_injective {first second : String} (hfirst : LeadsPlainly [first])
    (hsecond : LeadsPlainly [second]) (h : join base first = join base second) :
    first = second := by
  have habsolute : ∀ {name}, LeadsPlainly [name] → isAbsolute name = false :=
    fun hname => hname.isAbsolute_entryName
  unfold join at h
  rw [habsolute hfirst, habsolute hsecond] at h
  simp only [Bool.false_eq_true, if_false] at h
  split at h
  · exact (String.append_right_inj _).mp h
  · exact (String.append_right_inj _).mp h

end Path

namespace FileTree

/-- Every node lies in a directory. -/
def Rooted (tree : FileTree) : Prop :=
  ∀ entry ∈ tree.nodes, tree.node? entry.1.dropLast = some .directory

instance (tree : FileTree) : Decidable tree.Rooted :=
  inferInstanceAs (Decidable (∀ entry ∈ tree.nodes, _))

variable {tree : FileTree} {place : List String}

theorem follow_append (tree : FileTree) (place first second : List String) :
    tree.follow place (first ++ second) =
      match tree.follow place first with
      | .error cause => .error cause
      | .ok between => tree.follow between second := by
  induction first generalizing place with
  | nil => rfl
  | cons name first ih =>
    rw [List.cons_append, follow, follow]
    cases tree.node? place with
    | none => rfl
    | some node =>
      cases node with
      | file content => rfl
      | directory => exact ih (step place name)

theorem step_of_plain {name : String} (h : name ≠ "." ∧ name ≠ "..") :
    step place name = place ++ [name] := by
  rw [step, if_neg h.1, if_neg h.2]

theorem follow_plain (hplain : ∀ name ∈ names, name ≠ "." ∧ name ≠ "..") {other : List String}
    (h : tree.follow place names = .ok other) : other = place ++ names := by
  induction names generalizing place with
  | nil =>
    cases h
    simp
  | cons name names ih =>
    obtain ⟨hname, hnames⟩ := List.forall_mem_cons.mp hplain
    rw [follow] at h
    split at h
    · cases h
    · cases h
    · rw [step_of_plain hname] at h
      simpa using ih hnames h

theorem node?_eq_some_iff {node : Node} (habove : isAbove place = false) (hroot : place ≠ ["/"]) :
    tree.node? place = some node ↔ (place, node) ∈ tree.nodes := by
  rw [node?, if_neg (by simp [habove, hroot]), List.lookup_eq_some_iff]
  constructor
  · rintro ⟨before, after, hnodes, -⟩
    simp [hnodes]
  · intro hmem
    obtain ⟨before, after, hnodes⟩ := List.append_of_mem hmem
    refine ⟨before, after, hnodes, fun entry hentry => ?_⟩
    have hnodup := tree.nodup
    rw [hnodes, List.map_append, List.map_cons] at hnodup
    have hothers := (List.nodup_middle.mp hnodup).notMem
    have hother : place ≠ entry.1 := by
      intro hsame
      have hkey : entry.1 ∈ before.map (·.1) := List.mem_map_of_mem hentry
      exact hothers (List.mem_append_left _ (hsame ▸ hkey))
    simpa using hother

theorem Rooted.node?_of_concat (h : tree.Rooted) {name : String}
    (hnode : tree.node? (place ++ [name]) ≠ none) : tree.node? place = some .directory := by
  by_cases habove : isAbove (place ++ [name])
  · have hplace : isAbove place := by
      simp only [isAbove, List.all_append, Bool.and_eq_true] at habove
      exact habove.1
    rw [node?, if_pos (Or.inl hplace)]
  · by_cases hroot : place ++ [name] = ["/"]
    · obtain rfl : place = [] := by simpa using congrArg List.dropLast hroot
      rfl
    · obtain ⟨node, hsome⟩ := Option.ne_none_iff_exists'.mp hnode
      have hentry := (node?_eq_some_iff (by simpa using habove) hroot).mp hsome
      simpa using h _ hentry

theorem Rooted.node?_of_append (h : tree.Rooted) (hnames : names ≠ [])
    (hnode : tree.node? (place ++ names) ≠ none) : tree.node? place = some .directory := by
  induction names using List.reverseRecOn with
  | nil => exact absurd rfl hnames
  | append_singleton names name ih =>
    rw [← List.append_assoc] at hnode
    have hparent := h.node?_of_concat hnode
    by_cases hlast : names = []
    · simpa [hlast] using hparent
    · exact ih hlast (by rw [hparent]; nofun)

theorem Rooted.follow_of_node (h : tree.Rooted)
    (hplain : ∀ name ∈ names, name ≠ "." ∧ name ≠ "..")
    (hnode : tree.node? (place ++ names) ≠ none) :
    tree.follow place names = .ok (place ++ names) := by
  induction names generalizing place with
  | nil => simp [follow]
  | cons name names ih =>
    obtain ⟨hname, hnames⟩ := List.forall_mem_cons.mp hplain
    rw [follow, h.node?_of_append (List.cons_ne_nil _ _) hnode, step_of_plain hname]
    dsimp only
    rw [List.append_cons place name names] at hnode ⊢
    exact ih hnames hnode

variable {path : String}

theorem follow_of_find (h : tree.find path = .ok (place, .directory)) :
    path ≠ "" ∧ tree.follow [] (Path.names path) = .ok place ∧
      tree.node? place = some .directory := by
  unfold find at h
  split at h
  · cases h
  · rename_i hpath
    split at h
    · cases h
    · rename_i other hfollow
      split at h
      · cases h
      · rename_i node hnode
        cases h
        refine ⟨hpath, ?_, hnode⟩
        rw [follow_append] at hfollow
        split at hfollow
        · cases hfollow
        · rename_i between hbetween
          rw [hbetween]
          split at hfollow
          · rw [follow] at hfollow
            split at hfollow <;> cases hfollow
            rfl
          · cases hfollow
            rfl

theorem find_join_eq_ok_iff (hdirectory : tree.find path = .ok (place, .directory))
    (hnames : LeadsPlainly names) {other : List String} {node : Node} :
    tree.find (Path.join path (entryName names)) = .ok (other, node) ↔
      tree.follow place names = .ok other ∧ tree.node? other = some node := by
  obtain ⟨hpath, hfollow, -⟩ := follow_of_find hdirectory
  have hsome : Path.join path (entryName names) ≠ "" := by
    obtain ⟨before, hjoin, -⟩ := Path.join_eq_append hnames hpath
    intro hempty
    simp [hempty] at hjoin
  have hfollowed : tree.follow [] (Path.names path ++ names) = tree.follow place names := by
    simp only [follow_append, hfollow]
  rw [find, if_neg hsome, Path.names_join hpath hnames, Path.endsInSlash_join hpath hnames]
  simp only [Bool.false_eq_true, if_false, List.append_nil, hfollowed]
  cases tree.follow place names with
  | error cause => simp
  | ok between =>
    dsimp only
    constructor
    · intro h
      split at h
      · cases h
      · rename_i found hnode
        cases h
        exact ⟨rfl, hnode⟩
    · rintro ⟨hsame, hnode⟩
      cases hsame
      rw [hnode]

/-- At the path is a file with this content, which may be that it can't be read. -/
def HasFile (tree : FileTree) (path : String) (content : Content) : Prop :=
  ∃ place, tree.find path = .ok (place, .file content)

theorem HasFile.read_eq {content : Content} (h : tree.HasFile path content) :
    tree.read path = content := by
  obtain ⟨place, hfind⟩ := h
  rw [read, hfind]

theorem read_eq_ok_iff {data : ByteArray} :
    tree.read path = .ok data ↔ tree.HasFile path (.ok data) := by
  unfold read HasFile
  rcases tree.find path with cause | ⟨place, content | _⟩ <;> simp

theorem HasFile.isDirectory_eq {content : Content} (h : tree.HasFile path content) :
    tree.isDirectory path = false := by
  obtain ⟨place, hfind⟩ := h
  rw [isDirectory, hfind]

theorem isDirectory_iff :
    tree.isDirectory path ↔ ∃ place, tree.find path = .ok (place, .directory) := by
  unfold isDirectory
  rcases tree.find path with cause | ⟨place, content | _⟩ <;> simp

theorem isFile_iff : tree.isFile path ↔ ∃ content, tree.HasFile path content := by
  unfold isFile HasFile
  rcases tree.find path with cause | ⟨place, content | _⟩ <;> simp

theorem mem_filesBelow_iff {content : Content} :
    (names, content) ∈ tree.filesBelow place ↔ (place ++ names, .file content) ∈ tree.nodes := by
  rw [filesBelow, List.mem_mergeSort, List.mem_filterMap]
  constructor
  · rintro ⟨⟨other, node⟩, hmem, hnode⟩
    cases node with
    | directory => cases hnode
    | file data =>
      dsimp only at hnode
      split at hnode
      · rename_i hprefix
        obtain ⟨rest, rfl⟩ := List.isPrefixOf_iff_prefix.mp hprefix
        cases hnode
        simpa using hmem
      · cases hnode
  · intro hmem
    exact ⟨_, hmem, by simp⟩

/-- Names that lead further down lead to no place that is always there. -/
theorem node?_append_eq_some_iff (hnames : LeadsPlainly names) {node : Node} :
    tree.node? (place ++ names) = some node ↔ (place ++ names, node) ∈ tree.nodes := by
  obtain ⟨name, others, hcons⟩ := List.exists_cons_of_ne_nil hnames.nonempty
  have habove : isAbove (place ++ names) = false := by
    have hname := (hnames.named name (by simp [hcons])).2.2
    simp [isAbove, hcons, hname]
  have hroot : place ++ names ≠ ["/"] := by
    intro hslash
    have hmem : name ∈ ["/"] := by simp [← hslash, hcons]
    rw [List.mem_singleton.mp hmem] at hcons
    exact hnames.slashless "/" (by simp [hcons]) (by decide)
  exact node?_eq_some_iff habove hroot

/-- The files that such paths lead to from a directory are the files below it. -/
theorem hasFile_join_iff (hrooted : tree.Rooted)
    (hdirectory : tree.find path = .ok (place, .directory)) (hnames : LeadsPlainly names)
    {content : Content} :
    tree.HasFile (Path.join path (entryName names)) content ↔
      (names, content) ∈ tree.filesBelow place := by
  have hplain : ∀ name ∈ names, name ≠ "." ∧ name ≠ ".." := fun name hname =>
    (hnames.named name hname).2
  rw [mem_filesBelow_iff, ← node?_append_eq_some_iff hnames]
  simp only [HasFile, find_join_eq_ok_iff hdirectory hnames]
  constructor
  · rintro ⟨other, hfollow, hnode⟩
    rwa [follow_plain hplain hfollow] at hnode
  · intro hnode
    exact ⟨_, hrooted.follow_of_node hplain (by rw [hnode]; nofun), hnode⟩

end FileTree

end JniHeaders
