import JniHeaders.Proofs.ClassFileNames

/-!
What changes in a tree when it is written. A node that is put where no directory is leaves every
other node as it was, so names that could be followed before lead where they led. Making a
directory adds directories on the way to it and nothing else. A file is written right where its
path leads, under a name that a file can have.
-/

namespace JniHeaders

structure Path.NamesFileIn (names : List String) (name path : String) : Prop where
  plain : LeadsPlainly [name]
  names : Path.names path = names ++ [name]
  slashless : Path.endsInSlash path = false

theorem Path.NamesFileIn.ne_empty {names : List String} {name path : String}
    (h : NamesFileIn names name path) : path ≠ "" := by
  rintro rfl
  exact absurd h.names (by simp [Path.names, Path.isAbsolute, Path.segments])

theorem Path.namesFileIn_join {name : String} (h : LeadsPlainly [name]) (base : String) :
    NamesFileIn (Path.names base) name (join base name) := by
  have hname : entryName [name] = name := by simp [entryName]
  by_cases hbase : base = ""
  · have hjoin : join base name = entryName [name] := by
      simp [join, hbase, hname]
    obtain ⟨c, hlast, hc⟩ := h.getLast?_entryName
    refine ⟨h, ?_, ?_⟩
    · rw [hjoin, h.names_entryName, hbase]
      rfl
    · rw [hjoin, endsInSlash, hlast]
      simpa using hc
  · have hnames := names_join hbase h
    have hslash := endsInSlash_join hbase h
    rw [hname] at hnames hslash
    exact ⟨h, hnames, hslash⟩

theorem Path.parent_prefix (names : List String) : parent names <+: names := by
  have hsuffix := ((List.dropWhile_suffix (· = ".")).trans (List.tail_suffix _)).trans
    (List.dropWhile_suffix (· = ".") (l := names.reverse))
  have hbegins := List.reverse_prefix.mpr hsuffix
  rwa [List.reverse_reverse] at hbegins

namespace FileTree

variable {tree before between after made : FileTree} {place other start names : List String}
  {node : Node} {path name : String}

theorem node?_of_find (h : tree.find path = .ok (place, node)) : tree.node? place = some node := by
  unfold find at h
  split at h
  · cases h
  · split at h
    · cases h
    · split at h <;> cases h
      assumption

theorem node?_put (h : tree.node? place ≠ some .directory) (node : Node) (other : List String) :
    (tree.put place node).node? other = if other = place then some node else tree.node? other := by
  have hplace : isAbove place = false ∧ place ≠ ["/"] := by
    unfold node? at h
    split at h
    · exact absurd rfl h
    · rename_i hnone
      simpa using hnone
  by_cases hsame : other = place
  · subst hsame
    rw [if_pos rfl, node?_eq_some_iff hplace.1 hplace.2]
    exact List.mem_cons_self
  · rw [if_neg hsame]
    by_cases hthere : isAbove other ∨ other = ["/"]
    · rw [node?, if_pos hthere, node?, if_pos hthere]
    · obtain ⟨habove, hroot⟩ := not_or.mp hthere
      have habove : isAbove other = false := by simpa using habove
      ext found
      rw [node?_eq_some_iff habove hroot, node?_eq_some_iff habove hroot]
      simp [put, hsame]

def KeepsDirectories (before after : FileTree) : Prop :=
  ∀ place, before.node? place = some .directory → after.node? place = some .directory

theorem keepsDirectories_put (h : tree.node? place ≠ some .directory) (node : Node) :
    tree.KeepsDirectories (tree.put place node) := by
  intro other hother
  have hdiffer : other ≠ place := by
    rintro rfl
    exact h hother
  rw [node?_put h, if_neg hdiffer, hother]

theorem KeepsDirectories.follow (h : before.KeepsDirectories after)
    (hfollow : before.follow start names = .ok place) : after.follow start names = .ok place := by
  induction names generalizing start with
  | nil => exact hfollow
  | cons name names ih =>
    rw [FileTree.follow] at hfollow ⊢
    split at hfollow
    · cases hfollow
    · cases hfollow
    · rename_i hnode
      rw [h _ hnode]
      exact ih hfollow

/-- Names lead to a directory. No names lead to where relative paths begin. -/
structure Reaches (tree : FileTree) (names place : List String) : Prop where
  follow : tree.follow [] names = .ok place
  directory : tree.node? place = some .directory

theorem Reaches.kept (h : before.Reaches names place) (hkept : before.KeepsDirectories after) :
    after.Reaches names place :=
  ⟨hkept.follow h.follow, hkept _ h.directory⟩

/-- The nodes are those that were there, and directories where some first of the names lead. -/
def MakesWay (before after : FileTree) (names : List String) : Prop :=
  ∀ place, after.node? place = before.node? place ∨
    before.node? place = none ∧ ∃ first, first <+: names ∧ after.Reaches first place

namespace MakesWay

theorem refl (tree : FileTree) (names : List String) : tree.MakesWay tree names :=
  fun _ => Or.inl rfl

theorem keepsDirectories (h : before.MakesWay after names) : before.KeepsDirectories after := by
  intro place hplace
  rcases h place with hsame | ⟨hnone, -⟩
  · rw [hsame, hplace]
  · rw [hplace] at hnone
    cases hnone

theorem mono (h : before.MakesWay after names) {longer : List String} (hbegins : names <+: longer) :
    before.MakesWay after longer := by
  intro place
  refine (h place).imp_right fun ⟨hnone, first, hfirst, hreaches⟩ => ?_
  exact ⟨hnone, first, hfirst.trans hbegins, hreaches⟩

theorem trans (h : before.MakesWay between names) (hnext : between.MakesWay after names) :
    before.MakesWay after names := by
  intro place
  rcases hnext place with hsame | ⟨hnone, hway⟩
  · rcases h place with hfirst | ⟨hnone, first, hbegins, hreaches⟩
    · exact Or.inl (hsame.trans hfirst)
    · exact Or.inr ⟨hnone, first, hbegins, hreaches.kept hnext.keepsDirectories⟩
  · rcases h place with hfirst | ⟨-, first, -, hreaches⟩
    · exact Or.inr ⟨hfirst ▸ hnone, hway⟩
    · rw [hreaches.directory] at hnone
      cases hnone

theorem node?_eq_file_iff (h : before.MakesWay after names) {content : Content} :
    after.node? place = some (.file content) ↔ before.node? place = some (.file content) := by
  rcases h place with hsame | ⟨hnone, first, -, hreaches⟩
  · rw [hsame]
  · simp [hreaches.directory, hnone]

end MakesWay

theorem follow_here (h : tree.follow start (names ++ ["."]) = .ok place) :
    tree.follow start names = .ok place ∧ tree.node? place = some .directory := by
  rw [follow_append] at h
  split at h
  · cases h
  · rename_i between hbetween
    rw [follow] at h
    split at h
    · cases h
    · cases h
    · rename_i hnode
      cases h
      exact ⟨hbetween, hnode⟩

theorem follow_concat (h : tree.Reaches names place) (name : String) :
    tree.follow [] (names ++ [name]) = .ok (step place name) := by
  rw [follow_append, h.follow]
  dsimp only
  rw [follow, h.directory]
  rfl

/-- A directory that is made was there, or nothing was. -/
theorem makeDirectory_cases (h : tree.makeDirectory names = .ok made) :
    names = [] ∧ made = tree ∨
      ∃ directories last parent, names = directories ++ [last] ∧ tree.Reaches directories parent ∧
        (tree.node? (step parent last) = some .directory ∧ made = tree ∨
          tree.node? (step parent last) = none ∧
            made = tree.put (step parent last) .directory) := by
  unfold makeDirectory at h
  split at h
  · rename_i hlast
    cases h
    exact Or.inl ⟨List.getLast?_eq_none_iff.mp hlast, rfl⟩
  · rename_i last hlast
    obtain ⟨directories, rfl⟩ := List.getLast?_eq_some_iff.mp hlast
    refine Or.inr ⟨directories, last, ?_⟩
    split at h
    · cases h
    · rename_i parent hparent
      rw [followParent, List.dropLast_concat] at hparent
      obtain ⟨hfollow, hdirectory⟩ := follow_here hparent
      refine ⟨parent, rfl, ⟨hfollow, hdirectory⟩, ?_⟩
      split at h <;> cases h
      · exact Or.inr ⟨‹_›, rfl⟩
      · exact Or.inl ⟨‹_›, rfl⟩

theorem makeDirectory_makes (h : tree.makeDirectory names = .ok made) :
    tree.MakesWay made names ∧ ∃ place, made.Reaches names place := by
  rcases makeDirectory_cases h with
    ⟨rfl, rfl⟩ | ⟨directories, last, parent, rfl, hreaches, ⟨hthere, rfl⟩ | ⟨hnone, rfl⟩⟩
  · exact ⟨.refl _ _, [], rfl, rfl⟩
  · exact ⟨.refl _ _, _, follow_concat hreaches last, hthere⟩
  · have hnew : tree.node? (step parent last) ≠ some .directory := by
      rw [hnone]
      nofun
    have hkept := keepsDirectories_put hnew .directory
    have hmade : (tree.put (step parent last) .directory).Reaches (directories ++ [last])
        (step parent last) :=
      ⟨follow_concat (hreaches.kept hkept) last, by rw [node?_put hnew, if_pos rfl]⟩
    refine ⟨fun place => ?_, _, hmade⟩
    by_cases hplace : place = step parent last
    · subst hplace
      exact Or.inr ⟨hnone, _, List.prefix_refl _, hmade⟩
    · exact Or.inl (by rw [node?_put hnew, if_neg hplace])

/-- Directories are made on the way, and if that comes to its end, the names lead to the last. -/
theorem makeDirectories_makes (tree : FileTree) (names : List String) :
    tree.MakesWay (tree.makeDirectories names).2 names ∧
      ((tree.makeDirectories names).1 = .ok () →
        ∃ place, (tree.makeDirectories names).2.Reaches names place) := by
  -- The names of the parent begin the others, so what is made for them lies on the way too.
  fun_induction makeDirectories tree names with
  | case1 => exact ⟨.refl _ _, fun _ => ⟨[], rfl, rfl⟩⟩
  | case2 names _ made hmade =>
    obtain ⟨hway, hreaches⟩ := makeDirectory_makes hmade
    exact ⟨hway, fun _ => hreaches⟩
  | case3 names _ _ cause made hparent ih =>
    rw [hparent] at ih
    exact ⟨ih.1.mono (Path.parent_prefix names), nofun⟩
  | case4 names _ _ between hparent cause _ ih =>
    rw [hparent] at ih
    exact ⟨ih.1.mono (Path.parent_prefix names), nofun⟩
  | case5 names _ _ between hparent made hmade ih =>
    rw [hparent] at ih
    obtain ⟨hway, hreaches⟩ := makeDirectory_makes hmade
    exact ⟨(ih.1.mono (Path.parent_prefix names)).trans hway, fun _ => hreaches⟩
  | case6 names _ cause _ _ => exact ⟨.refl _ _, nofun⟩

section

variable (hdirectory : tree.Reaches names place) (hpath : Path.NamesFileIn names name path)
include hdirectory hpath

theorem find_of_namesFileIn (hnode : tree.node? (place ++ [name]) = some node) :
    tree.find path = .ok (place ++ [name], node) := by
  have hplain := (hpath.plain.named name List.mem_cons_self).2
  rw [find, if_neg hpath.ne_empty, hpath.names, hpath.slashless]
  simp only [Bool.false_eq_true, if_false, List.append_nil, follow_concat hdirectory,
    step_of_plain hplain, hnode]

/-- A file can be written in a directory, unless there is a directory of its name. -/
theorem write_of_namesFileIn (content : ByteArray) :
    tree.write path content =
      if tree.node? (place ++ [name]) = some .directory then .error .isADirectory
      else .ok (tree.put (place ++ [name]) (.file (.ok content))) := by
  have hplain := (hpath.plain.named name List.mem_cons_self).2
  have hparent : tree.followParent (names ++ [name]) = .ok place := by
    rw [followParent, List.dropLast_concat, follow_concat hdirectory]
    rfl
  rw [write, if_neg hpath.ne_empty, hpath.names, List.getLast?_concat]
  simp [hparent, hpath.slashless, hplain, step_of_plain hplain]

end

end FileTree

end JniHeaders
