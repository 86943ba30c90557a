import JniHeaders.Proofs.KnownClasses
import Mathlib.Data.List.Induction

/-!
Classes that a lookup finds under the name of another. What is inserted and the stubs are found
under their own names. A class file is found by where it lies, and the name that it gives its class
is not compared. So a lookup answers with a class of the name that it was asked for, or else it
comes from a file, then or earlier, in which there is another class.
-/

namespace JniHeaders

section

variable [Formats]

/-- Where a class file of this name is looked for, the first that there is has a class of another
name. -/
structure World.Misfiles (world : World) (name : String) (info : ClassInfo) : Prop where
  filed : world.path.entries.findSome? (·.fileFor? world.files name) = some (.ok info)
  ne : info.name ≠ name

theorem World.Misfiles.answer {world : World} {name : String} {info : ClassInfo}
    (h : world.Misfiles name info) (hempty : world.path.cell name = .empty) :
    world.path.answer world.files name = .ok info := by
  rw [ClassPath.answer_of_empty hempty, h.filed]

namespace ClassPath

variable {files : FileTree} {path : ClassPath} {name : String} {info : ClassInfo}

omit [Formats] in
theorem name_of_platformStub? (h : platformStub? name = some info) : info.name = name := by
  simpa using List.find?_some h

theorem entries_resolve (files : FileTree) (path : ClassPath) (name : String) :
    (path.resolve files name).2.entries = path.entries := by
  rcases path.resolve_cases files name with
    ⟨_, -, hrun⟩ | ⟨-, hrun⟩ | ⟨-, ⟨_, -, hrun⟩ | ⟨-, hrun⟩ | ⟨_, -, hrun⟩⟩ <;>
    rw [hrun] <;> rfl

theorem origin_of_answer (h : path.answer files name = .ok info) :
    path.cell name = .found info ∨
      path.entries.findSome? (·.fileFor? files name) = some (.ok info) ∨
      platformStub? name = some info := by
  cases hcell : path.cell name with
  | found known =>
    rw [answer_eq, hcell] at h
    cases h
    exact Or.inl rfl
  | missing =>
    rw [answer_eq, hcell] at h
    cases h
  | empty =>
    rw [answer_of_empty hcell] at h
    refine Or.inr ?_
    cases hfile : path.entries.findSome? (·.fileFor? files name) with
    | some result =>
      rw [hfile] at h
      exact Or.inl (congrArg some h)
    | none =>
      rw [hfile] at h
      dsimp only at h
      split at h
      · rename_i stub hstub
        cases h
        split at hstub
        · exact Or.inr hstub
        · cases hstub
      · cases h

end ClassPath

namespace Chronicle

/-- Every class in the log is of the name that it was found under, or there is an excuse. -/
def Vouched (excused : String → ClassInfo → Prop) (told : Chronicle) : Prop :=
  ∀ name info, (name, .ok info) ∈ told.log → info.name = name ∨ excused name info

variable {excused : String → ClassInfo → Prop}

/-- What holds while a question is answered: the log tells of the cells, its classes are vouched
for, and the files are looked for in the same places. -/
structure Steady (excused : String → ClassInfo → Prop) (world : World) (told : Chronicle) :
    Prop where
  accounts : told.Accounts
  vouched : told.Vouched excused
  files : told.files = world.files
  entries : told.path.entries = world.path.entries

omit [Formats] in
theorem Vouched.cons {told : Chronicle} (h : told.Vouched excused) {path : ClassPath}
    {files : FileTree} {name : String} {answer : Except Error ClassInfo}
    (hanswer : ∀ info, answer = .ok info → info.name = name ∨ excused name info) :
    Vouched excused ⟨⟨files, path⟩, (name, answer) :: told.log⟩ := by
  intro other info hmem
  rcases List.mem_cons.mp hmem with hnew | hold
  · obtain ⟨rfl, hok⟩ := Prod.mk.inj hnew
    exact hanswer info hok.symm
  · exact h other info hold

section

variable {world : World} (hexcused : ∀ name info, world.Misfiles name info → excused name info)
include hexcused

theorem resolve_steady (name : String) (told : Chronicle) (h : told.Steady excused world) :
    (resolve name told).2.Steady excused world where
  accounts := resolve_accounts name told h.accounts
  files := h.files
  entries := (ClassPath.entries_resolve told.files told.path name).trans h.entries
  vouched := by
    refine h.vouched.cons fun info hfound => ?_
    rcases ClassPath.origin_of_answer hfound with hknown | hfiled | hstub
    · exact h.vouched name info ((h.accounts.found name info).mp hknown)
    · by_cases hname : info.name = name
      · exact Or.inl hname
      · rw [h.files, h.entries] at hfiled
        exact Or.inr (hexcused name info ⟨hfiled, hname⟩)
    · exact Or.inl (ClassPath.name_of_platformStub? hstub)

end

omit [Formats] in
theorem name_of_mem_taken {preparation : Preparation} {answer : Answer} {name : String}
    {info : ClassInfo} (h : (name, .ok info) ∈ taken preparation answer) : info.name = name := by
  unfold taken at h
  split at h
  · cases List.mem_singleton.mp h
    rfl
  · cases h

theorem prepare_vouched {told : Chronicle} (h : told.Vouched excused) (preparation : Preparation) :
    (told.step (.prepare preparation)).2.Vouched excused := by
  intro name info hmem
  rcases List.mem_append.mp hmem with htaken | hold
  · exact Or.inl (name_of_mem_taken htaken)
  · exact h name info hold

theorem step_vouched {told : Chronicle} (haccounts : told.Accounts) (h : told.Vouched excused)
    (hexcused : ∀ name info, told.toWorld.Misfiles name info → excused name info) (action : Step) :
    (told.step action).2.Vouched excused := by
  cases action with
  | prepare preparation => exact prepare_vouched h preparation
  | ask query =>
    have hlookup := resolve_steady hexcused
    have horacle : ∀ name ancestor (other : Chronicle), other.Steady excused told.toWorld →
        (isSubclass name ancestor other).2.Steady excused told.toWorld :=
      fun name ancestor other hother =>
        Ancestry.isSubclass_keeps other.isFinite hlookup ⟨rfl, rfl⟩ hother
    exact (query.ask_keeps hlookup horacle ⟨haccounts, h, rfl, rfl⟩).vouched

/-- A file with a class of another name lay in the place of one of this name before one of the
steps. -/
def WasMisfiled (files : FileTree) (steps : List Step) (name : String) (info : ClassInfo) : Prop :=
  ∃ before, before <+: steps ∧ (after files before).toWorld.Misfiles name info

theorem after_vouched (files : FileTree) (steps : List Step) :
    (after files steps).Vouched (WasMisfiled files steps) := by
  induction steps using List.reverseRecOn with
  | nil =>
    intro name info hmem
    cases hmem
  | append_singleton steps action ih =>
    have hgrows : ∀ name info, WasMisfiled files steps name info →
        WasMisfiled files (steps ++ [action]) name info := by
      rintro name info ⟨before, hbefore, hmisfiled⟩
      exact ⟨before, hbefore.trans (List.prefix_append _ _), hmisfiled⟩
    have hvouched : (after files steps).Vouched (WasMisfiled files (steps ++ [action])) :=
      fun name info hmem => (ih name info hmem).imp_right (hgrows name info)
    have hstep := step_vouched (after_accounts files steps) hvouched
      (fun name info hmisfiled => ⟨steps, List.prefix_append _ _, hmisfiled⟩) action
    have hafter : after files (steps ++ [action]) = ((after files steps).step action).2 :=
      runAll_append _ _ _ _
    rwa [hafter]

omit [Formats] in
theorem Accounts.cell_eq_empty {told : Chronicle} (h : told.Accounts) {name : String}
    (hfound : ∀ known, (name, .ok known) ∉ told.log)
    (hmissing : (name, .error (.classNotFound name)) ∉ told.log) :
    told.path.cell name = .empty := by
  cases hcell : told.path.cell name with
  | empty => rfl
  | found known => exact absurd ((h.found name known).mp hcell) (hfound known)
  | missing => exact absurd ((h.missing name).mp hcell) hmissing

/-- A lookup, also one for a question about ancestry, finds a class of the name that it is asked
for, except where a file with a class of another name lay in its place. There it finds that one,
unless something is known of the name, and keeps it for good. -/
theorem lookups_find_their_class_unless_misfiled (files : FileTree) (steps : List Step) :
    (after files steps).toWorld = (runAll World.step steps (World.start files)).2 ∧
    (∀ name info, (name, .ok info) ∈ (after files steps).log →
      info.name = name ∨ WasMisfiled files steps name info) ∧
    (∀ name info, ((after files steps).toWorld.step (.ask (.resolve name))).1 = .found (.ok info) →
      info.name = name ∨ WasMisfiled files steps name info) ∧
    ∀ name info, (after files steps).toWorld.Misfiles name info →
      (∀ known, (name, .ok known) ∉ (after files steps).log) →
      (name, .error (.classNotFound name)) ∉ (after files steps).log →
      ((after files steps).toWorld.step (.ask (.resolve name))).1 = .found (.ok info) ∧
        ((after files steps).toWorld.step (.ask (.resolve name))).2.Knows name info := by
  have haccounts := after_accounts files steps
  refine ⟨after_toWorld files steps, after_vouched files steps, ?_, ?_⟩
  · intro name info hanswer
    have hnow : ∀ name info, (after files steps).toWorld.Misfiles name info →
        WasMisfiled files steps name info :=
      fun name info hmisfiled => ⟨steps, List.prefix_rfl, hmisfiled⟩
    have hsteady := resolve_steady hnow name (after files steps)
      ⟨haccounts, after_vouched files steps, rfl, rfl⟩
    have hfound : (resolve name (after files steps)).1 = .ok info := Answer.found.inj hanswer
    have hlogged : (name, .ok info) ∈ (resolve name (after files steps)).2.log := by
      rw [← hfound]
      exact List.mem_cons_self
    exact hsteady.vouched name info hlogged
  · intro name info hmisfiled hfound hmissing
    have hanswer := hmisfiled.answer (haccounts.cell_eq_empty hfound hmissing)
    refine ⟨congrArg Answer.found hanswer, ?_⟩
    exact World.knows_of_cell (ClassPath.cell_of_resolve_ok hanswer)

end Chronicle

end

namespace Chronicle

def fileOfB : ByteArray := ⟨#[
  0xCA, 0xFE, 0xBA, 0xBE, 0, 0, 0, 0x34, 0, 3, 1, 0, 1, 0x42, 7, 0, 1, 0, 0x21, 0, 2, 0, 0, 0, 0,
  0, 0, 0, 0, 0, 0]⟩

def displaced : FileTree :=
  ⟨[(["d"], .directory), (["d", "A.class"], .file (.ok fileOfB))], by decide⟩

theorem displaced_is_misfiled :
    (after displaced [.prepare (.push "d")]).toWorld.Misfiles "A" ⟨"B", none, [], false, []⟩ where
  filed := by
    have hentries : (after displaced [.prepare (.push "d")]).path.entries = [.directory "d"] := rfl
    have hplace : Path.join "d" (classPathName "A") = "d/A.class" := by decide +kernel
    have hisFile : displaced.isFile "d/A.class" = true := by decide +kernel
    have hread : displaced.read "d/A.class" = .ok fileOfB := rfl
    have hclass : ClassFile.read fileOfB.toList = some ⟨"B", none, [], false, []⟩ := by
      decide +kernel
    have hparse : displaced.readClassFile "d/A.class" = .ok ⟨"B", none, [], false, []⟩ := by
      rw [FileTree.readClassFile, hread]
      simp only [parseContent, parseClass, hclass]
    have hfiles : (after displaced [.prepare (.push "d")]).files = displaced := rfl
    rw [hentries, hfiles, List.findSome?_cons, ClassPathEntry.fileFor?]
    simp only [hplace, hisFile, hparse, if_true]
  ne := by decide

theorem displaced_class_is_found_and_kept :
    WasMisfiled displaced [.prepare (.push "d")] "A" ⟨"B", none, [], false, []⟩ ∧
    ((after displaced [.prepare (.push "d")]).toWorld.step (.ask (.resolve "A"))).2.Knows "A"
      ⟨"B", none, [], false, []⟩ :=
  ⟨⟨_, List.prefix_rfl, displaced_is_misfiled⟩,
    ((lookups_find_their_class_unless_misfiled displaced [.prepare (.push "d")]).2.2.2 "A" _
      displaced_is_misfiled (by nofun) (by nofun)).2⟩

theorem displaced_class_is_found_under_other_name :
    '/' ∉ "A".toList ∧ "B" ≠ "A" ∧
    ((runAll World.step [.prepare (.push "d")] (World.start displaced)).2.step
      (.ask (.resolve "A"))).1 = .found (.ok ⟨"B", none, [], false, []⟩) :=
  ⟨by decide, by decide, congrArg Answer.found (displaced_is_misfiled.answer rfl)⟩

end Chronicle

end JniHeaders
