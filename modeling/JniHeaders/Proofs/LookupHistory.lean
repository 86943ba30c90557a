import JniHeaders.Formats.Standard
import JniHeaders.Proofs.LookupMemory

/-!
What a class path has answered for good. A cell that is filled stays as it is through everything
that is done to a class path and through every change of the files. A lookup that fails fills no
cell, and an empty cell is as good as none, so that nothing later shows the failure.
-/

namespace JniHeaders

namespace ClassPath

def Keeps (before after : ClassPath) : Prop :=
  ∀ name, before.cell name ≠ .empty → after.cell name = before.cell name

/-- Two class paths that differ in nothing but cells that are empty in one and not there in the
other. -/
structure Same (a b : ClassPath) : Prop where
  entries : a.entries = b.entries
  hasStubs : a.hasStubs = b.hasStubs
  cells : ∀ name, a.cell name = b.cell name

theorem Keeps.refl (path : ClassPath) : path.Keeps path := fun _ _ => rfl

theorem Keeps.trans {a b c : ClassPath} (hab : a.Keeps b) (hbc : b.Keeps c) : a.Keeps c := by
  intro name hfilled
  have hmiddle := hab name hfilled
  rw [hbc name (by rwa [hmiddle]), hmiddle]

theorem keep_keeps {path : ClassPath} {name : String} (hempty : path.cell name = .empty)
    (cell : Cell) : path.Keeps (path.keep name cell) := by
  intro other hfilled
  by_cases h : other = name
  · rw [h] at hfilled
    exact absurd hempty hfilled
  · rw [cell_keep, if_neg h]

section

variable [Formats]

theorem resolve_keeps (files : FileTree) (path : ClassPath) (name : String) :
    path.Keeps (path.resolve files name).2 := by
  rcases path.resolve_cases files name with
    ⟨_, -, hrun⟩ | ⟨-, hrun⟩ | ⟨hempty, ⟨_, -, hrun⟩ | ⟨-, hrun⟩ | ⟨_, -, hrun⟩⟩ <;> rw [hrun]
  · exact .refl path
  · exact .refl path
  · exact keep_keeps hempty _
  · exact keep_keeps hempty _
  · exact keep_keeps hempty _

theorem cell_resolve_of_ne (files : FileTree) (path : ClassPath) {name other : String}
    (h : other ≠ name) : (path.resolve files name).2.cell other = path.cell other := by
  rcases path.resolve_cases files name with
    ⟨_, -, hrun⟩ | ⟨-, hrun⟩ | ⟨-, ⟨_, -, hrun⟩ | ⟨-, hrun⟩ | ⟨_, -, hrun⟩⟩ <;>
    simp [hrun, h]

omit [Formats] in
theorem insert_keeps (path : ClassPath) (info : ClassInfo) :
    path.Keeps (path.insert info).2 := by
  by_cases hempty : path.cell info.name = .empty
  · rw [insert_of_empty hempty]
    exact keep_keeps hempty _
  · rw [insert_of_filled hempty]
    exact .refl path

theorem ask_keeps (files : FileTree) (path : ClassPath) (query : Query) :
    path.Keeps (path.ask files query).2 := by
  have hlookup : ∀ name (other : ClassPath), path.Keeps other →
      path.Keeps (other.resolve files name).2 := fun name other hkeeps =>
    hkeeps.trans (resolve_keeps files other name)
  have horacle : ∀ name ancestor other, path.Keeps other →
      path.Keeps (isSubclass files name ancestor other).2 := fun name ancestor other hkeeps =>
    Ancestry.isSubclass_keeps (other.isFinite files) hlookup rfl hkeeps
  exact query.ask_keeps hlookup horacle (.refl path)

variable {files : FileTree}

omit [Formats] in
theorem Same.keep {a b : ClassPath} (h : a.Same b) (name : String) (cell : Cell) :
    (a.keep name cell).Same (b.keep name cell) where
  entries := h.entries
  hasStubs := h.hasStubs
  cells other := by rw [cell_keep, cell_keep, h.cells]

omit [Formats] in
theorem Same.add {a b : ClassPath} (h : a.Same b) (entry : ClassPathEntry) :
    Same { a with entries := a.entries ++ [entry] } { b with entries := b.entries ++ [entry] } where
  entries := congrArg (· ++ [entry]) h.entries
  hasStubs := h.hasStubs
  cells := h.cells

theorem Same.locate {a b : ClassPath} (h : a.Same b) : a.locate files = b.locate files := by
  funext name
  unfold ClassPath.locate
  rw [h.entries, h.hasStubs]

theorem resolve_same (name : String) :
    Alike Same (fun path => path.resolve files name) (fun path => path.resolve files name) := by
  intro a b h
  simp only [resolve, h.cells, h.locate]
  cases b.cell name with
  | found info => exact ⟨rfl, h⟩
  | missing => exact ⟨rfl, h⟩
  | empty =>
    cases b.locate files name with
    | error cause => exact ⟨rfl, h.keep name _⟩
    | ok found =>
      cases found with
      | none => exact ⟨rfl, h.keep name _⟩
      | some info => exact ⟨rfl, h.keep name _⟩

theorem ask_same (query : Query) : Alike Same (ask files query) (ask files query) := by
  apply query.ask_alike resolve_same
  intro name ancestor a b h
  exact Ancestry.isSubclass_alike (a.isFinite files) (b.isFinite files) resolve_same rfl rfl h

omit [Formats] in
theorem insert_same (info : ClassInfo) :
    Alike Same (fun path => path.insert info) (fun path => path.insert info) := by
  intro a b h
  by_cases hempty : b.cell info.name = .empty
  · have hempty' : a.cell info.name = .empty := (h.cells _).trans hempty
    simp only [insert_of_empty hempty, insert_of_empty hempty']
    exact ⟨trivial, h.keep info.name _⟩
  · have hfilled : a.cell info.name ≠ .empty := by rwa [h.cells]
    simp only [insert_of_filled hempty, insert_of_filled hfilled]
    exact ⟨trivial, h⟩

theorem pushAll_same (paths : List String) : Alike Same (pushAll files paths)
    (pushAll files paths) := by
  induction paths with
  | nil =>
    intro a b h
    exact ⟨rfl, h⟩
  | cons entry paths ih =>
    intro a b h
    simp only [pushAll, push]
    cases ClassPathEntry.ofPath files entry with
    | error cause => exact ⟨rfl, h⟩
    | ok opened => exact ih _ _ (h.add opened)

/-- A lookup that fails for any other reason than that there is no class leaves no more than an
empty cell. -/
theorem same_of_resolve_error {path : ClassPath} {name : String} {cause : Error}
    (h : (path.resolve files name).1 = .error cause) (hcause : cause ≠ .classNotFound name) :
    (path.resolve files name).2.Same path := by
  rcases path.resolve_cases files name with
    ⟨_, -, hrun⟩ | ⟨-, hrun⟩ | ⟨hempty, ⟨_, -, hrun⟩ | ⟨-, hrun⟩ | ⟨_, -, hrun⟩⟩ <;>
    rw [hrun] at h ⊢ <;> cases h
  · exact absurd rfl hcause
  · refine ⟨rfl, rfl, fun other => ?_⟩
    by_cases hsame : other = name
    · rw [cell_keep, if_pos hsame, hsame, hempty]
    · rw [cell_keep, if_neg hsame]
  · exact absurd rfl hcause

end

end ClassPath

namespace World

section

variable [Formats]

theorem prepare_keeps (preparation : Preparation) (world : World) :
    world.path.Keeps (world.prepare preparation).2.path := by
  cases preparation with
  | insert info => exact world.path.insert_keeps info
  | push entry =>
    rw [Sources.prepare_push, Sources.pushAll_eq]
    exact .refl _
  | pushJavaHome home =>
    change world.path.Keeps (ClassPath.pushAll world.files _ world.path).2
    rw [Sources.pushAll_eq]
    exact .refl _
  | withoutPlatformStubs => exact .refl _
  | change files => exact .refl _

theorem step_keeps (step : Step) (world : World) : world.path.Keeps (world.step step).2.path := by
  cases step with
  | prepare preparation => exact prepare_keeps preparation world
  | ask query => exact world.path.ask_keeps world.files query

theorem run_keeps (steps : List Step) (world : World) :
    world.path.Keeps (runAll World.step steps world).2.path := by
  have hstep : ∀ step other, world.path.Keeps other.path →
      world.path.Keeps (World.step step other).2.path := fun step other hkeeps =>
    hkeeps.trans (step_keeps step other)
  exact runAll_keeps hstep steps (.refl _)

/-- The files are the same, and the class paths but for empty cells. -/
structure Same (a b : World) : Prop where
  files : a.files = b.files
  path : a.path.Same b.path

theorem prepare_same (preparation : Preparation) :
    Alike Same (World.prepare preparation) (World.prepare preparation) := by
  rintro ⟨files, a⟩ ⟨_, b⟩ ⟨rfl, h⟩
  cases preparation with
  | insert info =>
    obtain ⟨hanswer, hafter⟩ := ClassPath.insert_same info a b h
    exact ⟨congrArg Answer.inserted hanswer, rfl, hafter⟩
  | push entry =>
    simp only [World.prepare, ClassPath.push]
    cases ClassPathEntry.ofPath files entry with
    | error cause => exact ⟨rfl, rfl, h⟩
    | ok opened => exact ⟨rfl, rfl, h.add opened⟩
  | pushJavaHome home =>
    obtain ⟨hanswer, hafter⟩ := ClassPath.pushAll_same (platformLibrary files home) a b h
    refine ⟨?_, rfl, hafter⟩
    simp only [World.prepare, ClassPath.pushJavaHome, hanswer]
  | withoutPlatformStubs => exact ⟨rfl, rfl, h.entries, rfl, h.cells⟩
  | change files => exact ⟨rfl, rfl, h⟩

theorem step_same (step : Step) : Alike Same (World.step step) (World.step step) := by
  cases step with
  | prepare preparation => exact prepare_same preparation
  | ask query =>
    rintro ⟨files, a⟩ ⟨_, b⟩ ⟨rfl, h⟩
    obtain ⟨hanswer, hafter⟩ := ClassPath.ask_same query a b h
    exact ⟨hanswer, rfl, hafter⟩

end

end World

namespace ClassPathEntry

variable [Formats] {files : FileTree} {name : String} {cause : Error}

theorem parseClass_ne_classNotFound {bytes : List UInt8} (h : parseClass bytes = .error cause)
    (other : String) : cause ≠ .classNotFound other := by
  unfold parseClass at h
  split at h
  · cases h
  · cases h
    simp

theorem parseContent_ne_classNotFound {content : Content} (h : parseContent content = .error cause)
    (other : String) : cause ≠ .classNotFound other := by
  unfold parseContent at h
  split at h
  · cases h
    simp
  · exact parseClass_ne_classNotFound h other

theorem fileFor?_ne_classNotFound {entry : ClassPathEntry}
    (h : entry.fileFor? files name = some (.error cause)) (other : String) :
    cause ≠ .classNotFound other := by
  cases entry with
  | directory path =>
    simp only [fileFor?] at h
    split at h
    · exact parseContent_ne_classNotFound (Option.some.inj h) other
    · cases h
  | archive contents root =>
    obtain ⟨member, -, hread⟩ := Option.map_eq_some_iff.mp h
    unfold readMember at hread
    split at hread
    · cases hread
      simp
    · cases hread
      simp
    · exact parseClass_ne_classNotFound hread other

end ClassPathEntry

namespace ClassPath

variable [Formats] {files : FileTree} {path : ClassPath} {name : String}

theorem locate_ne_classNotFound {cause : Error} (h : path.locate files name = .error cause)
    (other : String) : cause ≠ .classNotFound other := by
  unfold locate at h
  rw [ClassPathEntry.findFirst_eq] at h
  cases hfile : path.entries.findSome? (ClassPathEntry.fileFor? files name) with
  | none =>
    rw [hfile] at h
    cases h
  | some result =>
    rw [hfile] at h
    cases result with
    | ok info => cases h
    | error cause' =>
      cases h
      obtain ⟨entry, -, hentry⟩ := List.exists_of_findSome?_eq_some hfile
      exact ClassPathEntry.fileFor?_ne_classNotFound hentry other

theorem cell_of_resolve_ok {info : ClassInfo} (h : (path.resolve files name).1 = .ok info) :
    (path.resolve files name).2.cell name = .found info := by
  rcases path.resolve_cases files name with
    ⟨_, hfound, hrun⟩ | ⟨-, hrun⟩ | ⟨-, ⟨_, -, hrun⟩ | ⟨-, hrun⟩ | ⟨_, -, hrun⟩⟩ <;>
    rw [hrun] at h ⊢ <;> cases h
  · exact hfound
  · rw [cell_keep, if_pos rfl]

theorem cell_of_resolve_classNotFound
    (h : (path.resolve files name).1 = .error (.classNotFound name)) :
    (path.resolve files name).2.cell name = .missing := by
  rcases path.resolve_cases files name with
    ⟨_, -, hrun⟩ | ⟨hmissing, hrun⟩ | ⟨-, ⟨_, hlocate, hrun⟩ | ⟨-, hrun⟩ | ⟨_, -, hrun⟩⟩ <;>
    rw [hrun] at h ⊢ <;> cases h
  · exact hmissing
  · exact absurd rfl (locate_ne_classNotFound hlocate name)
  · rw [cell_keep, if_pos rfl]

end ClassPath

namespace World

section

variable [Formats] {world : World} {name : String}

/-- A class that is known is the answer, and no other of its name is taken. -/
structure Knows (world : World) (name : String) (info : ClassInfo) : Prop where
  found : (world.step (.ask (.resolve name))).1 = .found (.ok info)
  kept : ∀ other : ClassInfo, other.name = name →
    (world.step (.prepare (.insert other))).1 = .inserted false

theorem knows_of_cell {info : ClassInfo} (h : world.path.cell name = .found info) :
    world.Knows name info where
  found := by
    have hanswer := world.path.answer_eq world.files name
    rw [h] at hanswer
    exact congrArg Answer.found hanswer
  kept := by
    rintro other rfl
    have hfilled : world.path.cell other.name ≠ .empty := by
      rw [h]
      nofun
    simp only [step, prepare, ClassPath.insert_of_filled hfilled]

theorem knows_after_run {info : ClassInfo} (h : world.path.cell name = .found info)
    (steps : List Step) : (runAll World.step steps world).2.Knows name info := by
  apply knows_of_cell
  rw [run_keeps steps world name (by rw [h]; nofun), h]

theorem missing_after_run (h : world.path.cell name = .missing) (steps : List Step) :
    ((runAll World.step steps world).2.step (.ask (.resolve name))).1 =
      .found (.error (.classNotFound name)) := by
  have hcell := run_keeps steps world name (by rw [h]; nofun)
  have hanswer := (runAll World.step steps world).2.path.answer_eq
    (runAll World.step steps world).2.files name
  rw [hcell, h] at hanswer
  exact congrArg Answer.found hanswer

/-- What has been answered stays the answer, whatever is done and asked and however the files
change. That there is no class stays the answer even where one is inserted later. A lookup that
fails because of a file is as good as not made. -/
theorem answers_freeze_and_failures_leave_no_trace (world : World) (name : String)
    (later : List Step) :
    (∀ info, (world.step (.ask (.resolve name))).1 = .found (.ok info) →
      (runAll World.step later (world.step (.ask (.resolve name))).2).2.Knows name info) ∧
    (∀ info : ClassInfo, info.name = name →
      (world.step (.prepare (.insert info))).1 = .inserted true →
      (runAll World.step later (world.step (.prepare (.insert info))).2).2.Knows name info) ∧
    ((world.step (.ask (.resolve name))).1 = .found (.error (.classNotFound name)) →
      ((runAll World.step later (world.step (.ask (.resolve name))).2).2.step
        (.ask (.resolve name))).1 = .found (.error (.classNotFound name))) ∧
    ∀ cause, (world.step (.ask (.resolve name))).1 = .found (.error cause) →
      (∀ other, cause ≠ .classNotFound other) →
      (runAll World.step later (world.step (.ask (.resolve name))).2).1 =
        (runAll World.step later world).1 := by
  refine ⟨?_, ?_, ?_, ?_⟩
  · intro info hanswer
    apply knows_after_run
    exact ClassPath.cell_of_resolve_ok (Answer.found.inj hanswer)
  · rintro info rfl hanswer
    apply knows_after_run
    by_cases hempty : world.path.cell info.name = .empty
    · simp [step, prepare, ClassPath.insert_of_empty hempty]
    · simp [step, prepare, ClassPath.insert_of_filled hempty] at hanswer
  · intro hanswer
    apply missing_after_run
    exact ClassPath.cell_of_resolve_classNotFound (Answer.found.inj hanswer)
  · intro cause hanswer hcause
    have hpath := ClassPath.same_of_resolve_error (Answer.found.inj hanswer) (hcause name)
    have hsame : Same (world.step (.ask (.resolve name))).2 world := ⟨rfl, hpath⟩
    exact (runAll_alike step_same later _ _ hsame).1

end

def broken : World where
  files := ⟨[(["d"], .directory), (["d", "A.class"], .file (.ok ByteArray.empty))], by decide⟩
  path := ⟨[.directory "d"], true, []⟩

theorem broken_file_leaves_no_trace :
    (broken.step (.ask (.resolve "A"))).1 = .found (.error .badClassFile) ∧
    (broken.step (.ask (.resolve "B"))).1 = .found (.error (.classNotFound "B")) ∧
    (∀ later, (runAll World.step later (broken.step (.ask (.resolve "A"))).2).1 =
      (runAll World.step later broken).1) ∧
    ((runAll World.step [.prepare (.change .empty), .prepare (.insert ⟨"B", none, [], false, []⟩)]
      (broken.step (.ask (.resolve "B"))).2).2.step (.ask (.resolve "B"))).1 =
        .found (.error (.classNotFound "B")) := by
  have hparse : ClassFile.read ByteArray.empty.toList = none := by decide +kernel
  have hread : broken.path.answer broken.files "A" = .error .badClassFile := by
    have hfile : broken.path.answer broken.files "A" = parseClass ByteArray.empty.toList :=
      ClassPath.answer_of_empty rfl
    rw [hfile, parseClass, hparse]
  have hnoFile : broken.path.answer broken.files "B" = .error (.classNotFound "B") := rfl
  have hbroken : (broken.step (.ask (.resolve "A"))).1 = .found (.error .badClassFile) :=
    congrArg Answer.found hread
  have hmissing : (broken.step (.ask (.resolve "B"))).1 = .found (.error (.classNotFound "B")) :=
    congrArg Answer.found hnoFile
  refine ⟨hbroken, hmissing, fun later => ?_, ?_⟩
  · obtain ⟨-, -, -, htrace⟩ := answers_freeze_and_failures_leave_no_trace broken "A" later
    exact htrace _ hbroken nofun
  · obtain ⟨-, -, hnone, -⟩ := answers_freeze_and_failures_leave_no_trace broken "B"
      [.prepare (.change .empty), .prepare (.insert ⟨"B", none, [], false, []⟩)]
    exact hnone hmissing

end World

end JniHeaders
