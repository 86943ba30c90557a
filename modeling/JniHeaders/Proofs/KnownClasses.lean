import JniHeaders.Proofs.LookupHistory

/-!
Which classes a class path knows. A run is told with a log of the lookups that it makes, also
within questions about ancestry, and of the classes that it takes. The log has no part in the run,
and it says what is in the cells. So it says whether a class is known once it has been inserted:
it is, unless a lookup has answered that there is no class of its name.
-/

namespace JniHeaders

section

variable [Formats]

namespace ClassPath

variable {files : FileTree} {path : ClassPath} {name : String}

theorem cell_resolve_eq_found_iff {info : ClassInfo} :
    (path.resolve files name).2.cell name = .found info ↔
      (path.resolve files name).1 = .ok info := by
  refine ⟨fun hcell => ?_, cell_of_resolve_ok⟩
  have hanswer := congrFun (path.answer_resolve files name) name
  rw [answer_eq, hcell] at hanswer
  exact hanswer.symm

theorem cell_resolve_eq_missing_iff :
    (path.resolve files name).2.cell name = .missing ↔
      (path.resolve files name).1 = .error (.classNotFound name) := by
  refine ⟨fun hcell => ?_, cell_of_resolve_classNotFound⟩
  have hanswer := congrFun (path.answer_resolve files name) name
  rw [answer_eq, hcell] at hanswer
  exact hanswer.symm

end ClassPath

namespace World

variable {world : World} {info : ClassInfo}

theorem step_insert_of_empty (h : world.path.cell info.name = .empty) :
    world.step (.prepare (.insert info)) =
      (.inserted true, { world with path := world.path.keep info.name (.found info) }) := by
  simp [step, prepare, ClassPath.insert_of_empty h]

theorem step_insert_of_filled (h : world.path.cell info.name ≠ .empty) :
    world.step (.prepare (.insert info)) = (.inserted false, world) := by
  simp [step, prepare, ClassPath.insert_of_filled h]

end World

end

/-- A world and what has come out of names in it. -/
structure Chronicle extends World where
  log : List (String × Except Error ClassInfo)

namespace Chronicle

def start (files : FileTree) : Chronicle := ⟨.start files, []⟩

section

variable [Formats]

def resolve : Ancestry.Lookup Chronicle := fun name told =>
  let (answer, path) := told.path.resolve told.files name
  (answer, { told with path := path, log := (name, answer) :: told.log })

theorem isFinite (told : Chronicle) :
    Ancestry.IsFinite resolve fun other =>
      other.files = told.files ∧ other.path.answer told.files = told.path.answer told.files where
  closed := by
    rintro name ⟨⟨_, path⟩, log⟩ ⟨rfl, hanswer⟩
    exact ⟨rfl, (ClassPath.answer_resolve told.files path name).trans hanswer⟩
  parents := by
    obtain ⟨names, hnames⟩ := (told.path.isFinite told.files).parents
    refine ⟨names, ?_⟩
    rintro ⟨⟨_, path⟩, log⟩ ⟨rfl, hanswer⟩ name info hfound
    exact hnames path hanswer name info hfound

def isSubclass : Oracle Chronicle := fun name ancestor told =>
  Ancestry.isSubclass resolve told.isFinite name ancestor told ⟨rfl, rfl⟩

/-- Only a class that is taken is logged. -/
def taken : Preparation → Answer → List (String × Except Error ClassInfo)
  | .insert info, .inserted true => [(info.name, .ok info)]
  | _, _ => []

def step : Step → Chronicle → Answer × Chronicle
  | .prepare preparation, told =>
    let (answer, world) := told.toWorld.prepare preparation
    (answer, ⟨world, taken preparation answer ++ told.log⟩)
  | .ask query, told => query.ask resolve isSubclass told

def after (files : FileTree) (steps : List Step) : Chronicle :=
  (runAll step steps (start files)).2

theorem resolve_alike (files : FileTree) (name : String) :
    Alike (fun (told : Chronicle) path => told.files = files ∧ told.path = path) (resolve name)
      fun path => path.resolve files name := by
  rintro ⟨⟨_, path⟩, log⟩ _ ⟨rfl, rfl⟩
  exact ⟨rfl, rfl, rfl⟩

theorem step_alike (action : Step) :
    Alike (fun (told : Chronicle) world => told.toWorld = world) (step action)
      (World.step action) := by
  rintro told _ rfl
  cases action with
  | prepare preparation => exact ⟨rfl, rfl⟩
  | ask query =>
    have horacle : ∀ name ancestor,
        Alike (fun (other : Chronicle) path => other.files = told.files ∧ other.path = path)
          (isSubclass name ancestor) (ClassPath.isSubclass told.files name ancestor) := by
      rintro name ancestor other path hsame
      exact Ancestry.isSubclass_alike other.isFinite (path.isFinite told.files)
        (resolve_alike told.files) ⟨rfl, rfl⟩ rfl hsame
    obtain ⟨hanswer, hfiles, hpath⟩ :=
      query.ask_alike (resolve_alike told.files) horacle told told.path ⟨rfl, rfl⟩
    refine ⟨hanswer, ?_⟩
    change (query.ask resolve isSubclass told).2.toWorld = ⟨_, (told.path.ask told.files query).2⟩
    rw [ClassPath.ask, ← hpath, ← hfiles]

/-- The log says what is in the cells. -/
structure Accounts (told : Chronicle) : Prop where
  found : ∀ name info, told.path.cell name = .found info ↔ (name, .ok info) ∈ told.log
  missing : ∀ name, told.path.cell name = .missing ↔
    (name, .error (.classNotFound name)) ∈ told.log

omit [Formats] in
theorem start_accounts (files : FileTree) : (start files).Accounts where
  found _ _ := by simp [start, World.start, ClassPath.empty, ClassPath.cell]
  missing _ := by simp [start, World.start, ClassPath.empty, ClassPath.cell]

section

variable {told : Chronicle} {name : String}

omit [Formats] in
theorem Accounts.cons (h : told.Accounts) {answer : Except Error ClassInfo} {path : ClassPath}
    (hothers : ∀ other, other ≠ name → path.cell other = told.path.cell other)
    (hkeeps : told.path.Keeps path)
    (hfound : ∀ info, path.cell name = .found info ↔ answer = .ok info)
    (hmissing : path.cell name = .missing ↔ answer = .error (.classNotFound name)) :
    Accounts { told with path := path, log := (name, answer) :: told.log } where
  found other info := by
    by_cases hsame : other = name
    · subst hsame
      rw [List.mem_cons, hfound]
      constructor
      · rintro rfl
        exact Or.inl rfl
      · rintro (hnew | hold)
        · exact (Prod.mk.inj hnew).2.symm
        · have hcell := (h.found other info).mpr hold
          rw [← hfound, hkeeps other (by rw [hcell]; nofun), hcell]
    · simpa [hothers other hsame, hsame] using h.found other info
  missing other := by
    by_cases hsame : other = name
    · subst hsame
      rw [List.mem_cons, hmissing]
      constructor
      · rintro rfl
        exact Or.inl rfl
      · rintro (hnew | hold)
        · exact (Prod.mk.inj hnew).2.symm
        · have hcell := (h.missing other).mpr hold
          rw [← hmissing, hkeeps other (by rw [hcell]; nofun), hcell]
    · simpa [hothers other hsame, hsame] using h.missing other

theorem resolve_accounts (name : String) (told : Chronicle) (h : told.Accounts) :
    (resolve name told).2.Accounts := by
  refine h.cons (fun other hother => ?_) (told.path.resolve_keeps told.files name)
    (fun info => ClassPath.cell_resolve_eq_found_iff) ClassPath.cell_resolve_eq_missing_iff
  exact told.path.cell_resolve_of_ne told.files hother

theorem insert_accounts (h : told.Accounts) (info : ClassInfo) :
    (told.step (.prepare (.insert info))).2.Accounts := by
  by_cases hempty : told.path.cell info.name = .empty
  · have hstep : (told.step (.prepare (.insert info))).2 =
        { told with
          path := told.path.keep info.name (.found info)
          log := (info.name, .ok info) :: told.log } := by
      simp [step, World.prepare, ClassPath.insert_of_empty hempty, taken]
    rw [hstep]
    refine h.cons (fun other hother => ?_) (ClassPath.keep_keeps hempty _) (fun other => ?_) ?_
    · rw [ClassPath.cell_keep, if_neg hother]
    · simp
    · simp
  · have hstep : (told.step (.prepare (.insert info))).2 = told := by
      simp [step, World.prepare, ClassPath.insert_of_filled hempty, taken]
    rwa [hstep]

theorem prepare_accounts (h : told.Accounts) (preparation : Preparation) :
    (told.step (.prepare preparation)).2.Accounts := by
  cases preparation with
  | insert info => exact insert_accounts h info
  | push entry =>
    change Accounts ⟨(told.toWorld.prepare (.push entry)).2, told.log⟩
    rw [Sources.prepare_push, Sources.pushAll_eq]
    exact ⟨h.found, h.missing⟩
  | pushJavaHome home =>
    change Accounts ⟨⟨_, (ClassPath.pushAll told.files _ told.path).2⟩, told.log⟩
    rw [Sources.pushAll_eq]
    exact ⟨h.found, h.missing⟩
  | withoutPlatformStubs => exact ⟨h.found, h.missing⟩
  | change files => exact ⟨h.found, h.missing⟩

theorem step_accounts (action : Step) (told : Chronicle) (h : told.Accounts) :
    (told.step action).2.Accounts := by
  cases action with
  | prepare preparation => exact prepare_accounts h preparation
  | ask query =>
    have horacle : ∀ name ancestor (other : Chronicle), other.Accounts →
        (isSubclass name ancestor other).2.Accounts := fun name ancestor other hother =>
      Ancestry.isSubclass_keeps other.isFinite resolve_accounts ⟨rfl, rfl⟩ hother
    exact query.ask_keeps resolve_accounts horacle h

theorem after_accounts (files : FileTree) (steps : List Step) : (after files steps).Accounts :=
  runAll_keeps step_accounts steps (start_accounts files)

theorem after_toWorld (files : FileTree) (steps : List Step) :
    (after files steps).toWorld = (runAll World.step steps (World.start files)).2 :=
  (runAll_alike step_alike steps _ _ rfl).2

end

/-- What is promised of a class that is inserted: it is refused only where one of its name is known,
and afterwards one of its name is known, the new one or else the old. -/
structure MakesKnown (told : Chronicle) (info : ClassInfo) : Prop where
  refused : (told.toWorld.step (.prepare (.insert info))).1 = .inserted false →
    ∃ known, (info.name, .ok known) ∈ told.log
  known : ∃ known,
    ((told.toWorld.step (.prepare (.insert info))).2.step (.ask (.resolve info.name))).1 =
        .found (.ok known) ∧
      ((told.toWorld.step (.prepare (.insert info))).1 = .inserted true → known = info) ∧
      ((told.toWorld.step (.prepare (.insert info))).1 = .inserted false →
        (info.name, .ok known) ∈ told.log)

variable {told : Chronicle} {info : ClassInfo}

theorem makesKnown_of_empty (hempty : told.path.cell info.name = .empty) :
    told.MakesKnown info := by
  have hinsert := World.step_insert_of_empty hempty
  have hcell : (told.path.keep info.name (.found info)).cell info.name = .found info := by simp
  constructor
  · rw [hinsert]
    nofun
  · refine ⟨info, ?_, fun _ => rfl, ?_⟩
    · rw [hinsert]
      exact (World.knows_of_cell hcell).found
    · rw [hinsert]
      nofun

theorem Accounts.makesKnown_of_found (h : told.Accounts) {known : ClassInfo}
    (hfound : told.path.cell info.name = .found known) : told.MakesKnown info := by
  have hinsert : told.toWorld.step (.prepare (.insert info)) = _ :=
    World.step_insert_of_filled (by rw [hfound]; nofun)
  have hlogged := (h.found info.name known).mp hfound
  constructor
  · exact fun _ => ⟨known, hlogged⟩
  · refine ⟨known, ?_, ?_, fun _ => hlogged⟩
    · rw [hinsert]
      exact (World.knows_of_cell hfound).found
    · rw [hinsert]
      nofun

/-- A class that is inserted is known from then on, except where a lookup of its name has answered
that there is none. There the class is refused and its name stays unknown. -/
theorem insert_makes_known_unless_missing (files : FileTree) (steps : List Step)
    (info : ClassInfo) :
    (after files steps).toWorld = (runAll World.step steps (World.start files)).2 ∧
    ((after files steps).MakesKnown info ↔
      (info.name, .error (.classNotFound info.name)) ∉ (after files steps).log) ∧
    ((info.name, .error (.classNotFound info.name)) ∈ (after files steps).log →
      ((after files steps).toWorld.step (.prepare (.insert info))).1 = .inserted false ∧
      (((after files steps).toWorld.step (.prepare (.insert info))).2.step
        (.ask (.resolve info.name))).1 = .found (.error (.classNotFound info.name))) := by
  have h := after_accounts files steps
  have hrefused : (info.name, .error (.classNotFound info.name)) ∈ (after files steps).log →
      ((after files steps).toWorld.step (.prepare (.insert info))).1 = .inserted false ∧
      (((after files steps).toWorld.step (.prepare (.insert info))).2.step
        (.ask (.resolve info.name))).1 = .found (.error (.classNotFound info.name)) := by
    intro hlogged
    have hmissing := (h.missing info.name).mpr hlogged
    have hinsert : (after files steps).toWorld.step (.prepare (.insert info)) = _ :=
      World.step_insert_of_filled (by rw [hmissing]; nofun)
    rw [hinsert]
    exact ⟨rfl, World.missing_after_run hmissing []⟩
  refine ⟨after_toWorld files steps, ⟨?_, ?_⟩, hrefused⟩
  · rintro ⟨-, known, hanswer, -⟩ hlogged
    rw [(hrefused hlogged).2] at hanswer
    cases hanswer
  · intro hunlogged
    cases hcell : (after files steps).path.cell info.name with
    | empty => exact makesKnown_of_empty hcell
    | found known => exact h.makesKnown_of_found hcell
    | missing => exact absurd ((h.missing info.name).mp hcell) hunlogged

end

/-- A class that was asked for too early. -/
def latecomer : ClassInfo := ⟨"p.A", some objectName, [], false, []⟩

theorem latecomer_is_not_made_known :
    (after .empty [.ask (.resolve "p.A")]).log = [("p.A", .error (.classNotFound "p.A"))] ∧
    ((after .empty [.ask (.resolve "p.A")]).toWorld.step (.prepare (.insert latecomer))).1 =
      .inserted false ∧
    ¬ (after .empty [.ask (.resolve "p.A")]).MakesKnown latecomer := by
  refine ⟨rfl, rfl, ?_⟩
  rintro ⟨hrefused, -⟩
  obtain ⟨known, hlogged⟩ := hrefused rfl
  have hlog : (after .empty [.ask (.resolve "p.A")]).log =
      [("p.A", .error (.classNotFound "p.A"))] := rfl
  simp [hlog] at hlogged

end Chronicle

end JniHeaders
