import JniHeaders.Proofs.LookupRuns

/-!
A class path remembers what it looked up, and no answer shows it. What it answers is said by a
lookup that has no memory and only knows the sources that the class path was made from. Each cell
that is filled holds the answer of that lookup, and every question keeps this.
-/

namespace JniHeaders

variable [Formats]

namespace ClassPathEntry

/-- What the file for a class yields, if there is one. -/
def fileFor? (files : FileTree) (name : String) :
    ClassPathEntry → Option (Except Error ClassInfo)
  | directory path =>
    let file := Path.join path (classPathName name)
    if files.isFile file then some (files.readClassFile file) else none
  | archive contents root =>
    (contents.find? (root ++ classPathName name)).map readMember

variable {files : FileTree} {name : String}

theorem find_eq (entry : ClassPathEntry) :
    entry.find files name =
      match entry.fileFor? files name with
      | none => .ok none
      | some result => result.map some := by
  cases entry with
  | directory path =>
    simp only [find, fileFor?]
    by_cases h : files.isFile (Path.join path (classPathName name))
    · simp [h]
    · simp [h]
  | archive contents root =>
    simp only [find, fileFor?]
    cases contents.find? (root ++ classPathName name) with
    | none => rfl
    | some member => rfl

theorem findFirst_eq (entries : List ClassPathEntry) :
    findFirst files name entries =
      match entries.findSome? (fileFor? files name) with
      | none => .ok none
      | some result => result.map some := by
  induction entries with
  | nil => rfl
  | cons entry entries ih =>
    unfold findFirst
    rw [find_eq, List.findSome?_cons]
    cases entry.fileFor? files name with
    | none => exact ih
    | some result => cases result <;> rfl

end ClassPathEntry

theorem ClassPath.answer_of_empty {files : FileTree} {path : ClassPath} {name : String}
    (h : path.cell name = .empty) :
    path.answer files name =
      match path.entries.findSome? (·.fileFor? files name) with
      | some result => result
      | none =>
        match if path.hasStubs then platformStub? name else none with
        | some stub => .ok stub
        | none => .error (.classNotFound name) := by
  rw [answer_eq, h]
  unfold locate
  rw [ClassPathEntry.findFirst_eq]
  cases path.entries.findSome? (·.fileFor? files name) with
  | some result => cases result <;> rfl
  | none =>
    dsimp only
    cases if path.hasStubs then platformStub? name else none with
    | none => rfl
    | some stub => rfl

/-- What a class path is made from, without memory: the classes that were inserted, first to last,
the entries in the order they were added, and whether the stubs count. -/
structure Sources where
  files : FileTree
  inserted : List ClassInfo
  entries : List ClassPathEntry
  hasStubs : Bool

namespace Sources

def start (files : FileTree) : Sources := ⟨files, [], [], true⟩

/-- The entries that can be opened, up to the first that can't. -/
def opened (files : FileTree) : List String → List ClassPathEntry
  | [] => []
  | path :: paths =>
    match ClassPathEntry.ofPath files path with
    | .error _ => []
    | .ok entry => entry :: opened files paths

def prepare (sources : Sources) : Preparation → Sources
  | .insert info => { sources with inserted := sources.inserted ++ [info] }
  | .push entry => { sources with entries := sources.entries ++ opened sources.files [entry] }
  | .pushJavaHome home =>
    { sources with
      entries := sources.entries ++ opened sources.files (platformLibrary sources.files home) }
  | .withoutPlatformStubs => { sources with hasStubs := false }
  | .change files => { sources with files := files }

/-- The first class of that name that was inserted, or else what the first entry that has a file
for it yields, be it an error, or else the stub. -/
def lookup (sources : Sources) (name : String) : Except Error ClassInfo :=
  match sources.inserted.find? (·.name = name) with
  | some info => .ok info
  | none =>
    match sources.entries.findSome? (·.fileFor? sources.files name) with
    | some result => result
    | none =>
      match if sources.hasStubs then platformStub? name else none with
      | some stub => .ok stub
      | none => .error (.classNotFound name)

end Sources

/-- The class path has the entries of the sources, and its cells are those of the inserted
classes. -/
structure Sources.Makes (sources : Sources) (world : World) : Prop where
  files : world.files = sources.files
  entries : world.path.entries = sources.entries
  hasStubs : world.path.hasStubs = sources.hasStubs
  cells : ∀ name, world.path.cell name =
    match sources.inserted.find? (·.name = name) with
    | some info => .found info
    | none => .empty

namespace Sources

variable {sources : Sources} {world : World}

omit [Formats] in
theorem start_makes (files : FileTree) : (start files).Makes (World.start files) where
  files := rfl
  entries := rfl
  hasStubs := rfl
  cells _ := rfl

theorem Makes.insert (h : sources.Makes world) (info : ClassInfo) :
    (sources.prepare (.insert info)).Makes (world.prepare (.insert info)).2 := by
  have hcell := h.cells info.name
  cases hfirst : sources.inserted.find? (·.name = info.name) with
  | some first =>
    rw [hfirst] at hcell
    have hfilled : world.path.cell info.name ≠ .empty := by
      rw [hcell]
      nofun
    simp only [World.prepare, ClassPath.insert_of_filled hfilled]
    refine ⟨h.files, h.entries, h.hasStubs, fun name => ?_⟩
    rw [h.cells name]
    simp only [prepare, List.find?_append]
    by_cases hname : info.name = name
    · rw [← hname, hfirst]
      rfl
    · simp [hname]
  | none =>
    rw [hfirst] at hcell
    simp only [World.prepare, ClassPath.insert_of_empty hcell]
    refine ⟨h.files, h.entries, h.hasStubs, fun name => ?_⟩
    rw [ClassPath.cell_keep]
    simp only [prepare, List.find?_append]
    by_cases hname : name = info.name
    · rw [if_pos hname, hname, hfirst]
      simp
    · rw [if_neg hname, h.cells name]
      simp [Ne.symm hname]

theorem pushAll_eq (files : FileTree) (paths : List String) (path : ClassPath) :
    (ClassPath.pushAll files paths path).2 =
      { path with entries := path.entries ++ opened files paths } := by
  induction paths generalizing path with
  | nil => simp [ClassPath.pushAll, opened]
  | cons entry paths ih =>
    unfold ClassPath.pushAll ClassPath.push opened
    cases ClassPathEntry.ofPath files entry with
    | error cause => simp [Except.map]
    | ok entry => simp [Except.map, ih]

theorem Makes.pushAll (h : sources.Makes world) (paths : List String) :
    Makes { sources with entries := sources.entries ++ opened sources.files paths }
      { world with path := (ClassPath.pushAll world.files paths world.path).2 } := by
  rw [pushAll_eq, h.files, h.entries]
  exact ⟨rfl, rfl, h.hasStubs, h.cells⟩

theorem prepare_push (entry : String) (world : World) :
    (world.prepare (.push entry)).2 =
      { world with path := (ClassPath.pushAll world.files [entry] world.path).2 } := by
  simp only [World.prepare, ClassPath.pushAll]
  cases world.path.push world.files entry with
  | error cause => rfl
  | ok path => rfl

theorem Makes.prepare (h : sources.Makes world) (preparation : Preparation) :
    (sources.prepare preparation).Makes (world.prepare preparation).2 := by
  cases preparation with
  | insert info => exact h.insert info
  | push entry =>
    rw [prepare_push]
    exact h.pushAll [entry]
  | pushJavaHome home =>
    obtain ⟨files, path⟩ := world
    obtain rfl : files = sources.files := h.files
    exact h.pushAll (platformLibrary sources.files home)
  | withoutPlatformStubs => exact ⟨h.files, h.entries, rfl, h.cells⟩
  | change files => exact ⟨rfl, h.entries, h.hasStubs, h.cells⟩

theorem Makes.prepareAll (h : sources.Makes world) (preparations : List Preparation) :
    (preparations.foldl Sources.prepare sources).Makes
      (runAll World.prepare preparations world).2 := by
  induction preparations generalizing sources world with
  | nil => exact h
  | cons preparation preparations ih => exact ih (h.prepare preparation)

theorem Makes.answer (h : sources.Makes world) :
    world.path.answer world.files = sources.lookup := by
  funext name
  have hcell := h.cells name
  unfold lookup
  cases hfirst : sources.inserted.find? (·.name = name) with
  | some info =>
    rw [hfirst] at hcell
    rw [ClassPath.answer_eq, hcell]
  | none =>
    rw [hfirst] at hcell
    rw [ClassPath.answer_of_empty hcell, h.files, h.entries, h.hasStubs]

theorem lookup_mem_candidates {sources : Sources} {name : String} {info : ClassInfo}
    (h : sources.lookup name = .ok info) :
    info ∈ sources.inserted ++ ClassPath.candidates sources.files sources.entries := by
  unfold lookup at h
  split at h
  · rename_i first hfirst
    cases h
    exact List.mem_append_left _ (List.mem_of_find?_eq_some hfirst)
  · apply List.mem_append_right
    split at h
    · rename_i result hresult
      subst h
      obtain ⟨entry, hentry, hfile⟩ := List.exists_of_findSome?_eq_some hresult
      have hfind : entry.find sources.files name = .ok (some info) := by
        rw [ClassPathEntry.find_eq, hfile]
        rfl
      exact ClassPath.find_mem_candidates hentry hfind
    · split at h
      · rename_i stub hstub
        cases h
        split at hstub
        · exact List.mem_append_left _ (List.mem_append_left _ (List.mem_of_find?_eq_some hstub))
        · cases hstub
      · cases h

theorem isFinite (sources : Sources) :
    Ancestry.IsFinite (fun name (sources : Sources) => (sources.lookup name, sources))
      (· = sources) := by
  apply Ancestry.isFinite_of_infos
    (sources.inserted ++ ClassPath.candidates sources.files sources.entries)
  · intro name other same
    exact same
  · rintro other rfl name info hfound
    exact lookup_mem_candidates hfound

def isSubclass : Oracle Sources := fun name ancestor sources =>
  Ancestry.isSubclass (fun name sources => (sources.lookup name, sources)) sources.isFinite name
    ancestor sources rfl

def answer (sources : Sources) (query : Query) : Answer :=
  (query.ask (fun name sources => (sources.lookup name, sources)) isSubclass sources).1

end Sources

section

variable {files : FileTree} {sources : Sources}

/-- The class path answers lookups as the sources do, which stay what they are. -/
def Recalls (files : FileTree) (sources : Sources) (path : ClassPath) (other : Sources) : Prop :=
  path.answer files = sources.lookup ∧ other = sources

theorem resolve_recalls (name : String) :
    Alike (Recalls files sources) (fun path => path.resolve files name)
      (fun sources => (sources.lookup name, sources)) := by
  rintro path _ ⟨hanswer, rfl⟩
  refine ⟨congrFun hanswer name, ?_, rfl⟩
  rw [ClassPath.answer_resolve]
  exact hanswer

theorem isSubclass_recalls (name ancestor : String) :
    Alike (Recalls files sources) (ClassPath.isSubclass files name ancestor)
      (Sources.isSubclass name ancestor) := by
  rintro path other hrecalls
  exact Ancestry.isSubclass_alike (path.isFinite files) other.isFinite resolve_recalls rfl rfl
    hrecalls

theorem ask_recalls (query : Query) {path : ClassPath}
    (h : path.answer files = sources.lookup) :
    (path.ask files query).1 = sources.answer query ∧
      (path.ask files query).2.answer files = sources.lookup := by
  obtain ⟨hanswer, hafter, -⟩ :=
    query.ask_alike resolve_recalls isSubclass_recalls path sources ⟨h, rfl⟩
  exact ⟨hanswer, hafter⟩

theorem runAll_ask_recalls (queries : List Query) {world : World}
    (h : world.path.answer world.files = sources.lookup) :
    (runAll World.ask queries world).1 = queries.map sources.answer := by
  induction queries generalizing world with
  | nil => rfl
  | cons query queries ih =>
    obtain ⟨hanswer, hafter⟩ := ask_recalls query h
    have hrest : (runAll World.ask queries (world.ask query).2).1 =
        queries.map sources.answer := ih hafter
    exact List.cons_eq_cons.mpr ⟨hanswer, hrest⟩

end

/-- After a class path has been made, questions get the answers of a lookup without memory, in
whatever order and however often they are asked. -/
theorem questions_are_answered_without_memory (files : FileTree)
    (preparations : List Preparation) (queries : List Query) :
    (runAll World.ask queries (runAll World.prepare preparations (World.start files)).2).1 =
      queries.map (preparations.foldl Sources.prepare (Sources.start files)).answer :=
  runAll_ask_recalls queries ((Sources.start_makes files).prepareAll preparations).answer

def unreadableFirst : FileTree where
  nodes := [(["d"], .directory), (["d", "A.class"], .file (.error .invalidData)),
    (["e"], .directory), (["e", "A.class"], .file (.ok ByteArray.empty))]
  nodup := by decide

/-- A file that can't be read decides, and no entry after it is looked into. -/
example :
    (runAll World.ask [.resolve "A", .resolve "A"]
      (runAll World.prepare [.push "d", .push "e"] (World.start unreadableFirst)).2).1 =
      [.found (.error (.file .invalidData)), .found (.error (.file .invalidData))] := by rfl

end JniHeaders
