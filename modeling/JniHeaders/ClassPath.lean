import JniHeaders.ClassPath.Stub
import JniHeaders.Input

/-!
Where classes are looked up: classes made known, then directories and archives in the order they
were added, then the platform stubs. A name has a cell for what a lookup finds, or that it finds
nothing, and a cell that is filled is never filled again. A lookup that fails for another reason
leaves its cell empty.
-/

namespace JniHeaders

inductive ClassPathEntry where
  | directory (path : String)
  | archive (contents : Archive) (root : String)

/-- What is known of a name: nothing yet, its class, or that no class has it. -/
inductive Cell where
  | empty
  | found (info : ClassInfo)
  | missing
  deriving DecidableEq, Repr

structure ClassPath where
  entries : List ClassPathEntry
  hasStubs : Bool
  cells : List (String × Cell)

/-- A module archive is an archive behind four bytes of its own. -/
def moduleMagic : List UInt8 := [0x4A, 0x4D, 1, 0]

def moduleRoot : String := "classes/"

namespace ClassPathEntry

section

variable [Formats]

/-- Opens an archive. Its first bytes have been read by then, and where they are the header of a
module archive, places count from the end of it. -/
def ofBytes (data : ByteArray) : Except Error ClassPathEntry :=
  let (header, file) := Seekable.read moduleMagic.length (OpenFile.mk data 0)
  let isModule := header.toList = moduleMagic
  match Archive.open? (ArchiveFile.mk file (if isModule then moduleMagic.length else 0)) with
  | none => .error .badArchive
  | some contents => .ok (.archive contents (if isModule then moduleRoot else ""))

def ofPath (tree : FileTree) (path : String) : Except Error ClassPathEntry :=
  if tree.isDirectory path then .ok (.directory path)
  else
    match tree.read path with
    | .error cause => .error (.file cause)
    | .ok data => ofBytes data

def readMember (member : Archive.Member) : Except Error ClassInfo :=
  match member.content.get with
  | none => .error .badArchive
  | some (.error cause) => .error (.file cause)
  | some (.ok content) => parseClass content

/-- Looks a class up by name. What the file that is found says its class is called is not
compared with the name. -/
def find (tree : FileTree) (name : String) : ClassPathEntry → Except Error (Option ClassInfo)
  | directory path =>
    let file := Path.join path (classPathName name)
    if tree.isFile file then (tree.readClassFile file).map some else .ok none
  | archive contents root =>
    match contents.find? (root ++ classPathName name) with
    | none => .ok none
    | some member => (readMember member).map some

/-- Looks in one entry after the other. The first that has a file for the name decides. -/
def findFirst (tree : FileTree) (name : String) :
    List ClassPathEntry → Except Error (Option ClassInfo)
  | [] => .ok none
  | entry :: entries =>
    match entry.find tree name with
    | .error cause => .error cause
    | .ok (some info) => .ok (some info)
    | .ok none => findFirst tree name entries

end

end ClassPathEntry

namespace ClassPath

def empty : ClassPath := ⟨[], true, []⟩

def withoutPlatformStubs (path : ClassPath) : ClassPath := { path with hasStubs := false }

def push [Formats] (tree : FileTree) (path : ClassPath) (entry : String) : Except Error ClassPath :=
  (ClassPathEntry.ofPath tree entry).map fun opened =>
    { path with entries := path.entries ++ [opened] }

def locate [Formats] (tree : FileTree) (path : ClassPath) (name : String) :
    Except Error (Option ClassInfo) :=
  match ClassPathEntry.findFirst tree name path.entries with
  | .error cause => .error cause
  | .ok (some info) => .ok (some info)
  | .ok none => .ok (if path.hasStubs then platformStub? name else none)

def cell (path : ClassPath) (name : String) : Cell := (path.cells.lookup name).getD .empty

def keep (path : ClassPath) (name : String) (cell : Cell) : ClassPath :=
  { path with cells := (name, cell) :: path.cells }

/-- A name that is asked for gets a cell, which stays behind empty where the lookup fails. -/
def resolve [Formats] (tree : FileTree) (path : ClassPath) (name : String) :
    Except Error ClassInfo × ClassPath :=
  match path.cell name with
  | .found info => (.ok info, path)
  | .missing => (.error (.classNotFound name), path)
  | .empty =>
    match path.locate tree name with
    | .error cause => (.error cause, path.keep name .empty)
    | .ok none => (.error (.classNotFound name), path.keep name .missing)
    | .ok (some info) => (.ok info, path.keep name (.found info))

/-- Makes a class known, unless something is known of its name: a class, or that there is none. -/
def insert (path : ClassPath) (info : ClassInfo) : Bool × ClassPath :=
  match path.cell info.name with
  | .empty => (true, path.keep info.name (.found info))
  | _ => (false, path)

@[simp] theorem cell_keep (path : ClassPath) (name other : String) (cell : Cell) :
    (path.keep name cell).cell other = if other = name then cell else path.cell other := by
  unfold ClassPath.cell keep
  by_cases h : other = name
  · simp [h]
  · rw [List.lookup_cons, beq_false_of_ne h, if_neg h]

@[simp] theorem locate_keep [Formats] (tree : FileTree) (path : ClassPath) (name : String)
    (cell : Cell) : (path.keep name cell).locate tree = path.locate tree := rfl

/-- All that a lookup can do. -/
theorem resolve_cases [Formats] (tree : FileTree) (path : ClassPath) (name : String) :
    (∃ info, path.cell name = .found info ∧ path.resolve tree name = (.ok info, path)) ∨
    (path.cell name = .missing ∧
      path.resolve tree name = (.error (.classNotFound name), path)) ∨
    path.cell name = .empty ∧
      ((∃ cause, path.locate tree name = .error cause ∧
          path.resolve tree name = (.error cause, path.keep name .empty)) ∨
        (path.locate tree name = .ok none ∧
          path.resolve tree name = (.error (.classNotFound name), path.keep name .missing)) ∨
        ∃ info, path.locate tree name = .ok (some info) ∧
          path.resolve tree name = (.ok info, path.keep name (.found info))) := by
  unfold resolve
  cases hcell : path.cell name with
  | found info => exact Or.inl ⟨info, rfl, rfl⟩
  | missing => exact Or.inr (Or.inl ⟨rfl, rfl⟩)
  | empty =>
    refine Or.inr (Or.inr ⟨rfl, ?_⟩)
    cases path.locate tree name with
    | error cause => exact Or.inl ⟨cause, rfl, rfl⟩
    | ok found =>
      cases found with
      | none => exact Or.inr (Or.inl ⟨rfl, rfl⟩)
      | some info => exact Or.inr (Or.inr ⟨info, rfl, rfl⟩)

theorem insert_of_empty {path : ClassPath} {info : ClassInfo}
    (h : path.cell info.name = .empty) :
    path.insert info = (true, path.keep info.name (.found info)) := by
  unfold insert
  rw [h]

theorem insert_of_filled {path : ClassPath} {info : ClassInfo}
    (h : path.cell info.name ≠ .empty) : path.insert info = (false, path) := by
  unfold insert
  split
  · contradiction
  · rfl

end ClassPath

end JniHeaders
