import JniHeaders.Error

/-!
A file system as a value, and paths. Operations fail as an operating system fails: a path may not
go through a regular file, a directory can't be read or written as a file, and a file can only be
written into a directory that exists.
-/

namespace JniHeaders

namespace Path

def segments : List Char → List (List Char)
  | [] => [[]]
  | c :: rest =>
    match segments rest with
    | [] => [[c]]
    | first :: others => if c = '/' then [] :: first :: others else (c :: first) :: others

def isAbsolute (path : String) : Bool := path.toList.head? = some '/'

def endsInSlash (path : String) : Bool := path.toList.getLast? = some '/'

/-- The names on a path. The root of absolute paths goes by the name of a slash. -/
def names (path : String) : List String :=
  (if isAbsolute path then ["/"] else []) ++
    ((segments path.toList).filter (· ≠ [])).map String.ofList

/-- An absolute second path replaces the first. -/
def join (base path : String) : String :=
  if isAbsolute path then path
  else if base = "" ∨ endsInSlash base then base ++ path
  else base ++ "/" ++ path

def joinAll (base : String) (names : List String) : String := names.foldl join base

/-- The last name on a path, or the path itself where there is none. -/
def fileName (path : String) : String := (names path).getLast?.getD path

/-- The names that lead to where the last name lies. A dot at the end leads nowhere else, so the
name before it counts as the last. -/
def parent (names : List String) : List String :=
  ((names.reverse.dropWhile (· = ".")).tail.dropWhile (· = ".")).reverse

theorem parent_length {names : List String} (h : names ≠ []) :
    (parent names).length < names.length := by
  have dots := (List.dropWhile_sublist (· = ".") (l := names.reverse)).length_le
  have rest := (List.dropWhile_sublist (· = ".")
    (l := (names.reverse.dropWhile (· = ".")).tail)).length_le
  have some : 0 < names.length := List.length_pos_iff.mpr h
  simp only [List.length_reverse, List.length_tail] at dots rest
  simp only [parent, List.length_reverse]
  omega

end Path

/-- The bytes of a file, or why it can't be read. -/
abbrev Content := Except FileError ByteArray

inductive Node where
  | file (content : Content)
  | directory

instance : DecidableEq Content
  | .ok a, .ok b => decidable_of_iff (a.data = b.data) (by cases a; cases b; simp)
  | .error a, .error b => decidable_of_iff (a = b) (by simp)
  | .ok _, .error _ | .error _, .ok _ => isFalse nofun

instance : DecidableEq Node
  | .file a, .file b => decidable_of_iff (a = b) (by simp)
  | .directory, .directory => isTrue rfl
  | .file _, .directory | .directory, .file _ => isFalse nofun

structure FileTree where
  nodes : List (List String × Node)
  nodup : (nodes.map (·.1)).Nodup

namespace FileTree

def empty : FileTree := ⟨[], List.nodup_nil⟩

/-- Whether a place is where relative paths begin, or a directory above that. -/
def isAbove (place : List String) : Bool := place.all (· = "..")

/-- The root and the directories from which relative paths can begin are always there. -/
def node? (tree : FileTree) (place : List String) : Option Node :=
  if isAbove place ∨ place = ["/"] then some .directory else tree.nodes.lookup place

theorem nodup_filter (tree : FileTree) (keep : List String × Node → Bool) :
    ((tree.nodes.filter keep).map (·.1)).Nodup :=
  (List.filter_sublist.map _).nodup tree.nodup

def put (tree : FileTree) (place : List String) (node : Node) : FileTree where
  nodes := (place, node) :: tree.nodes.filter (·.1 ≠ place)
  nodup := by
    refine List.nodup_cons.mpr ⟨?_, tree.nodup_filter _⟩
    intro mem
    obtain ⟨other, kept, same⟩ := List.mem_map.mp mem
    exact absurd same (of_decide_eq_true (List.mem_filter.mp kept).2)

def step (place : List String) (name : String) : List String :=
  if name = "." then place
  else if name = ".." then
    if place = ["/"] then place else if isAbove place then place ++ [".."] else place.dropLast
  else place ++ [name]

def follow (tree : FileTree) (place : List String) : List String → Except FileError (List String)
  | [] => .ok place
  | name :: names =>
    match tree.node? place with
    | none => .error .notFound
    | some (.file _) => .error .notADirectory
    | some .directory => tree.follow (step place name) names

/-- The node at a path. A path that ends in a slash leads to a directory or nowhere. -/
def find (tree : FileTree) (path : String) : Except FileError (List String × Node) :=
  if path = "" then .error .notFound
  else
    match tree.follow [] (Path.names path ++ if Path.endsInSlash path then ["."] else []) with
    | .error cause => .error cause
    | .ok place =>
      match tree.node? place with
      | none => .error .notFound
      | some node => .ok (place, node)

def isDirectory (tree : FileTree) (path : String) : Bool :=
  match tree.find path with
  | .ok (_, .directory) => true
  | _ => false

def isFile (tree : FileTree) (path : String) : Bool :=
  match tree.find path with
  | .ok (_, .file _) => true
  | _ => false

def read (tree : FileTree) (path : String) : Content :=
  match tree.find path with
  | .error cause => .error cause
  | .ok (_, .directory) => .error .isADirectory
  | .ok (_, .file content) => content

/-- Where the last name lies, which has to be a directory. -/
def followParent (tree : FileTree) (names : List String) : Except FileError (List String) :=
  tree.follow [] (names.dropLast ++ ["."])

def write (tree : FileTree) (path : String) (content : ByteArray) : Except FileError FileTree :=
  if path = "" then .error .notFound
  else
    match (Path.names path).getLast? with
    | none => .error .isADirectory
    | some last =>
      match tree.followParent (Path.names path) with
      | .error cause => .error cause
      | .ok parent =>
        if Path.endsInSlash path ∨ last = "." ∨ last = ".." ∨
            tree.node? (step parent last) = some .directory then .error .isADirectory
        else .ok (tree.put (step parent last) (.file (.ok content)))

/-- What a file system refuses to write where a tree could be written. Names can be too long, for
instance, and files can be protected. -/
abbrev Refusals := FileTree → String → Option FileError

def writeUnless (refuses : Refusals) (tree : FileTree) (path : String) (content : ByteArray) :
    Except FileError FileTree :=
  match refuses tree path with
  | some cause => .error cause
  | none => tree.write path content

def makeDirectory (tree : FileTree) (names : List String) : Except FileError FileTree :=
  match names.getLast? with
  | none => .ok tree
  | some last =>
    match tree.followParent names with
    | .error cause => .error cause
    | .ok parent =>
      match tree.node? (step parent last) with
      | none => .ok (tree.put (step parent last) .directory)
      | some .directory => .ok tree
      | some (.file _) => .error .alreadyExists

/-- Makes a directory, after those on the way that are not there. What has been made stays also
where one of them can't be made. -/
def makeDirectories (tree : FileTree) (names : List String) : Except FileError Unit × FileTree :=
  if _ : names = [] then (.ok (), tree)
  else
    match tree.makeDirectory names with
    | .ok tree => (.ok (), tree)
    | .error .notFound =>
      match tree.makeDirectories (Path.parent names) with
      | (.error cause, tree) => (.error cause, tree)
      | (.ok (), tree) =>
        match tree.makeDirectory names with
        | .error cause => (.error cause, tree)
        | .ok tree => (.ok (), tree)
    | .error cause => (.error cause, tree)
termination_by names.length
decreasing_by exact Path.parent_length (by assumption)

def createDirectory (tree : FileTree) (path : String) : Except FileError Unit × FileTree :=
  tree.makeDirectories (Path.names path)

def remove (tree : FileTree) (place : List String) : FileTree where
  nodes := tree.nodes.filter fun (other, _) => !place.isPrefixOf other
  nodup := tree.nodup_filter _

def namesBefore : List String → List String → Bool
  | [], _ => true
  | _ :: _, [] => false
  | a :: as, b :: bs => if a = b then namesBefore as bs else a < b

/-- The files below a place under the rest of their names. A directory's files come where its
name has its turn among the names beside it. -/
def filesBelow (tree : FileTree) (place : List String) : List (List String × Content) :=
  (tree.nodes.filterMap fun (other, node) =>
    match node with
    | .file content =>
      if place.isPrefixOf other then some (other.drop place.length, content) else none
    | .directory => none).mergeSort fun a b => namesBefore a.1 b.1

/-- The nodes of the tree that another tree has not, or has otherwise, each after the directories
that lead to it. -/
def changes (tree other : FileTree) : List (String × Node) :=
  ((tree.nodes.filter fun (place, node) => other.node? place ≠ some node).map
    fun (place, node) => (Path.joinAll "" place, node)).mergeSort fun a b => a.1 ≤ b.1

/-- The files of the tree that another tree has not, or has otherwise. Nothing tells what is in a
file that can't be read. -/
def filesNotIn (tree other : FileTree) : List (String × ByteArray) :=
  (tree.changes other).filterMap fun (path, node) =>
    match node with
    | .file (.ok content) => some (path, content)
    | _ => none

end FileTree

end JniHeaders
