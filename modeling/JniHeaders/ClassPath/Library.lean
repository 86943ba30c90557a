import JniHeaders.ClassPath

/-!
The class library of an installation: the module archives of newer ones, or the single archive of
older ones.
-/

namespace JniHeaders

/-- Whether a name has something in front of the ending. -/
def isModuleFileName (name : String) : Bool :=
  ".jmod".toList.isSuffixOf name.toList && name ≠ ".jmod"

def baseModule : String := "java.base.jmod"

/-- The module archives directly in a directory, the base module first. -/
def moduleFiles (tree : FileTree) (directory : String) : List String :=
  match tree.find directory with
  | .ok (place, .directory) =>
    let names := (tree.filesBelow place).filterMap fun (names, _) =>
      match names with
      | [name] => if isModuleFileName name then some name else none
      | _ => none
    names.filter (· = baseModule) ++ names.filter (· ≠ baseModule)
  | _ => []

def moduleDirectory (home : String) : String := Path.join home "jmods"

/-- Where an installation without module archives has its single archive, by preference. -/
def singleArchives (home : String) : List String :=
  ["jre/lib/rt.jar", "lib/rt.jar"].map (Path.join home)

def platformLibrary (tree : FileTree) (home : String) : List String :=
  match moduleFiles tree (moduleDirectory home) with
  | [] => ((singleArchives home).filter tree.isFile).take 1
  | names => names.map (Path.join (moduleDirectory home))

def locateJavaHome (environment : Option String) : Option String := environment.filter (· ≠ "")

namespace ClassPath

/-- Adds entries up to the first that can't be opened. -/
def pushAll [Formats] (tree : FileTree) : List String → ClassPath → Except Error Unit × ClassPath
  | [], path => (.ok (), path)
  | entry :: entries, path =>
    match path.push tree entry with
    | .error cause => (.error cause, path)
    | .ok path => pushAll tree entries path

def pushJavaHome [Formats] (tree : FileTree) (path : ClassPath) (home : String) :
    Reported Nat × ClassPath :=
  let library := platformLibrary tree home
  let (result, path) := pushAll tree library path
  (⟨if library = [] then [.noClassLibrary home] else [], result.map fun _ => library.length⟩,
    path)

end ClassPath

end JniHeaders
