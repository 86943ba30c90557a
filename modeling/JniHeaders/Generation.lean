import JniHeaders.ClassPath.Library
import JniHeaders.ClassPath.Oracle
import JniHeaders.Header.Output
import JniHeaders.Input

/-!
From settings to headers. Classes are exported in the order of the inputs, and of two classes of
one name the first counts. The inputs take part in lookups before everything else, selected or
not.
-/

namespace JniHeaders

structure Settings where
  inputs : List String := []
  /-- Entries of the class path that are not exported. -/
  lookups : List String := []
  /-- The names of the classes to export, or all of them. -/
  selection : Option (List String) := none
  javaHome : Option String := none
  hasPlatformClasses : Bool := true
  options : HeaderOptions := {}
  deriving DecidableEq, Repr

namespace ClassPath

def insertAll (input : String) :
    List ClassInfo → ClassPath → Reported (List ClassInfo × ClassPath)
  | [], path => return ([], path)
  | info :: infos, path =>
    match path.insert info with
    | (false, path) => do
      Reported.report [.repeatedClass info.name input]
      insertAll input infos path
    | (true, path) => do
      let (others, path) ← insertAll input infos path
      return (info :: others, path)

def insertInputs [Formats] (tree : FileTree) :
    List String → ClassPath → Reported (List ClassInfo × ClassPath)
  | [], path => return ([], path)
  | input :: inputs, path => do
    let infos ← tree.readInput input
    let (kept, path) ← path.insertAll input infos
    let (others, path) ← insertInputs tree inputs path
    return (kept ++ others, path)

def withJavaHome [Formats] (tree : FileTree) (path : ClassPath) (home : String) :
    Reported ClassPath :=
  let (added, path) := path.pushJavaHome tree home
  ⟨added.notices, added.result.map fun _ => path⟩

/-- Adds the class library of an installation that nobody asked for: if it can't be read, what was
added of it is all there is. -/
def withFoundJavaHome [Formats] (tree : FileTree) (path : ClassPath) (home : String) :
    Reported ClassPath :=
  match path.pushJavaHome tree home with
  | (⟨notices, .ok _⟩, path) => ⟨notices, .ok path⟩
  | (⟨notices, .error cause⟩, path) =>
    ⟨notices ++ [.unreadableClassLibrary home cause], .ok path⟩

end ClassPath

namespace Settings

def select (settings : Settings) (names : List String) : Settings :=
  { settings with selection := some (settings.selection.getD [] ++ names) }

/-- Adds the class library that is asked for, or else the one that the environment names. -/
def withPlatform [Formats] (settings : Settings) (tree : FileTree) (environment : Option String)
    (path : ClassPath) : Reported ClassPath :=
  if settings.hasPlatformClasses then
    match settings.javaHome, locateJavaHome environment with
    | some home, _ => path.withJavaHome tree home
    | none, some home => path.withFoundJavaHome tree home
    | none, none => return path
  else return path.withoutPlatformStubs

def classPath [Formats] (settings : Settings) (tree : FileTree) (environment : Option String) :
    Reported ClassPath :=
  match ClassPath.empty.pushAll tree settings.lookups with
  | (.error cause, _) => ⟨[], .error cause⟩
  | (.ok (), path) => settings.withPlatform tree environment path

/-- Keeps the classes with one of the names. The first name that no class has is an error. -/
def choose (classes : List ClassInfo) : Option (List String) → Except Error (List ClassInfo)
  | none => .ok classes
  | some names =>
    match names.find? fun name => classes.all (·.name ≠ name) with
    | some missing => .error (.notInInputs missing)
    | none => .ok (classes.filter fun info => names.contains info.name)

/-- Reads the inputs and gives the classes to export, with the class path that knows them all. The
environment may name an installation of the platform. -/
def prepare [Formats] (settings : Settings) (tree : FileTree) (environment : Option String) :
    Reported (List ClassInfo × ClassPath) := do
  let path ← settings.classPath tree environment
  let (classes, path) ← path.insertInputs tree settings.inputs
  let chosen ← Reported.ofExcept (choose classes settings.selection)
  return (chosen, path)

def generate [Formats] (settings : Settings) (tree : FileTree) (environment : Option String) :
    Reported Headers := do
  let (classes, path) ← settings.prepare tree environment
  let (extraction, _) := Extraction.of (ClassPath.isSubclass tree) classes path
  Reported.report extraction.notices
  return ⟨extraction, settings.options⟩

end Settings

end JniHeaders
