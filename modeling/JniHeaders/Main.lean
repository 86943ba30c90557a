import JniHeaders.CommandLine

/-!
The program on a real file system. What a command can read is loaded, the command runs on it, and
what the run changed is stored.
-/

namespace JniHeaders.Main

open CommandLine

def kind? (path : String) : IO (Option IO.FS.FileType) :=
  try
    let node ← (← IO.FS.realPath path).metadata
    return some node.type
  catch _ => return none

def fileError : IO.Error → FileError
  | .noFileOrDirectory .. => .notFound
  | .inappropriateType .. => .isADirectory
  | _ => .invalidData

def loadContent (path : String) : IO Content := do
  match ← (IO.FS.readBinFile path).toBaseIO with
  | .ok data => return .ok data
  | .error cause => return .error (fileError cause)

def loadBelow (isWanted : String → Bool) :
    Nat → String → List String → FileTree → IO FileTree
  | 0, _, _, tree => return tree
  | depth + 1, path, place, tree => do
    let mut tree := tree
    for entry in ← (← IO.FS.realPath path).readDir do
      let path := Path.join path entry.fileName
      let place := place ++ [entry.fileName]
      match ← kind? path with
      | some .dir =>
        tree ← loadBelow isWanted depth path place (tree.put place .directory)
      | some .file =>
        if isWanted entry.fileName then
          tree := tree.put place (.file (← loadContent path))
      | _ => pure ()
    return tree

def load (isWanted : String → Bool) (depth : Nat) (tree : FileTree) (path : String) :
    IO FileTree := do
  let mut tree := tree
  let mut here := ""
  let mut place := []
  for name in Path.names path do
    here := Path.join here name
    place := FileTree.step place name
    match ← kind? here with
    | some .dir => tree := tree.put place .directory
    | some .file => tree := tree.put place (.file (← loadContent here))
    | _ => return tree
  if (← kind? here) matches some .dir then loadBelow isWanted depth here place tree
  else return tree

/-- More than the number of names that a path can have. -/
def anyDepth : Nat := 4096

def home? (settings : Settings) (environment : Option String) : Option String :=
  if settings.hasPlatformClasses then settings.javaHome <|> locateJavaHome environment else none

def loadHome (tree : FileTree) (home : String) : IO FileTree := do
  let tree ← load isModuleFileName 1 tree (moduleDirectory home)
  (singleArchives home).foldlM (load isModuleFileName 0) tree

def loadDestination (tree : FileTree) : Destination → IO FileTree
  | .file path => load isClassFileName 0 tree path
  | .directory path => load (·.endsWith ".h") 1 tree path
  | .standardOutput => return tree

def loadFor (command : Command) (environment : Option String) : IO FileTree := do
  let settings := command.settings
  let tree ← loadDestination .empty command.destination
  let tree ← (home? settings environment).toList.foldlM loadHome tree
  (settings.inputs ++ settings.lookups).foldlM (load (·.endsWith ".class") anyDepth) tree

def store (changes : List (String × Node)) : IO Unit :=
  changes.forM fun (path, node) =>
    match node with
    | .directory => IO.FS.createDirAll path
    | .file (.ok content) => IO.FS.writeBinFile path content
    | .file (.error _) => pure ()

end JniHeaders.Main

def main (arguments : List String) : IO UInt32 := do
  let environment ← IO.getEnv "JAVA_HOME"
  let tree ←
    match JniHeaders.CommandLine.Command.parse arguments with
    | .ok command => JniHeaders.Main.loadFor command environment
    | .error _ => pure .empty
  let outcome := JniHeaders.CommandLine.run arguments tree environment
  JniHeaders.Main.store (outcome.tree.changes tree)
  outcome.diagnostics.forM IO.eprintln
  IO.print outcome.output
  return outcome.exitCode.toUInt32
