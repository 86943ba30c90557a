import JniHeaders.FileTree
import JniHeaders.Formats
import JniHeaders.Notice

/-!
Reading the classes of an input: a class file, an archive or a directory. In an archive or a
directory a class that can't be read is reported and left out.
-/

namespace JniHeaders

variable [Formats]

/-- Whether a member or file of this name is read as a class. Descriptions of modules and
packages declare nothing, and what lies under `META-INF` is not part of the class tree. -/
def isClassFileName (name : String) : Bool :=
  let text := name.toList
  ".class".toList.isSuffixOf text && !"META-INF/".toList.isPrefixOf text &&
    !"module-info.class".toList.isSuffixOf text && !"package-info.class".toList.isSuffixOf text

def parseClass (bytes : List UInt8) : Except Error ClassInfo :=
  match ClassFile.read bytes with
  | some info => .ok info
  | none => .error .badClassFile

theorem parseClass_eq_ok_iff {bytes : List UInt8} {info : ClassInfo} :
    parseClass bytes = .ok info ↔ ClassFile.read bytes = some info := by
  unfold parseClass
  cases ClassFile.read bytes <;> simp

namespace Archive

/-- It has to be possible to open every member, also one that is not read. -/
def readMember (origin : String) (member : Member) : Reported (Option ClassInfo) :=
  match member.content.get with
  | none => ⟨[], .error .badArchive⟩
  | some content =>
    if member.isFile && isClassFileName member.name then
      match content with
      | .error cause => ⟨[], .error (.file cause)⟩
      | .ok bytes =>
        match parseClass bytes with
        | .ok info => ⟨[], .ok (some info)⟩
        | .error cause => ⟨[.skippedMember origin member.name cause], .ok none⟩
    else ⟨[], .ok none⟩

def readMembers (origin : String) : List Member → Reported (List ClassInfo)
  | [] => ⟨[], .ok []⟩
  | member :: members => do
    let found ← readMember origin member
    let others ← readMembers origin members
    return found.toList ++ others

def readClasses (archive : Archive) (origin : String) : Reported (List ClassInfo) :=
  readMembers origin archive.members

end Archive

def readArchive (path : String) (data : ByteArray) : Reported (List ClassInfo) :=
  match Archive.open? (OpenFile.mk data 0) with
  | none => ⟨[], .error .badArchive⟩
  | some archive => archive.readClasses path

def parseContent : Content → Except Error ClassInfo
  | .error cause => .error (.file cause)
  | .ok data => parseClass data.toList

namespace FileTree

def readClassFile (tree : FileTree) (path : String) : Except Error ClassInfo :=
  parseContent (tree.read path)

def readJar (tree : FileTree) (path : String) : Reported (List ClassInfo) :=
  match tree.read path with
  | .error .isADirectory => ⟨[], .error .badArchive⟩
  | .error cause => ⟨[], .error (.file cause)⟩
  | .ok data => readArchive path data

def readFiles : List (String × String × Content) → Reported (List ClassInfo)
  | [] => ⟨[], .ok []⟩
  | (path, name, content) :: files =>
    let rest := readFiles files
    if isClassFileName name then
      match parseContent content with
      | .ok info => ⟨rest.notices, rest.result.map (info :: ·)⟩
      | .error cause => ⟨.skippedFile path cause :: rest.notices, rest.result⟩
    else rest

/-- The files that a walk from a path meets. A walk from a file meets that file only. -/
def walk (tree : FileTree) (path : String) :
    Except FileError (List (String × String × Content)) :=
  match tree.find path with
  | .error cause => .error cause
  | .ok (_, .file content) => .ok [(path, Path.fileName path, content)]
  | .ok (place, .directory) =>
    .ok ((tree.filesBelow place).map fun (names, content) =>
      (Path.joinAll path names, names.getLast?.getD "", content))

def readDirectory (tree : FileTree) (path : String) : Reported (List ClassInfo) :=
  match tree.walk path with
  | .error cause => ⟨[], .error (.file cause)⟩
  | .ok files => readFiles files

def classMagic : List UInt8 := [0xCA, 0xFE, 0xBA, 0xBE]

/-- What an input is, is told from the file system and from its first four bytes. -/
def readInput (tree : FileTree) (path : String) : Reported (List ClassInfo) :=
  if tree.isDirectory path then tree.readDirectory path
  else
    match tree.read path with
    | .error cause => ⟨[], .error (.file cause)⟩
    | .ok data =>
      let magic := Archive.slice data 0 4
      if magic = classMagic then ⟨[], (parseClass data.toList).map ([·])⟩
      else if magic = Archive.localSignature then readArchive path data
      else ⟨[], .error (.notAnInput path)⟩

end FileTree

end JniHeaders
