import JniHeaders.FileTree
import JniHeaders.Header.Emission

/-!
Headers that are ready to be rendered or written. A write that fails leaves its target as it
was, and what has been written before it stays.
-/

namespace JniHeaders

structure Headers where
  extraction : Extraction
  options : HeaderOptions
  deriving DecidableEq, Repr

namespace Headers

def merged (headers : Headers) : Header := headers.extraction.merged headers.options

def perClass (headers : Headers) : List (String × Header) :=
  headers.extraction.perClass headers.options

def render (headers : Headers) : String := headers.merged.render

def writeFile (headers : Headers) (path : String) (tree : FileTree) :
    Reported Unit × FileTree :=
  let notices := headers.extraction.mergedNotices
  match tree.write path headers.render.toUTF8 with
  | .error cause => (⟨notices, .error (.file cause)⟩, tree)
  | .ok tree => (⟨notices ++ [.wroteFile headers.merged.declarations.length path], .ok ()⟩, tree)

def headerPath (directory stem : String) : String := Path.join directory (stem ++ ".h")

/-- Writes headers up to the first that can't be written. -/
def writeEach (refuses : FileTree.Refusals) (directory : String) :
    List (String × Header) → FileTree → Except FileError (List String) × FileTree
  | [], tree => (.ok [], tree)
  | (stem, header) :: others, tree =>
    let path := headerPath directory stem
    match tree.writeUnless refuses path header.render.toUTF8 with
    | .error cause => (.error cause, tree)
    | .ok tree =>
      match writeEach refuses directory others tree with
      | (.error cause, tree) => (.error cause, tree)
      | (.ok paths, tree) => (.ok (path :: paths), tree)

def writeDirectoryUnless (refuses : FileTree.Refusals) (headers : Headers) (directory : String)
    (tree : FileTree) : Reported (List String) × FileTree :=
  match tree.createDirectory directory with
  | (.error cause, tree) => (⟨[], .error (.file cause)⟩, tree)
  | (.ok (), tree) =>
    let notices := headers.extraction.perClassNotices
    match writeEach refuses directory headers.perClass tree with
    | (.error cause, tree) => (⟨notices, .error (.file cause)⟩, tree)
    | (.ok paths, tree) =>
      (⟨notices ++ [.wroteDirectory paths.length directory], .ok paths⟩, tree)

/-- A tree by itself refuses nothing that can be written. -/
def writeDirectory (headers : Headers) (directory : String) (tree : FileTree) :
    Reported (List String) × FileTree :=
  headers.writeDirectoryUnless (fun _ _ => none) directory tree

end Headers

end JniHeaders
