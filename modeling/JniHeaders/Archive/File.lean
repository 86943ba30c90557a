/-!
Files that are read at places. Whoever reads an archive goes to places in a file and reads on from
there. An archive behind a header is read as if the header were not there: places that count from
the start are shifted on the way in, and all places on the way out.
-/

namespace JniHeaders

inductive SeekFrom where
  | start (place : Nat)
  | fromEnd (distance : Int)
  | current (distance : Int)
  deriving DecidableEq, Repr

namespace SeekFrom

/-- The place that is meant in a file. There is none before the first byte. -/
def place? (size position : Nat) : SeekFrom → Option Nat
  | start place => some place
  | fromEnd distance => (size + distance).toNat?
  | current distance => (position + distance).toNat?

/-- Only a place that counts from the start changes. -/
def shift (offset : Nat) : SeekFrom → SeekFrom
  | start place => start (place + offset)
  | relative => relative

end SeekFrom

/-- What can be read at places. A seek says where it leads, unless it fails. -/
class Seekable (φ : Type) where
  read : Nat → φ → ByteArray × φ
  seek : SeekFrom → φ → Option Nat × φ

structure OpenFile where
  contents : ByteArray
  position : Nat

/-- A file of which an archive is all that follows an offset. -/
structure ArchiveFile where
  file : OpenFile
  offset : Nat

instance : Seekable OpenFile where
  read length file :=
    let bytes := file.contents.extract file.position (file.position + length)
    (bytes, { file with position := file.position + bytes.size })
  seek target file :=
    match target.place? file.contents.size file.position with
    | none => (none, file)
    | some place => (some place, { file with position := place })

/-- A place before the offset is reported as an error, although the file has been moved to it. -/
instance : Seekable ArchiveFile where
  read length archive :=
    let (bytes, file) := Seekable.read length archive.file
    (bytes, { archive with file := file })
  seek target archive :=
    match Seekable.seek (target.shift archive.offset) archive.file with
    | (none, file) => (none, { archive with file := file })
    | (some place, file) =>
      (if archive.offset ≤ place then some (place - archive.offset) else none,
        { archive with file := file })

/-- A program that reads a file. What it does next depends on what it has seen. -/
inductive FileAccess (α : Type) where
  | done (result : α)
  | read (length : Nat) (next : ByteArray → FileAccess α)
  | seek (target : SeekFrom) (next : Option Nat → FileAccess α)

def FileAccess.run {α φ : Type} [Seekable φ] : FileAccess α → φ → α
  | done result, _ => result
  | read length next, file =>
    let (bytes, file) := Seekable.read length file
    (next bytes).run file
  | seek target next, file =>
    let (place, file) := Seekable.seek target file
    (next place).run file

end JniHeaders
