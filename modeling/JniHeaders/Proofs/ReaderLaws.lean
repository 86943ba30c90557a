import JniHeaders.Formats
import JniHeaders.Proofs.ArchiveWindow
import JniHeaders.Proofs.ClassFileFormat

/-!
What is relied on where class files and archives are read. Readers may do more than that: they may
read class files that break a rule, and any format of archives.
-/

namespace JniHeaders

/-- Readers that keep to the rules of the formats. -/
class Formats.Lawful [Formats] : Prop where
  /-- A class file that keeps to the rules is read as it is. -/
  reads_legal : ∀ {bytes : List UInt8} {file : ClassFile}, ClassFile.Encodes bytes file →
    file.Legal → Formats.readClass bytes = some file
  /-- The classes that a class file names have names that it may hold. -/
  names_legal : ∀ {bytes : List UInt8} {file : ClassFile}, Formats.readClass bytes = some file →
    ∀ name ∈ file.names, Descriptor.IsNameText name.toList
  /-- It makes no difference where reading has come to before an archive is opened. -/
  opens_anywhere : Formats.openArchive.Oriented false

/-- An archive behind a header is opened as one in a file of its own. -/
theorem Archive.open?_behind [Formats] [Formats.Lawful] (header data : ByteArray)
    (position place : Nat) :
    Archive.open? (ArchiveFile.behind header data position) =
      Archive.open? (OpenFile.mk data place) :=
  ArchiveFile.run_behind Formats.Lawful.opens_anywhere nofun

end JniHeaders
