import JniHeaders.Archive
import JniHeaders.Archive.File
import JniHeaders.ClassFile

/-!
The two formats that are read. How their bytes are understood is left to readers.
-/

namespace JniHeaders

/-- Readers of class files and of archives. An archive is opened by going about in its file. -/
class Formats where
  readClass : List UInt8 → Option ClassFile
  openArchive : FileAccess (Option Archive)

def ClassFile.read [Formats] (bytes : List UInt8) : Option ClassInfo :=
  (Formats.readClass bytes).map (·.info)

def Archive.open? {φ : Type} [Formats] [Seekable φ] (file : φ) : Option Archive :=
  Formats.openArchive.run file

end JniHeaders
