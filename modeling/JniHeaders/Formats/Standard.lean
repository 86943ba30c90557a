import JniHeaders.Archive.Zip
import JniHeaders.ClassFile.Decoder
import JniHeaders.Formats

/-!
The readers that the program runs with.
-/

namespace JniHeaders

/-- Loads a file from its first byte on, wherever reading has come to. -/
def FileAccess.load {α : Type} (failed : α) (next : ByteArray → α) : FileAccess α :=
  .seek (.fromEnd 0) fun
    | none => .done failed
    | some size => .seek (.start 0) fun
      | none => .done failed
      | some _ => .read size fun bytes => .done (next bytes)

instance : Formats where
  readClass := ClassFile.decode
  openArchive := .load none Zip.open?

end JniHeaders
