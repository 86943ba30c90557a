import JniHeaders.Error

/-!
Archives as they are when they have been opened: members with their names, to be unpacked one by
one.
-/

namespace JniHeaders

/-- A member that can't be opened has no content. One that can may still turn out to be damaged
while it is unpacked. -/
structure Archive.Member where
  name : String
  /-- Whether it is a file, as opposed to a directory or a link. -/
  isFile : Bool
  content : Thunk (Option (Except FileError (List UInt8)))

structure Archive where
  members : List Archive.Member

namespace Archive

def find? (archive : Archive) (name : String) : Option Member :=
  archive.members.find? (·.name = name)

def slice (data : ByteArray) (start length : Nat) : List UInt8 :=
  (data.extract start (start + length)).toList

/-- The bytes that an archive begins with, unless it is empty. -/
def localSignature : List UInt8 := [0x50, 0x4B, 3, 4]

end Archive

end JniHeaders
