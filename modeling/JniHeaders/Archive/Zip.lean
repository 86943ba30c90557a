import JniHeaders.Archive
import JniHeaders.Archive.Checksum
import JniHeaders.Archive.Inflate

/-!
The format of archives: members one after the other, a directory of them, and a record that says
where the directory is. The record is looked for from the end, since a comment may follow it.
Bytes in front of the archive shift every place that the directory states.
-/

namespace JniHeaders.Zip

open Archive

def littleEndian (bytes : List UInt8) : Nat :=
  bytes.foldr (fun byte value => byte.toNat + 0x100 * value) 0

def field (data : ByteArray) (start length : Nat) : Nat := littleEndian (slice data start length)

def directorySignature : List UInt8 := [0x50, 0x4B, 1, 2]
def endSignature : List UInt8 := [0x50, 0x4B, 5, 6]

structure Entry where
  name : String
  isLink : Bool
  isEncrypted : Bool
  method : Nat
  checksum : Nat
  packedSize : Nat
  position : Nat
  deriving DecidableEq, Repr

/-- A byte that is no text stands for an unknown character. -/
def entryName (bytes : List UInt8) : String :=
  (String.fromUTF8? ⟨bytes.toArray⟩).getD
    (String.ofList (bytes.map fun b => if b < 0x80 then Char.ofNat b.toNat else '\uFFFD'))

def isLinkMode (system attributes : Nat) : Bool :=
  system = 3 && attributes / 0x10000 &&& 0xA000 = 0xA000

def entryAt? (data : ByteArray) (start position : Nat) : Option (Entry × Nat) :=
  let nameSize := field data (position + 28) 2
  let next := position + 46 + nameSize + field data (position + 30) 2 +
    field data (position + 32) 2
  if slice data position 4 = directorySignature ∧ next ≤ data.size then
    some ({
      name := entryName (slice data (position + 46) nameSize)
      isLink := isLinkMode (field data (position + 5) 1) (field data (position + 38) 4)
      isEncrypted := field data (position + 8) 2 % 2 = 1
      method := field data (position + 10) 2
      checksum := field data (position + 16) 4
      packedSize := field data (position + 20) 4
      position := start + field data (position + 42) 4 }, next)
  else none

def entries? (data : ByteArray) (start : Nat) : Nat → Nat → Option (List Entry)
  | 0, _ => some []
  | n + 1, position => do
    let (entry, next) ← entryAt? data start position
    let entries ← entries? data start n next
    return entry :: entries

/-- Of two entries with one name the later counts, in the place of the earlier. -/
def addEntry (entries : List Entry) (entry : Entry) : List Entry :=
  if entries.any (·.name = entry.name) then
    entries.map fun old => if old.name = entry.name then entry else old
  else entries ++ [entry]

def directoryFrom? (data : ByteArray) : Nat → Nat → Option Nat
  | 0, _ => none
  | n + 1, position =>
    if slice data position 4 = directorySignature then some position
    else directoryFrom? data n (position + 1)

def directoryAt? (data : ByteArray) (position : Nat) : Option (List Entry) :=
  let count := field data (position + 8) 2
  let stated := field data (position + 16) 4
  if slice data position 4 = endSignature ∧ position + 22 ≤ data.size ∧
      position + 22 + field data (position + 20) 2 ≤ data.size then
    if count = 0 then some []
    else if field data (position + 4) 2 = field data (position + 6) 2 then do
      let directory ← directoryFrom? data (position - stated) stated
      let entries ← entries? data (directory - stated) count directory
      return entries.foldl addEntry []
    else none
  else none

/-- Looks for the record at ever earlier places. -/
def directoryBefore? (data : ByteArray) : Nat → Option (List Entry)
  | 0 => none
  | n + 1 =>
    match directoryAt? data n with
    | some entries => some entries
    | none => directoryBefore? data n

/-- The packed bytes of a member, if it has a header of its own and can be unpacked. -/
def packed? (data : ByteArray) (entry : Entry) : Option (List UInt8) :=
  let size := 30 + field data (entry.position + 26) 2 + field data (entry.position + 28) 2
  if slice data entry.position 4 = localSignature ∧ entry.position + 30 ≤ data.size ∧
      entry.isEncrypted = false ∧ (entry.method = 0 ∨ entry.method = 8) then
    some (slice data (entry.position + size) entry.packedSize)
  else none

def unpack (entry : Entry) (packed : List UInt8) : Except FileError (List UInt8) :=
  match if entry.method = 0 then some packed else inflate packed with
  | none => .error .invalidData
  | some content =>
    if (Archive.checksum content).toNat = entry.checksum then .ok content
    else .error .invalidData

def Entry.member (data : ByteArray) (entry : Entry) : Member where
  name := entry.name
  isFile := !entry.isLink && entry.name.toList.getLast?.all fun c => c ≠ '/' && c ≠ '\\'
  content := ⟨fun _ => (packed? data entry).map (unpack entry)⟩

def open? (data : ByteArray) : Option Archive :=
  (directoryBefore? data data.size).map fun entries => ⟨entries.map (·.member data)⟩

end JniHeaders.Zip
