/-!
The checksum of an archive member: the remainder of its bits, lowest first, by a fixed
polynomial over two elements.
-/

namespace JniHeaders.Archive

def checksumBit (sum : UInt32) : UInt32 :=
  if sum % 2 = 1 then (sum / 2) ^^^ 0xEDB88320 else sum / 2

def checksumByte (sum : UInt32) (byte : UInt8) : UInt32 :=
  Nat.repeat checksumBit 8 (sum ^^^ byte.toUInt32)

def checksum (bytes : List UInt8) : UInt32 :=
  bytes.foldl checksumByte 0xFFFFFFFF ^^^ 0xFFFFFFFF

end JniHeaders.Archive
