/-!
The text of a constant. Class files write text in a form of UTF-8 of their own: it spells NUL
with two bytes and a character beyond the first plane as the two halves of a surrogate pair,
three bytes each. Plain UTF-8 is taken as well, and first.
-/

namespace JniHeaders.ClassFile

def isContinuation (b : UInt8) : Bool := 0x80 ≤ b && b < 0xC0

def payload (b : UInt8) : Nat := b.toNat % 0x40

/-- Reads the bytes as UTF-16 units. No unit may have a shorter spelling, except NUL, which
must be spelt with two bytes. -/
def modifiedUnits : List UInt8 → Option (List Nat)
  | [] => some []
  | a :: rest =>
    if a = 0 then none
    else if a < 0x80 then (modifiedUnits rest).map (a.toNat :: ·)
    else
      match rest with
      | [] => none
      | b :: rest =>
        if !isContinuation b then none
        else if 0xC0 ≤ a && a < 0xE0 then
          let unit := a.toNat % 0x20 * 0x40 + payload b
          if unit = 0 ∨ 0x80 ≤ unit then (modifiedUnits rest).map (unit :: ·) else none
        else
          match rest with
          | [] => none
          | c :: rest =>
            if !isContinuation c then none
            else if 0xE0 ≤ a && a < 0xF0 then
              let unit := (a.toNat % 0x10 * 0x40 + payload b) * 0x40 + payload c
              if 0x800 ≤ unit then (modifiedUnits rest).map (unit :: ·) else none
            else none

def isHighSurrogate (unit : Nat) : Bool := 0xD800 ≤ unit && unit < 0xDC00

def isLowSurrogate (unit : Nat) : Bool := 0xDC00 ≤ unit && unit < 0xE000

/-- Refuses a surrogate without its partner. -/
def charsOfUnits : List Nat → Option (List Char)
  | [] => some []
  | unit :: rest =>
    if isHighSurrogate unit then
      match rest with
      | [] => none
      | low :: rest =>
        if isLowSurrogate low then
          (charsOfUnits rest).map
            (Char.ofNat (0x10000 + (unit - 0xD800) * 0x400 + (low - 0xDC00)) :: ·)
        else none
    else if isLowSurrogate unit then none
    else (charsOfUnits rest).map (Char.ofNat unit :: ·)

def textOfBytes (bytes : List UInt8) : Option String :=
  match String.fromUTF8? ⟨bytes.toArray⟩ with
  | some text => some text
  | none => ((modifiedUnits bytes).bind charsOfUnits).map String.ofList

end JniHeaders.ClassFile
