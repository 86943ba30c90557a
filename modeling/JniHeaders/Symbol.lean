import JniHeaders.Descriptor

/-!
Exported symbols. A name is written with ASCII letters, digits and underscores only: an
underscore followed by a digit is an escape, any other underscore separates two parts.
-/

namespace JniHeaders

structure Symbol where
  short : String
  long : String
  deriving DecidableEq, Repr

namespace Symbol

def utf16Units (c : Char) : List Nat :=
  if c.toNat < 0x10000 then [c.toNat]
  else [0xD800 + (c.toNat - 0x10000) / 0x400, 0xDC00 + (c.toNat - 0x10000) % 0x400]

def hexDigits4 (n : Nat) : List Char :=
  [n / 0x1000 % 16, n / 0x100 % 16, n / 0x10 % 16, n % 16].map Nat.digitChar

def escapeChar (c : Char) : List Char :=
  if c = '_' then ['_', '1']
  else if c = ';' then ['_', '2']
  else if c = '[' then ['_', '3']
  else if c.isAlphanum then [c]
  else (utf16Units c).flatMap fun unit => '_' :: '0' :: hexDigits4 unit

/-- The dot between two segments becomes a bare underscore. -/
def mangleChar (c : Char) : List Char := if c = '.' then ['_'] else escapeChar c

def escapeText (s : String) : List Char := s.toList.flatMap escapeChar

def mangleText (s : String) : List Char := s.toList.flatMap mangleChar

def typeText : JavaType → List Char
  | .primitive kind => [kind.code]
  | .object name => 'L' :: mangleText name ++ ['_', '2']
  | .array dimensions element =>
    (List.replicate dimensions ['_', '3']).flatten ++ typeText element

def parameterText (types : List JavaType) : List Char := types.flatMap typeText

def shortText (className methodName : String) : List Char :=
  "Java_".toList ++ mangleText className ++ '_' :: escapeText methodName

def longText (className methodName : String) (types : List JavaType) : List Char :=
  shortText className methodName ++ '_' :: '_' :: parameterText types

def escape (s : String) : String := String.ofList (escapeText s)

def mangleName (s : String) : String := String.ofList (mangleText s)

def mangleParameters (types : List JavaType) : String := String.ofList (parameterText types)

def shortName (className methodName : String) : String :=
  String.ofList (shortText className methodName)

/-- The result type takes no part in a symbol. -/
def longName (className methodName : String) (types : List JavaType) : String :=
  String.ofList (longText className methodName types)

def mangle (className methodName : String) (types : List JavaType) : Symbol :=
  ⟨shortName className methodName, longName className methodName types⟩

end Symbol

end JniHeaders
