import JniHeaders.Descriptor.Parser

/-!
Which names and descriptors a class file may hold. Members have stricter descriptors than the
descriptor reader: no angle brackets in class names. They are also laxer at the end, where text
after a complete type is passed over.
-/

namespace JniHeaders.ClassFile

open Descriptor

def isUnqualifiedName (name : String) : Bool :=
  !name.toList.isEmpty && name.toList.all isUnqualified

/-- Whether the text is segments without a dot, semicolon or bracket, separated by single
slashes. `fresh` says that the current segment is still empty. -/
def isBinaryText (fresh : Bool) : List Char → Bool
  | [] => !fresh
  | c :: rest => if c = '/' then !fresh && isBinaryText true rest
    else isUnqualified c && isBinaryText false rest

def isBinaryName (name : String) : Bool := isBinaryText true name.toList

/-- The name of a class proper, as opposed to an array. -/
def isClassName (name : String) : Bool :=
  name.toList.all fun c => c ≠ '.' && c ≠ ';' && c ≠ '[' && c ≠ '<' && c ≠ '>'

/-- Whether colons and at signs are escaped and each backslash escapes something. -/
def isModuleText : List Char → Bool
  | [] => true
  | '\\' :: c :: rest => (c = '\\' || c = ':' || c = '@') && isModuleText rest
  | c :: rest => 0x20 ≤ c.toNat && c ≠ '\\' && c ≠ ':' && c ≠ '@' && isModuleText rest

def isModuleName (name : String) : Bool := isModuleText name.toList

def isMemberType : JavaType → Bool
  | .primitive _ => true
  | .object name => name.toList.all fun c => c ≠ '<' && c ≠ '>'
  | .array dimensions element => dimensions ≤ maxDimensions && isMemberType element

def fieldOf? (text : List Char) : Option (JavaType × List Char) :=
  match fieldType text with
  | .ok (type, rest) => if isMemberType type then some (type, rest) else none
  | .error _ => none

/-- Reads the signature of a method and leaves the text after it. Nothing may follow void. -/
def methodOf? : List Char → Option (MethodSignature × List Char)
  | '(' :: text =>
    match parameters text with
    | .ok (types, rest) =>
      if !types.all isMemberType then none
      else if rest = ['V'] then some (⟨types, .primitive .void⟩, [])
      else (fieldOf? rest).map fun (result, rest) => (⟨types, result⟩, rest)
    | .error _ => none
  | _ => none

def isFieldDescriptor (text : String) : Bool :=
  match fieldOf? text.toList with
  | some (_, []) => true
  | _ => false

def isMethodDescriptor (text : String) : Bool :=
  match methodOf? text.toList with
  | some (_, []) => true
  | _ => false

def isArrayDescriptor (text : String) : Bool :=
  text.toList.head? = some '[' && isFieldDescriptor text

end JniHeaders.ClassFile
