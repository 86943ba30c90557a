import JniHeaders.Descriptor

/-!
Reading descriptors. The reader never goes back: the first character that no rule takes decides
the outcome, and running out of characters is told apart from meeting a wrong one. The bound on
array dimensions is checked last, on a descriptor that has been read to its end.
-/

namespace JniHeaders

inductive Stop where
  | endOfInput
  | unexpected
  deriving DecidableEq, Repr

inductive DescriptorError where
  | stopped (cause : Stop) (text : String)
  | trailing (rest text : String)
  | dimensions (count : Nat) (text : String)
  deriving DecidableEq, Repr

namespace Descriptor

def maxDimensions : Nat := 255

def isUnqualified (c : Char) : Bool := c ≠ '.' && c ≠ ';' && c ≠ '[' && c ≠ '/'

/-- Reads a class name and the semicolon after it. `fresh` says that the current segment has
no character yet, so that neither a slash nor the semicolon may follow. -/
def className (fresh : Bool) : List Char → Except Stop (List Char × List Char)
  | [] => .error .endOfInput
  | c :: rest =>
    if isUnqualified c then
      match className false rest with
      | .ok (name, rest) => .ok (c :: name, rest)
      | .error stop => .error stop
    else if fresh then .error .unexpected
    else if c = '/' then
      match className true rest with
      | .ok (name, rest) => .ok ('.' :: name, rest)
      | .error stop => .error stop
    else if c = ';' then .ok ([], rest)
    else .error .unexpected

def fieldType : List Char → Except Stop (JavaType × List Char)
  | [] => .error .endOfInput
  | c :: rest =>
    if c = '[' then
      match fieldType rest with
      | .ok (element, rest) => .ok (element.nest, rest)
      | .error stop => .error stop
    else if c = 'L' then
      match className true rest with
      | .ok (name, rest) => .ok (.object (String.ofList name), rest)
      | .error stop => .error stop
    else
      match Primitive.ofCode? c with
      | none | some .void => .error .unexpected
      | some kind => .ok (.primitive kind, rest)

def returnType : List Char → Except Stop (JavaType × List Char)
  | 'V' :: rest => .ok (.primitive .void, rest)
  | input => fieldType input

theorem className_length {fresh : Bool} {input name rest : List Char}
    (h : className fresh input = .ok (name, rest)) : rest.length < input.length := by
  induction input generalizing fresh name with
  | nil => simp [className] at h
  | cons c tail ih =>
    unfold className at h
    split at h
    · split at h
      · rename_i found
        cases h
        exact Nat.lt_succ_of_lt (ih found)
      · cases h
    · split at h
      · cases h
      · split at h
        · split at h
          · rename_i found
            cases h
            exact Nat.lt_succ_of_lt (ih found)
          · cases h
        · split at h
          · cases h
            exact Nat.lt_succ_self _
          · cases h

theorem fieldType_length {input rest : List Char} {type : JavaType}
    (h : fieldType input = .ok (type, rest)) : rest.length < input.length := by
  induction input generalizing type with
  | nil => simp [fieldType] at h
  | cons c tail ih =>
    unfold fieldType at h
    split at h
    · split at h
      · rename_i found
        cases h
        exact Nat.lt_succ_of_lt (ih found)
      · cases h
    · split at h
      · split at h
        · rename_i found
          cases h
          exact Nat.lt_succ_of_lt (className_length found)
        · cases h
      · split at h
        · cases h
        · cases h
        · cases h
          exact Nat.lt_succ_self _

/-- Reads types up to the closing parenthesis, which it takes too. -/
def parameters (input : List Char) : Except Stop (List JavaType × List Char) :=
  if input.head? = some ')' then .ok ([], input.tail)
  else
    match _found : fieldType input with
    | .error stop => .error stop
    | .ok (type, rest) =>
      match parameters rest with
      | .error stop => .error stop
      | .ok (types, rest) => .ok (type :: types, rest)
termination_by input.length
decreasing_by exact fieldType_length _found

def signature : List Char → Except Stop (MethodSignature × List Char)
  | [] => .error .endOfInput
  | c :: rest =>
    if c = '(' then
      match parameters rest with
      | .error stop => .error stop
      | .ok (types, rest) =>
        match returnType rest with
        | .error stop => .error stop
        | .ok (result, rest) => .ok (⟨types, result⟩, rest)
    else .error .unexpected

def complete {α : Type} (read : List Char → Except Stop (α × List Char)) (text : String) :
    Except DescriptorError α :=
  match read text.toList with
  | .error stop => .error (.stopped stop text)
  | .ok (value, []) => .ok value
  | .ok (_, rest) => .error (.trailing (String.ofList rest) text)

def excess? : List JavaType → Option Nat
  | [] => none
  | .array dimensions _ :: types =>
    if maxDimensions < dimensions then some dimensions else excess? types
  | _ :: types => excess? types

end Descriptor

open Descriptor

def JavaType.parse (text : String) : Except DescriptorError JavaType :=
  match complete returnType text with
  | .error cause => .error cause
  | .ok type =>
    match excess? [type] with
    | some count => .error (.dimensions count text)
    | none => .ok type

def MethodSignature.parse (text : String) : Except DescriptorError MethodSignature :=
  match complete signature text with
  | .error cause => .error cause
  | .ok signature =>
    match excess? (signature.parameters ++ [signature.result]) with
    | some count => .error (.dimensions count text)
    | none => .ok signature

namespace DescriptorError

def message : DescriptorError → String
  | stopped .endOfInput text => "'" ++ text ++ "': unexpected end of input"
  | stopped .unexpected text => "'" ++ text ++ "': unexpected parse"
  | trailing rest text => "trailing input '" ++ rest ++ "' while parsing '" ++ text ++ "'"
  | dimensions count text =>
    "'" ++ text ++ "': array has " ++ toString count ++ " dimensions, at most "
      ++ toString maxDimensions ++ " are allowed"

end DescriptorError

end JniHeaders
