/-!
Types as they appear in field and method descriptors, and the descriptor text of a type and of
a method signature. Names of classes are kept dotted; the text has slashes.
-/

namespace JniHeaders

inductive Primitive where
  | boolean | byte | char | double | float | int | long | short | void
  deriving DecidableEq, Repr

namespace Primitive

def code : Primitive → Char
  | boolean => 'Z'
  | byte => 'B'
  | char => 'C'
  | double => 'D'
  | float => 'F'
  | int => 'I'
  | long => 'J'
  | short => 'S'
  | void => 'V'

def ofCode? : Char → Option Primitive
  | 'Z' => some boolean
  | 'B' => some byte
  | 'C' => some char
  | 'D' => some double
  | 'F' => some float
  | 'I' => some int
  | 'J' => some long
  | 'S' => some short
  | 'V' => some void
  | _ => none

end Primitive

/-- The parser makes arrays of one dimension or more whose element is neither an array nor
void. The type itself allows any other, so that every value has a text. -/
inductive JavaType where
  | primitive (kind : Primitive)
  | object (name : String)
  | array (dimensions : Nat) (element : JavaType)
  deriving DecidableEq, Repr

namespace JavaType

/-- The type of an array of this type, where an array gets one more dimension. -/
def nest : JavaType → JavaType
  | array dimensions element => array (dimensions + 1) element
  | element => array 1 element

def nested (element : JavaType) : Nat → JavaType
  | 0 => element
  | n + 1 => (element.nested n).nest

def isVoid (type : JavaType) : Bool := type == primitive .void

def text : JavaType → List Char
  | primitive kind => [kind.code]
  | object name => 'L' :: name.toList.map (fun c => if c = '.' then '/' else c) ++ [';']
  | array dimensions element => List.replicate dimensions '[' ++ element.text

def encode (type : JavaType) : String := String.ofList type.text

end JavaType

structure MethodSignature where
  parameters : List JavaType
  result : JavaType
  deriving DecidableEq, Repr

namespace MethodSignature

def text (signature : MethodSignature) : List Char :=
  '(' :: signature.parameters.flatMap JavaType.text ++ ')' :: signature.result.text

def encode (signature : MethodSignature) : String := String.ofList signature.text

end MethodSignature

end JniHeaders
