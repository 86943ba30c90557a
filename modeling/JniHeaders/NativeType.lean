import JniHeaders.Error

/-!
The types of native code and the native type of a Java type. Only references need a question
about ancestry; the one who answers may remember answers, so a question carries a state.
-/

namespace JniHeaders

inductive NativeType where
  | void | jboolean | jbyte | jchar | jshort | jint | jlong | jfloat | jdouble
  | jobject | jclass | jstring | jthrowable
  | jbooleanArray | jbyteArray | jcharArray | jshortArray | jintArray | jlongArray
  | jfloatArray | jdoubleArray | jobjectArray
  deriving DecidableEq, Repr

namespace NativeType

def cName : NativeType → String
  | void => "void"
  | jboolean => "jboolean"
  | jbyte => "jbyte"
  | jchar => "jchar"
  | jshort => "jshort"
  | jint => "jint"
  | jlong => "jlong"
  | jfloat => "jfloat"
  | jdouble => "jdouble"
  | jobject => "jobject"
  | jclass => "jclass"
  | jstring => "jstring"
  | jthrowable => "jthrowable"
  | jbooleanArray => "jbooleanArray"
  | jbyteArray => "jbyteArray"
  | jcharArray => "jcharArray"
  | jshortArray => "jshortArray"
  | jintArray => "jintArray"
  | jlongArray => "jlongArray"
  | jfloatArray => "jfloatArray"
  | jdoubleArray => "jdoubleArray"
  | jobjectArray => "jobjectArray"

def ofPrimitive : Primitive → NativeType
  | .boolean => jboolean
  | .byte => jbyte
  | .char => jchar
  | .double => jdouble
  | .float => jfloat
  | .int => jint
  | .long => jlong
  | .short => jshort
  | .void => void

def arrayOf : Primitive → NativeType
  | .boolean => jbooleanArray
  | .byte => jbyteArray
  | .char => jcharArray
  | .double => jdoubleArray
  | .float => jfloatArray
  | .int => jintArray
  | .long => jlongArray
  | .short => jshortArray
  | .void => jobjectArray

end NativeType

/-- Answers whether the first class is the second or inherits from it. The state after the
question holds also where the question fails. -/
abbrev Oracle (σ : Type) := String → String → σ → Except Error Bool × σ

variable {σ : Type}

/-- Asks for one ancestor after the other and stops at the first that the class has. -/
def classifyObject (oracle : Oracle σ) (name : String) :
    List (String × NativeType) → σ → Except Error NativeType × σ
  | [], state => (.ok .jobject, state)
  | (ancestor, native) :: others, state =>
    match oracle name ancestor state with
    | (.error cause, state) => (.error cause, state)
    | (.ok true, state) => (.ok native, state)
    | (.ok false, state) => classifyObject oracle name others state

def distinguished : List (String × NativeType) :=
  [("java.lang.String", .jstring), ("java.lang.Throwable", .jthrowable),
    ("java.lang.Class", .jclass)]

def classify (oracle : Oracle σ) : JavaType → σ → Except Error NativeType × σ
  | .primitive kind, state => (.ok (.ofPrimitive kind), state)
  | .array 1 (.primitive kind), state => (.ok (.arrayOf kind), state)
  | .array _ _, state => (.ok .jobjectArray, state)
  | .object name, state => classifyObject oracle name distinguished state

end JniHeaders
