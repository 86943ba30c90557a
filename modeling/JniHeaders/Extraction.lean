import JniHeaders.ClassInfo
import JniHeaders.NativeType
import JniHeaders.Notice
import JniHeaders.Symbol

/-!
The native methods of a batch of classes. A method that can't be declared is set aside with the
reason and takes nothing else with it; its short symbol is still known.
-/

namespace JniHeaders

structure NativeMethod where
  className : String
  methodName : String
  signature : MethodSignature
  descriptor : String
  isStatic : Bool
  result : NativeType
  parameters : List NativeType
  symbol : Symbol
  deriving DecidableEq, Repr

structure SkippedMethod where
  className : String
  methodName : String
  descriptor : String
  shortName : String
  cause : Error
  deriving DecidableEq, Repr

structure Extraction where
  classes : List String
  methods : List NativeMethod
  skipped : List SkippedMethod
  deriving DecidableEq, Repr

variable {σ : Type}

def classifyAll (oracle : Oracle σ) : List JavaType → σ → Except Error (List NativeType) × σ
  | [], state => (.ok [], state)
  | type :: types, state =>
    match classify oracle type state with
    | (.error cause, state) => (.error cause, state)
    | (.ok native, state) =>
      match classifyAll oracle types state with
      | (.error cause, state) => (.error cause, state)
      | (.ok natives, state) => (.ok (native :: natives), state)

/-- The first problem decides: the descriptor, then the result, then the parameters in order. -/
def NativeMethod.of (oracle : Oracle σ) (className : String) (method : MethodInfo) (state : σ) :
    Except Error NativeMethod × σ :=
  match MethodSignature.parse method.descriptor with
  | .error cause => (.error (.badDescriptor cause), state)
  | .ok signature =>
    match classify oracle signature.result state with
    | (.error cause, state) => (.error cause, state)
    | (.ok result, state) =>
      match classifyAll oracle signature.parameters state with
      | (.error cause, state) => (.error cause, state)
      | (.ok parameters, state) =>
        (.ok {
          className := className
          methodName := method.name
          signature := signature
          descriptor := signature.encode
          isStatic := method.isStatic
          result := result
          parameters := parameters
          symbol := Symbol.mangle className method.name signature.parameters }, state)

def SkippedMethod.of (className : String) (method : MethodInfo) (cause : Error) :
    SkippedMethod where
  className := className
  methodName := method.name
  descriptor := method.descriptor
  shortName := Symbol.shortName className method.name
  cause := cause

def SkippedMethod.notice (method : SkippedMethod) : Notice :=
  .skippedMethod method.className method.methodName method.descriptor method.cause

namespace Extraction

def candidates (classes : List ClassInfo) : List (String × MethodInfo) :=
  classes.flatMap fun info => info.nativeMethods.map fun method => (info.name, method)

def add (result : Except Error NativeMethod) (className : String) (method : MethodInfo)
    (extraction : Extraction) : Extraction :=
  match result with
  | .ok record => { extraction with methods := record :: extraction.methods }
  | .error cause =>
    { extraction with skipped := .of className method cause :: extraction.skipped }

def collect (oracle : Oracle σ) (names : List String) :
    List (String × MethodInfo) → σ → Extraction × σ
  | [], state => (⟨names, [], []⟩, state)
  | (className, method) :: others, state =>
    match NativeMethod.of oracle className method state with
    | (result, state) =>
      match collect oracle names others state with
      | (extraction, state) => (extraction.add result className method, state)

def of (oracle : Oracle σ) (classes : List ClassInfo) (state : σ) : Extraction × σ :=
  collect oracle (classes.map (·.name)) (candidates classes) state

def notices (extraction : Extraction) : List Notice := extraction.skipped.map (·.notice)

def isEmpty (extraction : Extraction) : Bool := extraction.classes.isEmpty

end Extraction

end JniHeaders
