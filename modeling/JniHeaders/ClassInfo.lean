/-!
What a header needs to know about a compiled class. Names are qualified: their segments are
separated by dots.
-/

namespace JniHeaders

structure MethodInfo where
  name : String
  descriptor : String
  isStatic : Bool
  isNative : Bool
  deriving DecidableEq, Repr

structure ClassInfo where
  name : String
  superclass : Option String
  interfaces : List String
  isInterface : Bool
  methods : List MethodInfo
  deriving DecidableEq, Repr

namespace ClassInfo

def nativeMethods (info : ClassInfo) : List MethodInfo := info.methods.filter (·.isNative)

end ClassInfo

/-- Class files name a class with slashes. -/
def qualifiedName (internal : String) : String :=
  String.ofList (internal.toList.map fun c => if c = '/' then '.' else c)

def classPathName (qualified : String) : String :=
  String.ofList
    (qualified.toList.map (fun c => if c = '.' then '/' else c) ++ ".class".toList)

end JniHeaders
