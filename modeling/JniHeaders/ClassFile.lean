import JniHeaders.ClassInfo

/-!
A class as a class file describes it, with slashes in its names and with its flags as numbers, and
what is kept of it.
-/

namespace JniHeaders

structure ClassFile.Member where
  flags : Nat
  name : String
  descriptor : String
  deriving DecidableEq, Repr

structure ClassFile where
  flags : Nat
  name : String
  superclass : Option String
  interfaces : List String
  methods : List ClassFile.Member
  deriving DecidableEq, Repr

namespace ClassFile

def hasFlag (flags bit : Nat) : Bool := flags / bit % 2 = 1

def Member.info (method : Member) : MethodInfo where
  name := method.name
  descriptor := method.descriptor
  isStatic := hasFlag method.flags 0x0008
  isNative := hasFlag method.flags 0x0100

def info (file : ClassFile) : ClassInfo where
  name := qualifiedName file.name
  superclass := file.superclass.map qualifiedName
  interfaces := file.interfaces.map qualifiedName
  isInterface := hasFlag file.flags 0x0200
  methods := file.methods.map (·.info)

end ClassFile

end JniHeaders
