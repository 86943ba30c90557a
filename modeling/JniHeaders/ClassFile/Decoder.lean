import JniHeaders.ClassFile
import JniHeaders.ClassFile.ConstantPool

/-!
Decoding a class file. A class file is accepted whole or refused: it has to end where its last
attribute ends, members may not repeat, and its flags, names and descriptors have to fit.
-/

namespace JniHeaders.ClassFile

structure Attribute where
  name : String
  content : Bytes
  deriving DecidableEq, Repr

def fixedSize? (name : String) : Option Nat :=
  if name = "Deprecated" ∨ name = "Synthetic" then some 0
  else if name = "SourceFile" ∨ name = "Signature" ∨ name = "ConstantValue" then some 2
  else none

def readAttribute (pool : Pool) (bytes : Bytes) : Option (Attribute × Bytes) := do
  let (slot, bytes) ← u2 bytes
  let name ← pool.text? slot
  let (length, bytes) ← u4 bytes
  let (content, bytes) ← block length bytes
  if (fixedSize? name).all (· = length) then return (⟨name, content⟩, bytes) else none

def readMember (pool : Pool) (bytes : Bytes) : Option (Member × Bytes) := do
  let (flags, bytes) ← u2 bytes
  let (nameSlot, bytes) ← u2 bytes
  let (descriptorSlot, bytes) ← u2 bytes
  let name ← pool.text? nameSlot
  let descriptor ← pool.text? descriptorSlot
  let (_, bytes) ← counted (readAttribute pool) bytes
  return (⟨flags, name, descriptor⟩, bytes)

def Member.fieldKey? (field : Member) : Option (String × JavaType) :=
  if isUnqualifiedName field.name then
    (fieldOf? field.descriptor.toList).map fun (type, _) => (field.name, type)
  else none

def isMethodName (isInterface : Bool) (name : String) : Bool :=
  name = "<clinit>" || (name = "<init>" && !isInterface) ||
    (isUnqualifiedName name && name.toList.all fun c => c ≠ '<' && c ≠ '>')

def fitsName (major : Nat) (name : String) (signature : MethodSignature) : Bool :=
  if name = "<init>" then signature.result.isVoid
  else if name = "<clinit>" then
    signature.result.isVoid && (major < 51 || signature.parameters.isEmpty)
  else true

def Member.methodKey? (major : Nat) (isInterface : Bool) (method : Member) :
    Option (String × MethodSignature) :=
  if isMethodName isInterface method.name then
    match methodOf? method.descriptor.toList with
    | some (signature, _) =>
      if fitsName major method.name signature then some (method.name, signature) else none
    | none => none
  else none

/-- A method with its name and signature as they have been understood. -/
def understood (method : Member) (key : String × MethodSignature) : Member :=
  ⟨method.flags, key.1, key.2.encode⟩

def properClass? (pool : Pool) (slot : Nat) : Option String := do
  let name ← pool.className? slot
  if isClassName name then return name else none

/-- Slot zero stands for no superclass. -/
def superclass? (pool : Pool) (slot : Nat) : Option (Option String) :=
  if slot = 0 then some none else (properClass? pool slot).map some

def readInterface (pool : Pool) (bytes : Bytes) : Option (String × Bytes) := do
  let (slot, bytes) ← u2 bytes
  let name ← properClass? pool slot
  return (name, bytes)

def hasBootstraps (pool : Pool) (attributes : List Attribute) : Bool :=
  pool.bootstraps = 0 || attributes.any fun a =>
    a.name = "BootstrapMethods" && (u2 a.content).any fun (count, _) => pool.bootstraps ≤ count

/-- The flags that mean something for a class. -/
def classFlags (flags : Nat) : Nat := flags &&& 0xF631

def isModule (flags : Nat) : Bool := hasFlag flags 0x8000

def decode (bytes : Bytes) : Option ClassFile := do
  let (magic, bytes) ← u4 bytes
  guard (magic = 0xCAFEBABE)
  let (_, bytes) ← u2 bytes
  let (major, bytes) ← u2 bytes
  let (pool, bytes) ← Pool.read major bytes
  let (flags, bytes) ← u2 bytes
  let (thisSlot, bytes) ← u2 bytes
  let name ← properClass? pool thisSlot
  let (superSlot, bytes) ← u2 bytes
  let superclass ← superclass? pool superSlot
  let (interfaces, bytes) ← counted (readInterface pool) bytes
  let (fields, bytes) ← counted (readMember pool) bytes
  let fieldKeys ← fields.mapM Member.fieldKey?
  guard fieldKeys.Nodup
  let (methods, bytes) ← counted (readMember pool) bytes
  let methodKeys ← methods.mapM (Member.methodKey? major (hasFlag flags 0x0200))
  guard methodKeys.Nodup
  let (attributes, bytes) ← counted (readAttribute pool) bytes
  guard bytes.isEmpty
  guard (hasBootstraps pool attributes)
  guard (isModule flags → 53 ≤ major ∧ classFlags flags = 0x8000 ∧
    superclass = none ∧ interfaces = [] ∧ fields = [] ∧ methods = [])
  return ⟨flags, name, superclass, interfaces, List.zipWith understood methods methodKeys⟩

end JniHeaders.ClassFile
