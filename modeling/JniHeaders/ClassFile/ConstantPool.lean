import JniHeaders.ClassFile.Name
import JniHeaders.ClassFile.Text

/-!
The constants of a class file. Constants refer to each other by slot; a slot that no constant
begins in can be referred to by nothing. After reading, every reference is checked for the kind
of constant it needs.
-/

namespace JniHeaders.ClassFile

abbrev Bytes := List UInt8

def u1 : Bytes → Option (Nat × Bytes)
  | a :: rest => some (a.toNat, rest)
  | [] => none

def u2 : Bytes → Option (Nat × Bytes)
  | a :: b :: rest => some (a.toNat * 0x100 + b.toNat, rest)
  | _ => none

def u4 (bytes : Bytes) : Option (Nat × Bytes) := do
  let (high, bytes) ← u2 bytes
  let (low, bytes) ← u2 bytes
  return (high * 0x10000 + low, bytes)

def block : Nat → Bytes → Option (Bytes × Bytes)
  | 0, bytes => some ([], bytes)
  | _ + 1, [] => none
  | n + 1, b :: bytes => do
    let (taken, rest) ← block n bytes
    return (b :: taken, rest)

def times {α : Type} (read : Bytes → Option (α × Bytes)) : Nat → Bytes → Option (List α × Bytes)
  | 0, bytes => some ([], bytes)
  | n + 1, bytes => do
    let (value, bytes) ← read bytes
    let (values, bytes) ← times read n bytes
    return (value :: values, bytes)

def counted {α : Type} (read : Bytes → Option (α × Bytes)) (bytes : Bytes) :
    Option (List α × Bytes) := do
  let (count, bytes) ← u2 bytes
  times read count bytes

inductive Constant where
  | empty
  | utf8 (text : Option String)
  | narrow
  | wide
  | classRef (name : Nat)
  | string (text : Nat)
  | field (owner nameAndType : Nat)
  | method (owner nameAndType : Nat)
  | interfaceMethod (owner nameAndType : Nat)
  | nameAndType (name descriptor : Nat)
  | methodHandle (kind target : Nat)
  | methodType (descriptor : Nat)
  | computed (bootstrap nameAndType : Nat)
  | callSite (bootstrap nameAndType : Nat)
  | module (name : Nat)
  | package (name : Nat)
  deriving DecidableEq, Repr

def constantOf (major tag : Nat) (bytes : Bytes) : Option (Constant × Bytes) :=
  let one (make : Nat → Constant) := do
    let (a, bytes) ← u2 bytes
    return (make a, bytes)
  let two (make : Nat → Nat → Constant) := do
    let (a, bytes) ← u2 bytes
    let (b, bytes) ← u2 bytes
    return (make a b, bytes)
  match tag with
  | 1 => do
    let (length, bytes) ← u2 bytes
    let (content, bytes) ← block length bytes
    return (.utf8 (textOfBytes content), bytes)
  | 3 | 4 => do
    let (_, bytes) ← block 4 bytes
    return (.narrow, bytes)
  | 5 | 6 => do
    let (_, bytes) ← block 8 bytes
    return (.wide, bytes)
  | 7 => one .classRef
  | 8 => one .string
  | 9 => two .field
  | 10 => two .method
  | 11 => two .interfaceMethod
  | 12 => two .nameAndType
  | 15 => if 51 ≤ major then do
      let (kind, bytes) ← u1 bytes
      let (target, bytes) ← u2 bytes
      return (.methodHandle kind target, bytes)
    else none
  | 16 => if 51 ≤ major then one .methodType else none
  | 17 => if 55 ≤ major then two .computed else none
  | 18 => if 51 ≤ major then two .callSite else none
  | 19 => if 53 ≤ major then one .module else none
  | 20 => if 53 ≤ major then one .package else none
  | _ => none

def readConstant (major : Nat) (bytes : Bytes) : Option (Constant × Bytes) := do
  let (tag, bytes) ← u1 bytes
  constantOf major tag bytes

/-- Reads constants until the given number of slots is filled. A wide constant fills two, and
the last one may fill one slot too many. -/
def slots (major : Nat) : Nat → Bytes → Option (List Constant × Bytes)
  | 0, bytes => some ([], bytes)
  | n + 1, bytes => do
    let (first, bytes) ← readConstant major bytes
    if first = .wide then
      match n with
      | 0 => return ([first, .empty], bytes)
      | m + 1 =>
        let (others, bytes) ← slots major m bytes
        return (first :: .empty :: others, bytes)
    else
      let (others, bytes) ← slots major n bytes
      return (first :: others, bytes)

abbrev Pool := Array Constant

namespace Pool

def text? (pool : Pool) (slot : Nat) : Option String :=
  match pool[slot]? with
  | some (.utf8 text) => text
  | _ => none

def isUtf8 (pool : Pool) (slot : Nat) : Bool :=
  match pool[slot]? with
  | some (.utf8 _) => true
  | _ => false

def className? (pool : Pool) (slot : Nat) : Option String :=
  match pool[slot]? with
  | some (.classRef name) => pool.text? name
  | _ => none

def hasDescriptor (form : String → Bool) (pool : Pool) (slot : Nat) : Bool :=
  match pool[slot]? with
  | some (.nameAndType _ descriptor) => (pool.text? descriptor).any form
  | _ => false

def isClass (pool : Pool) (slot : Nat) : Bool :=
  match pool[slot]? with
  | some (.classRef _) => true
  | _ => false

def isHandleTarget (pool : Pool) (major kind target : Nat) : Bool :=
  match pool[target]? with
  | some (.field _ _) => 1 ≤ kind && kind ≤ 4
  | some (.method _ _) => 5 ≤ kind && kind ≤ 8
  | some (.interfaceMethod _ _) => kind = 9 || ((kind = 6 || kind = 7) && 52 ≤ major)
  | _ => false

def accepts (pool : Pool) (major : Nat) : Constant → Bool
  | .empty | .utf8 _ | .narrow | .wide => true
  | .classRef name => (pool.text? name).any fun s => isBinaryName s || isArrayDescriptor s
  | .string text => pool.isUtf8 text
  | .field owner member => pool.isClass owner && pool.hasDescriptor isFieldDescriptor member
  | .method owner member | .interfaceMethod owner member =>
    pool.isClass owner && pool.hasDescriptor isMethodDescriptor member
  | .nameAndType name descriptor =>
    (pool.text? name).any isUnqualifiedName && pool.isUtf8 descriptor
  | .methodHandle kind target => pool.isHandleTarget major kind target
  | .methodType descriptor => (pool.text? descriptor).any isMethodDescriptor
  | .computed _ member => pool.hasDescriptor isFieldDescriptor member
  | .callSite _ member => pool.hasDescriptor isMethodDescriptor member
  | .module name => (pool.text? name).any isModuleName
  | .package name => (pool.text? name).any isBinaryName

def bootstraps (pool : Pool) : Nat :=
  pool.foldl (fun most entry =>
    match entry with
    | .computed bootstrap _ | .callSite bootstrap _ => max most (bootstrap + 1)
    | _ => most) 0

def read (major : Nat) (bytes : Bytes) : Option (Pool × Bytes) := do
  let (count, bytes) ← u2 bytes
  let (entries, bytes) ← slots major (count - 1) bytes
  let pool : Pool := (.empty :: entries).toArray
  if pool.all (pool.accepts major) then return (pool, bytes) else none

end Pool

end JniHeaders.ClassFile
