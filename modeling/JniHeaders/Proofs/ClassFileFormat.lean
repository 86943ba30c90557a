import JniHeaders.ClassFile
import JniHeaders.Proofs.DescriptorTexts
import Mathlib.Data.List.Forall2

/-!
The format of class files and its rules, as far as classes without fields, code and attributes go.
A class file is a table of texts and classes and then the class itself, which refers to the table by
slot. The rules are about what the slots stand for.
-/

namespace JniHeaders.ClassFile

open Descriptor

/-- Angle brackets are kept for the methods that create objects and classes. -/
def AngleFree (text : List Char) : Prop := ∀ c ∈ text, c ≠ '<' ∧ c ≠ '>'

instance (text : List Char) : Decidable (AngleFree text) :=
  List.decidableBAll (fun c => c ≠ '<' ∧ c ≠ '>') text

/-- The name of a method other than those that create objects and classes. -/
def IsMethodText (name : String) : Prop :=
  name ≠ "" ∧ (∀ c ∈ name.toList, isUnqualified c) ∧ AngleFree name.toList

instance (name : String) : Decidable (IsMethodText name) :=
  decidable_of_iff
    (name ≠ "" ∧ name.toList.all isUnqualified = true ∧ AngleFree name.toList)
    (by simp [IsMethodText])

/-- Whether a class or an interface can have a method with this signature. -/
structure HasSignature (isInterface : Bool) (method : Member) (sig : MethodSignature) :
    Prop where
  name : method.name = "<clinit>" ∨ method.name = "<init>" ∧ isInterface = false ∨
    IsMethodText method.name
  wellFormed : sig.WellFormed
  descriptor : sig.encode = method.descriptor
  result : method.name = "<init>" ∨ method.name = "<clinit>" → sig.result = .primitive .void
  parameters : method.name = "<clinit>" → sig.parameters = []

def names (file : ClassFile) : List String :=
  file.name :: (file.superclass.toList ++ file.interfaces)

/-- Names and descriptors are spelled as they have to be. -/
structure Spelled (file : ClassFile) : Prop where
  names : ∀ name ∈ file.names, IsNameText name.toList
  methods : ∀ method ∈ file.methods,
    ∃ sig, HasSignature (hasFlag file.flags 0x0200) method sig

/-- A class, as opposed to a module, in which no method is declared twice and no class that is named
has angle brackets in its name. -/
structure Legal (file : ClassFile) : Prop extends Spelled file where
  angleFree : ∀ text ∈ file.names ++ file.methods.map (·.descriptor), AngleFree text.toList
  distinct : (file.methods.map fun method => (method.name, method.descriptor)).Nodup
  notModule : hasFlag file.flags 0x8000 = false

/-- Two bytes, the high one first. -/
def u2Bytes (n : Nat) : List UInt8 := [UInt8.ofNat (n / 0x100), UInt8.ofNat n]

inductive Entry where
  | text (value : String)
  | classOf (slot : Nat)
  deriving DecidableEq, Repr

namespace Entry

def bytes : Entry → List UInt8
  | text value => 1 :: (u2Bytes value.utf8ByteSize ++ value.toUTF8.data.toList)
  | classOf slot => 7 :: u2Bytes slot

def Fits : Entry → Prop
  | text value => value.utf8ByteSize < 0x10000
  | classOf slot => slot < 0x10000

end Entry

/-- Slots are counted from one. -/
def entryAt? (entries : List Entry) : Nat → Option Entry
  | 0 => none
  | n + 1 => entries[n]?

theorem le_of_entryAt? {entries : List Entry} {slot : Nat} {entry : Entry}
    (h : entryAt? entries slot = some entry) : slot ≤ entries.length := by
  cases slot with
  | zero => cases h
  | succ n => exact (List.getElem?_eq_some_iff.mp h).1

def IsText (entries : List Entry) (slot : Nat) (value : String) : Prop :=
  entryAt? entries slot = some (.text value)

def IsClass (entries : List Entry) (slot : Nat) (name : String) : Prop :=
  ∃ inner, entryAt? entries slot = some (.classOf inner) ∧ IsText entries inner name

/-- Slot zero stands for no superclass. -/
def IsSuperclass (entries : List Entry) (slot : Nat) : Option String → Prop
  | none => slot = 0
  | some name => IsClass entries slot name

structure MethodSlots where
  flags : Nat
  name : Nat
  descriptor : Nat

def MethodSlots.bytes (method : MethodSlots) : List UInt8 :=
  u2Bytes method.flags ++ u2Bytes method.name ++ u2Bytes method.descriptor ++ u2Bytes 0

def IsMethod (entries : List Entry) (slots : MethodSlots) (method : Member) : Prop :=
  slots.flags = method.flags ∧ IsText entries slots.name method.name ∧
    IsText entries slots.descriptor method.descriptor

structure Layout where
  minor : Nat
  major : Nat
  entries : List Entry
  flags : Nat
  name : Nat
  superclass : Nat
  interfaces : List Nat
  methods : List MethodSlots

namespace Layout

def bytes (layout : Layout) : List UInt8 :=
  [0xCA, 0xFE, 0xBA, 0xBE] ++ u2Bytes layout.minor ++ u2Bytes layout.major ++
    u2Bytes (layout.entries.length + 1) ++ layout.entries.flatMap Entry.bytes ++
    u2Bytes layout.flags ++ u2Bytes layout.name ++ u2Bytes layout.superclass ++
    u2Bytes layout.interfaces.length ++ layout.interfaces.flatMap u2Bytes ++
    u2Bytes 0 ++
    u2Bytes layout.methods.length ++ layout.methods.flatMap MethodSlots.bytes ++
    u2Bytes 0

structure Fits (layout : Layout) : Prop where
  minor : layout.minor < 0x10000
  major : layout.major < 0x10000
  entries : ∀ entry ∈ layout.entries, entry.Fits
  constants : layout.entries.length + 1 < 0x10000
  flags : layout.flags < 0x10000
  interfaces : layout.interfaces.length < 0x10000
  methods : layout.methods.length < 0x10000
  methodFlags : ∀ method ∈ layout.methods, method.flags < 0x10000

/-- The slots stand for the parts of a class, and no other classes are among the constants. -/
structure Describes (layout : Layout) (file : ClassFile) : Prop where
  flags : layout.flags = file.flags
  name : IsClass layout.entries layout.name file.name
  superclass : IsSuperclass layout.entries layout.superclass file.superclass
  interfaces : List.Forall₂ (IsClass layout.entries) layout.interfaces file.interfaces
  methods : List.Forall₂ (IsMethod layout.entries) layout.methods file.methods
  classes : ∀ slot, .classOf slot ∈ layout.entries →
    ∃ name ∈ file.names, IsText layout.entries slot name

end Layout

/-- The bytes are a class file of the class. Before version 51 other methods could be said to create
a class. -/
def Encodes (bytes : List UInt8) (file : ClassFile) : Prop :=
  ∃ layout : Layout, 51 ≤ layout.major ∧ layout.Fits ∧ layout.Describes file ∧
    layout.bytes = bytes

end JniHeaders.ClassFile
