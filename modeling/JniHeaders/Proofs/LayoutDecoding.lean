import JniHeaders.Proofs.ClassFileRules
import Mathlib.Data.List.Nodup

/-!
Decoding class files. The bytes are read one part after the other, each with what is left as an
arbitrary rest, and every check that the decoder makes holds of a class that keeps to the rules.
-/

namespace JniHeaders.ClassFile

def Entry.constant : Entry → Constant
  | text value => .utf8 (some value)
  | classOf slot => .classRef slot

def table (entries : List Entry) : Pool := (.empty :: entries.map Entry.constant).toArray

section Bytes

variable {rest : Bytes}

theorem u2_u2Bytes {n : Nat} (h : n < 0x10000) : u2 (u2Bytes n ++ rest) = some (n, rest) := by
  have hvalue : n / 0x100 % 0x100 * 0x100 + n % 0x100 = n := by omega
  simp [u2Bytes, u2, hvalue]

theorem block_append (content : Bytes) :
    block content.length (content ++ rest) = some (content, rest) := by
  induction content with
  | nil => rfl
  | cons byte content ih => simp [block, ih]

theorem textOfBytes_toUTF8 (value : String) :
    textOfBytes value.toUTF8.data.toList = some value := by
  have hvalid : String.fromUTF8? ⟨value.toUTF8.data.toList.toArray⟩ = some value :=
    dif_pos value.isValidUTF8
  simp only [textOfBytes, hvalid]

/-- Things that are written one after the other are read one after the other. -/
theorem counted_flatMap {α β : Type} {read : Bytes → Option (α × Bytes)} {write : β → Bytes}
    {written : List β} {values : List α} (hcount : written.length < 0x10000)
    (hread : List.Forall₂ (fun slot value => ∀ rest,
      read (write slot ++ rest) = some (value, rest)) written values) :
    counted read (u2Bytes written.length ++ (written.flatMap write ++ rest)) =
      some (values, rest) := by
  simp only [counted, u2_u2Bytes hcount, Option.bind_eq_bind, Option.bind_some]
  clear hcount
  induction hread with
  | nil => rfl
  | cons hfirst _ ih =>
    simp only [List.length_cons, times, List.flatMap_cons, List.append_assoc, hfirst,
      Option.bind_eq_bind, Option.bind_some, ih]
    rfl

theorem counted_none {α : Type} (read : Bytes → Option (α × Bytes)) :
    counted read (u2Bytes 0 ++ rest) = some ([], rest) := by
  have hzero : 0 < 0x10000 := by decide
  simp only [counted, u2_u2Bytes hzero]
  rfl

theorem readConstant_bytes (major : Nat) {entry : Entry} (h : entry.Fits) :
    readConstant major (entry.bytes ++ rest) = some (entry.constant, rest) := by
  cases entry with
  | text value =>
    have hsize : value.utf8ByteSize < 0x10000 := h
    have hlength : value.utf8ByteSize = value.toUTF8.data.toList.length := rfl
    simp only [readConstant, Entry.bytes, List.cons_append, List.append_assoc, u1,
      Option.bind_eq_bind, Option.bind_some, UInt8.toNat_one, constantOf, u2_u2Bytes hsize]
    rw [hlength, block_append]
    simp only [Option.bind_some, textOfBytes_toUTF8]
    rfl
  | classOf slot =>
    have hslot : slot < 0x10000 := h
    have htag : (7 : UInt8).toNat = 7 := rfl
    simp only [readConstant, Entry.bytes, List.cons_append, u1, Option.bind_eq_bind,
      Option.bind_some, htag, constantOf, u2_u2Bytes hslot]
    rfl

theorem slots_bytes (major : Nat) {entries : List Entry} (h : ∀ entry ∈ entries, entry.Fits) :
    slots major entries.length (entries.flatMap Entry.bytes ++ rest) =
      some (entries.map Entry.constant, rest) := by
  induction entries with
  | nil => rfl
  | cons entry entries ih =>
    obtain ⟨hfirst, hothers⟩ := List.forall_mem_cons.mp h
    have hnarrow : entry.constant ≠ .wide := by cases entry <;> simp [Entry.constant]
    simp only [List.length_cons, slots, List.flatMap_cons, List.append_assoc,
      readConstant_bytes major hfirst, Option.bind_eq_bind, Option.bind_some, if_neg hnarrow,
      ih hothers]
    rfl

theorem read_table (major : Nat) {entries : List Entry} (h : ∀ entry ∈ entries, entry.Fits)
    (hcount : entries.length + 1 < 0x10000)
    (haccepts : (table entries).all ((table entries).accepts major) = true) :
    Pool.read major (u2Bytes (entries.length + 1) ++ (entries.flatMap Entry.bytes ++ rest)) =
      some (table entries, rest) := by
  simp only [Pool.read, u2_u2Bytes hcount, Option.bind_eq_bind, Option.bind_some,
    Nat.add_sub_cancel, slots_bytes major h]
  exact if_pos haccepts

end Bytes

section Slots

variable {entries : List Entry} {slot : Nat}

theorem getElem?_table {entry : Entry} (h : entryAt? entries slot = some entry) :
    (table entries)[slot]? = some entry.constant := by
  cases slot with
  | zero => cases h
  | succ n =>
    have hentry : entries[n]? = some entry := h
    simp [table, hentry]

theorem text?_table {value : String} (h : IsText entries slot value) :
    (table entries).text? slot = some value := by
  rw [Pool.text?, getElem?_table h]
  rfl

theorem className?_table {name : String} (h : IsClass entries slot name) :
    (table entries).className? slot = some name := by
  obtain ⟨inner, hclass, htext⟩ := h
  rw [Pool.className?, getElem?_table hclass]
  exact text?_table htext

theorem lt_of_entryAt? {entry : Entry} (h : entryAt? entries slot = some entry)
    (hcount : entries.length + 1 < 0x10000) : slot < 0x10000 := by
  have hle := le_of_entryAt? h
  omega

theorem lt_of_isClass {name : String} (h : IsClass entries slot name)
    (hcount : entries.length + 1 < 0x10000) : slot < 0x10000 := by
  obtain ⟨inner, hclass, -⟩ := h
  exact lt_of_entryAt? hclass hcount

theorem properClass?_table {name : String} (h : IsClass entries slot name)
    (hname : IsClassText name) : properClass? (table entries) slot = some name := by
  have hproper := ((isClassText_iff name).mp hname).2
  simp only [properClass?, className?_table h, Option.bind_eq_bind, Option.bind_some, hproper,
    if_true]
  rfl

theorem superclass?_table {superclass : Option String} (h : IsSuperclass entries slot superclass)
    (hname : ∀ name ∈ superclass, IsClassText name) :
    superclass? (table entries) slot = some superclass := by
  cases superclass with
  | none =>
    obtain rfl : slot = 0 := h
    rfl
  | some name =>
    have hslot : slot ≠ 0 := by
      rintro rfl
      obtain ⟨inner, hclass, -⟩ := h
      cases hclass
    rw [superclass?, if_neg hslot, properClass?_table h (hname name rfl)]
    rfl

theorem lt_of_isSuperclass {superclass : Option String} (h : IsSuperclass entries slot superclass)
    (hcount : entries.length + 1 < 0x10000) : slot < 0x10000 := by
  cases superclass with
  | none =>
    obtain rfl : slot = 0 := h
    omega
  | some name => exact lt_of_isClass h hcount

theorem readInterface_u2Bytes {name : String} (h : IsClass entries slot name)
    (hcount : entries.length + 1 < 0x10000) (hname : IsClassText name) (rest : Bytes) :
    readInterface (table entries) (u2Bytes slot ++ rest) = some (name, rest) := by
  simp only [readInterface, u2_u2Bytes (lt_of_isClass h hcount), Option.bind_eq_bind,
    Option.bind_some, properClass?_table h hname]
  rfl

theorem readMember_bytes {method : Member} {slots : MethodSlots}
    (h : IsMethod entries slots method) (hcount : entries.length + 1 < 0x10000)
    (hflags : slots.flags < 0x10000) (rest : Bytes) :
    readMember (table entries) (slots.bytes ++ rest) = some (method, rest) := by
  obtain ⟨hsame, hname, hdescriptor⟩ := h
  simp only [readMember, MethodSlots.bytes, List.append_assoc, u2_u2Bytes hflags,
    u2_u2Bytes (lt_of_entryAt? hname hcount), u2_u2Bytes (lt_of_entryAt? hdescriptor hcount),
    Option.bind_eq_bind, Option.bind_some, text?_table hname, text?_table hdescriptor,
    counted_none]
  rw [hsame]
  rfl

end Slots

theorem bootstraps_table (entries : List Entry) : (table entries).bootstraps = 0 := by
  have hkept : ∀ step : Nat → Constant → Nat,
      (∀ most entry, step most (Entry.constant entry) = most) →
        (entries.map Entry.constant).foldl step 0 = 0 := by
    intro step hstep
    induction entries with
    | nil => rfl
    | cons entry entries ih => rw [List.map_cons, List.foldl_cons, hstep, ih]
  simp only [Pool.bootstraps, table, List.foldl_toArray', List.foldl_cons]
  exact hkept _ fun most entry => by cases entry <;> rfl

theorem hasBootstraps_table (entries : List Entry) (attributes : List Attribute) :
    hasBootstraps (table entries) attributes = true := by
  rw [hasBootstraps, bootstraps_table]
  rfl

section Keys

/-- The key under which a method is read as it was written. -/
structure IsKey (isInterface : Bool) (method : Member) (key : String × MethodSignature) :
    Prop where
  name : key.1 = method.name
  signature : HasSignature isInterface method key.2
  angleFree : AngleFree method.descriptor.toList

variable {isInterface : Bool} {methods : List Member} {keys : List (String × MethodSignature)}

theorem IsKey.methodKey?_eq {major : Nat} (hmajor : 51 ≤ major) {method : Member}
    {key : String × MethodSignature} (h : IsKey isInterface method key) :
    method.methodKey? major isInterface = some key :=
  ((methodKey?_iff hmajor isInterface method key.1 key.2).mpr
    ⟨h.name, h.signature, h.angleFree⟩).1

theorem exists_keys (h : ∀ method ∈ methods, ∃ sig, HasSignature isInterface method sig)
    (hangles : ∀ method ∈ methods, AngleFree method.descriptor.toList) :
    ∃ keys, List.Forall₂ (IsKey isInterface) methods keys := by
  induction methods with
  | nil => exact ⟨[], .nil⟩
  | cons method methods ih =>
    obtain ⟨⟨sig, hsig⟩, hothers⟩ := List.forall_mem_cons.mp h
    obtain ⟨hangle, hangles⟩ := List.forall_mem_cons.mp hangles
    obtain ⟨keys, hkeys⟩ := ih hothers hangles
    exact ⟨(method.name, sig) :: keys, .cons ⟨rfl, hsig, hangle⟩ hkeys⟩

theorem mapM_methodKey? {major : Nat} (hmajor : 51 ≤ major)
    (h : List.Forall₂ (IsKey isInterface) methods keys) :
    methods.mapM (Member.methodKey? major isInterface) = some keys := by
  induction h with
  | nil => rfl
  | cons hkey _ ih =>
    rw [List.mapM_cons, hkey.methodKey?_eq hmajor, ih]
    rfl

theorem zipWith_understood (h : List.Forall₂ (IsKey isInterface) methods keys) :
    List.zipWith understood methods keys = methods := by
  induction h with
  | nil => rfl
  | cons hkey _ ih =>
    rw [List.zipWith_cons_cons, ih, understood, hkey.name, hkey.signature.descriptor]

theorem keys_nodup (h : List.Forall₂ (IsKey isInterface) methods keys)
    (hnodup : (methods.map fun method => (method.name, method.descriptor)).Nodup) :
    keys.Nodup := by
  have hsame : keys.map (fun key => (key.1, key.2.encode)) =
      methods.map fun method => (method.name, method.descriptor) := by
    clear hnodup
    induction h with
    | nil => rfl
    | cons hkey _ ih => simp [ih, hkey.name, hkey.signature.descriptor]
  rw [← hsame] at hnodup
  exact List.Nodup.of_map _ hnodup

end Keys

section Decoding

variable {layout : Layout} {file : ClassFile}

theorem isClassText_of_legal (h : file.Legal) : ∀ name ∈ file.names, IsClassText name :=
  fun name hname => ⟨h.names name hname, h.angleFree name (List.mem_append_left _ hname)⟩

theorem accepts_table (hdescribes : layout.Describes file) (hlegal : file.Legal) :
    (table layout.entries).all ((table layout.entries).accepts layout.major) = true := by
  rw [Array.all_eq_true']
  intro constant hconstant
  simp only [table, List.mem_toArray, List.mem_cons, List.mem_map] at hconstant
  rcases hconstant with rfl | ⟨entry, hentry, rfl⟩
  · rfl
  · cases entry with
    | text value => rfl
    | classOf slot =>
      obtain ⟨name, hname, htext⟩ := hdescribes.classes slot hentry
      have hform := ((isClassText_iff name).mp (isClassText_of_legal hlegal name hname)).1
      simpa [Entry.constant, Pool.accepts, text?_table htext] using hform

theorem interfaces_read (hfits : layout.Fits) (hdescribes : layout.Describes file)
    (hlegal : file.Legal) (rest : Bytes) :
    counted (readInterface (table layout.entries)) (u2Bytes layout.interfaces.length ++
      (layout.interfaces.flatMap u2Bytes ++ rest)) = some (file.interfaces, rest) := by
  refine counted_flatMap hfits.interfaces ?_
  have hinterfaces := hdescribes.interfaces
  rw [List.forall₂_iff_get] at hinterfaces ⊢
  refine ⟨hinterfaces.1, fun i hslot hname => ?_⟩
  refine readInterface_u2Bytes (hinterfaces.2 i hslot hname) hfits.constants ?_
  exact isClassText_of_legal hlegal _ (by simp [names])

theorem methods_read (hfits : layout.Fits) (hdescribes : layout.Describes file) (rest : Bytes) :
    counted (readMember (table layout.entries)) (u2Bytes layout.methods.length ++
      (layout.methods.flatMap MethodSlots.bytes ++ rest)) = some (file.methods, rest) := by
  refine counted_flatMap hfits.methods ?_
  have hmethods := hdescribes.methods
  rw [List.forall₂_iff_get] at hmethods ⊢
  refine ⟨hmethods.1, fun i hslots hmethod => ?_⟩
  exact readMember_bytes (hmethods.2 i hslots hmethod) hfits.constants
    (hfits.methodFlags _ (List.get_mem _ _))

theorem guard_eq_some {p : Prop} [Decidable p] (h : p) : (guard p : Option Unit) = some () :=
  if_pos h

/-- A class file that keeps to the rules is decoded as the class that it is a file of. -/
theorem decode_of_encodes {bytes : Bytes} (h : Encodes bytes file) (hlegal : file.Legal) :
    decode bytes = some file := by
  obtain ⟨layout, hversion, hfits, hdescribes, rfl⟩ := h
  have hclasses := isClassText_of_legal hlegal
  have hname := properClass?_table hdescribes.name (hclasses _ List.mem_cons_self)
  have hsuperclass := superclass?_table hdescribes.superclass fun name hmem =>
    hclasses name (by simp [names, Option.mem_def.mp hmem])
  have hslots := And.intro (lt_of_isClass hdescribes.name hfits.constants)
    (lt_of_isSuperclass hdescribes.superclass hfits.constants)
  have hangles : ∀ method ∈ file.methods, AngleFree method.descriptor.toList := fun method hmem =>
    hlegal.angleFree _ (List.mem_append_right _ (List.mem_map_of_mem hmem))
  obtain ⟨keys, hkeys⟩ := exists_keys hlegal.methods hangles
  have hmodule : isModule file.flags = false := hlegal.notModule
  have hkeysRead := mapM_methodKey? hversion hkeys
  rw [← hdescribes.flags] at hmodule hkeysRead
  simp only [Layout.bytes, List.append_assoc]
  unfold decode
  -- What stands first in the bytes is read, one part after the other.
  refine Option.bind_eq_some_iff.mpr ⟨(0xCAFEBABE, _), rfl, ?_⟩
  refine Option.bind_eq_some_iff.mpr ⟨(), guard_eq_some rfl, ?_⟩
  refine Option.bind_eq_some_iff.mpr ⟨_, u2_u2Bytes hfits.minor, ?_⟩
  refine Option.bind_eq_some_iff.mpr ⟨_, u2_u2Bytes hfits.major, ?_⟩
  refine Option.bind_eq_some_iff.mpr ⟨_, read_table layout.major hfits.entries hfits.constants
    (accepts_table hdescribes hlegal), ?_⟩
  refine Option.bind_eq_some_iff.mpr ⟨_, u2_u2Bytes hfits.flags, ?_⟩
  refine Option.bind_eq_some_iff.mpr ⟨_, u2_u2Bytes hslots.1, ?_⟩
  refine Option.bind_eq_some_iff.mpr ⟨_, hname, ?_⟩
  refine Option.bind_eq_some_iff.mpr ⟨_, u2_u2Bytes hslots.2, ?_⟩
  refine Option.bind_eq_some_iff.mpr ⟨_, hsuperclass, ?_⟩
  refine Option.bind_eq_some_iff.mpr ⟨_, interfaces_read hfits hdescribes hlegal _, ?_⟩
  refine Option.bind_eq_some_iff.mpr ⟨_, counted_none _, ?_⟩
  refine Option.bind_eq_some_iff.mpr ⟨[], rfl, ?_⟩
  refine Option.bind_eq_some_iff.mpr ⟨(), guard_eq_some List.nodup_nil, ?_⟩
  refine Option.bind_eq_some_iff.mpr ⟨_, methods_read hfits hdescribes _, ?_⟩
  refine Option.bind_eq_some_iff.mpr ⟨_, hkeysRead, ?_⟩
  refine Option.bind_eq_some_iff.mpr ⟨(), guard_eq_some (keys_nodup hkeys hlegal.distinct), ?_⟩
  refine Option.bind_eq_some_iff.mpr ⟨([], []), rfl, ?_⟩
  refine Option.bind_eq_some_iff.mpr ⟨(), guard_eq_some List.isEmpty_nil, ?_⟩
  refine Option.bind_eq_some_iff.mpr ⟨(), guard_eq_some (hasBootstraps_table _ _), ?_⟩
  refine Option.bind_eq_some_iff.mpr ⟨(), guard_eq_some (by simp [hmodule]), ?_⟩
  rw [zipWith_understood hkeys, hdescribes.flags]
  rfl

end Decoding

end JniHeaders.ClassFile
