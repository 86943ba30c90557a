import JniHeaders.Formats.Standard
import JniHeaders.Proofs.LayoutDecoding
import JniHeaders.Proofs.ReaderLaws

/-!
The readers that the program runs with keep to the rules of the formats. A class file that is
decoded names its classes by constants of its pool, which have been checked there, and an archive is
loaded from the beginning of its file.
-/

namespace JniHeaders

namespace ClassFile

variable {pool : Pool} {bytes rest : Bytes} {slot : Nat} {internal : String} {file : ClassFile}

theorem exists_of_mem_times {α : Type} {read : Bytes → Option (α × Bytes)} {n : Nat}
    {values : List α} (h : times read n bytes = some (values, rest)) {value : α}
    (hvalue : value ∈ values) : ∃ before after, read before = some (value, after) := by
  induction n generalizing bytes values with
  | zero =>
    cases h
    cases hvalue
  | succ n ih =>
    simp only [times, Option.bind_eq_bind, Option.bind_eq_some_iff] at h
    obtain ⟨⟨first, after⟩, hfirst, ⟨others, last⟩, hothers, heq⟩ := h
    cases heq
    rcases List.mem_cons.mp hvalue with rfl | hmem
    · exact ⟨bytes, after, hfirst⟩
    · exact ih hothers hmem

theorem exists_of_mem_counted {α : Type} {read : Bytes → Option (α × Bytes)}
    {values : List α} (h : counted read bytes = some (values, rest)) {value : α}
    (hvalue : value ∈ values) : ∃ before after, read before = some (value, after) := by
  simp only [counted, Option.bind_eq_bind, Option.bind_eq_some_iff] at h
  obtain ⟨⟨count, after⟩, -, htimes⟩ := h
  exact exists_of_mem_times htimes hvalue

theorem properClass?_eq_some_iff :
    properClass? pool slot = some internal ↔
      pool.className? slot = some internal ∧ isClassName internal = true := by
  simp only [properClass?, Option.bind_eq_bind, Option.bind_eq_some_iff]
  constructor
  · rintro ⟨name, hname, hproper⟩
    split at hproper
    · cases hproper
      exact ⟨hname, ‹_›⟩
    · cases hproper
  · rintro ⟨hname, hproper⟩
    exact ⟨internal, hname, if_pos hproper⟩

theorem className?_eq_some_iff :
    pool.className? slot = some internal ↔
      ∃ inner, pool[slot]? = some (.classRef inner) ∧ pool.text? inner = some internal := by
  unfold Pool.className?
  split <;> simp_all

theorem accepts_of_read {major : Nat} (h : Pool.read major bytes = some (pool, rest)) :
    ∀ constant ∈ pool, pool.accepts major constant = true := by
  simp only [Pool.read, Option.bind_eq_bind, Option.bind_eq_some_iff] at h
  obtain ⟨⟨count, first⟩, -, ⟨entries, last⟩, -, hall⟩ := h
  split at hall
  · rename_i haccepts
    cases hall
    exact Array.all_eq_true_iff_forall_mem.mp haccepts
  · cases hall

/-- A constant that names a class has been checked when the pool was read. -/
theorem isClassText_of_properClass? {major : Nat} (h : Pool.read major bytes = some (pool, rest))
    (hname : properClass? pool slot = some internal) : IsClassText internal := by
  obtain ⟨hclass, hproper⟩ := properClass?_eq_some_iff.mp hname
  obtain ⟨inner, hslot, htext⟩ := className?_eq_some_iff.mp hclass
  have haccepts := accepts_of_read h _ (Array.mem_of_getElem? hslot)
  simp only [Pool.accepts, htext, Option.any_some] at haccepts
  exact (isClassText_iff internal).mpr ⟨haccepts, hproper⟩

theorem names_of_decode (h : decode bytes = some file) :
    ∃ pool, (∃ major before rest, Pool.read major before = some (pool, rest)) ∧
      (∃ slot, properClass? pool slot = some file.name) ∧
      (∃ slot, superclass? pool slot = some file.superclass) ∧
      ∃ before after, counted (readInterface pool) before = some (file.interfaces, after) := by
  unfold decode at h
  obtain ⟨⟨magic, b1⟩, -, h⟩ := Option.bind_eq_some_iff.mp h
  obtain ⟨-, -, h⟩ := Option.bind_eq_some_iff.mp h
  obtain ⟨⟨minor, b2⟩, -, h⟩ := Option.bind_eq_some_iff.mp h
  obtain ⟨⟨major, b3⟩, -, h⟩ := Option.bind_eq_some_iff.mp h
  obtain ⟨⟨pool, b4⟩, hpool, h⟩ := Option.bind_eq_some_iff.mp h
  obtain ⟨⟨flags, b5⟩, -, h⟩ := Option.bind_eq_some_iff.mp h
  obtain ⟨⟨thisSlot, b6⟩, -, h⟩ := Option.bind_eq_some_iff.mp h
  obtain ⟨name, hname, h⟩ := Option.bind_eq_some_iff.mp h
  obtain ⟨⟨superSlot, b7⟩, -, h⟩ := Option.bind_eq_some_iff.mp h
  obtain ⟨superclass, hsuper, h⟩ := Option.bind_eq_some_iff.mp h
  obtain ⟨⟨interfaces, b8⟩, hinterfaces, h⟩ := Option.bind_eq_some_iff.mp h
  -- What is read after the names only has to be in order.
  obtain ⟨⟨fields, b9⟩, -, h⟩ := Option.bind_eq_some_iff.mp h
  obtain ⟨fieldKeys, -, h⟩ := Option.bind_eq_some_iff.mp h
  obtain ⟨-, -, h⟩ := Option.bind_eq_some_iff.mp h
  obtain ⟨⟨methods, b10⟩, -, h⟩ := Option.bind_eq_some_iff.mp h
  obtain ⟨methodKeys, -, h⟩ := Option.bind_eq_some_iff.mp h
  obtain ⟨-, -, h⟩ := Option.bind_eq_some_iff.mp h
  obtain ⟨⟨attributes, b11⟩, -, h⟩ := Option.bind_eq_some_iff.mp h
  obtain ⟨-, -, h⟩ := Option.bind_eq_some_iff.mp h
  obtain ⟨-, -, h⟩ := Option.bind_eq_some_iff.mp h
  obtain ⟨-, -, h⟩ := Option.bind_eq_some_iff.mp h
  cases h
  exact ⟨pool, ⟨major, b3, b4, hpool⟩, ⟨thisSlot, hname⟩, ⟨superSlot, hsuper⟩, b7, b8, hinterfaces⟩

theorem exists_slot_of_interface {between after : Bytes} {interfaces : List String}
    (h : counted (readInterface pool) between = some (interfaces, after))
    (hmem : internal ∈ interfaces) : ∃ slot, properClass? pool slot = some internal := by
  obtain ⟨before, rest, hread⟩ := exists_of_mem_counted h hmem
  simp only [readInterface, Option.bind_eq_bind, Option.bind_eq_some_iff] at hread
  obtain ⟨⟨slot, _⟩, -, name, hname, heq⟩ := hread
  cases heq
  exact ⟨slot, hname⟩

theorem exists_slot_of_superclass (h : superclass? pool slot = some (some internal)) :
    ∃ slot, properClass? pool slot = some internal := by
  unfold superclass? at h
  split at h
  · cases h
  · obtain ⟨name, hname, heq⟩ := Option.map_eq_some_iff.mp h
    cases heq
    exact ⟨slot, hname⟩

theorem isClassText_of_decode (h : decode bytes = some file) :
    ∀ name ∈ file.names, IsClassText name := by
  obtain ⟨pool, ⟨major, before, rest, hpool⟩, ⟨thisSlot, hthis⟩, ⟨superSlot, hsuper⟩, between,
    after, hinterfaces⟩ := names_of_decode h
  intro name hname
  simp only [names, List.mem_cons, List.mem_append, Option.mem_toList] at hname
  rcases hname with rfl | hparent | hinterface
  · exact isClassText_of_properClass? hpool hthis
  · rw [hparent] at hsuper
    obtain ⟨slot, hslot⟩ := exists_slot_of_superclass hsuper
    exact isClassText_of_properClass? hpool hslot
  · obtain ⟨slot, hslot⟩ := exists_slot_of_interface hinterfaces hinterface
    exact isClassText_of_properClass? hpool hslot

end ClassFile

/-- Before a file is loaded, a seek to its first byte has come to an end. -/
theorem FileAccess.oriented_load {α : Type} (failed : α) (next : ByteArray → α) :
    (load failed next).Oriented false :=
  ⟨nofun, fun _ => ⟨nofun, fun _ => ⟨rfl, fun _ => trivial⟩, trivial⟩, trivial⟩

theorem FileAccess.run_load {α : Type} (failed : α) (next : ByteArray → α) (data : ByteArray)
    (position : Nat) : (load failed next).run (OpenFile.mk data position) = next data := by
  have hsize : ((data.size : Int) + 0).toNat? = some data.size := by
    rw [Int.add_zero]
    rfl
  simp only [load, run, Seekable.seek, SeekFrom.place?, hsize, Seekable.read, Nat.zero_add,
    ByteArray.extract_zero_size]

instance : Formats.Lawful where
  reads_legal := ClassFile.decode_of_encodes
  names_legal h name hname := (ClassFile.isClassText_of_decode h name hname).1
  opens_anywhere := FileAccess.oriented_load none Zip.open?

end JniHeaders
