import JniHeaders.Proofs.ClassFileFormat
import JniHeaders.Proofs.LookupRuns

/-!
Laying out constants. A constant that is already there is not added again, so that one slot serves
all who need it. What a slot was given for stays in it, however many constants follow.
-/

namespace JniHeaders.ClassFile

def Entry.intern (entry : Entry) (entries : List Entry) : Nat × List Entry :=
  (entries.idxOf entry + 1, if entry ∈ entries then entries else entries ++ [entry])

def placeText (value : String) (entries : List Entry) : Nat × List Entry :=
  (Entry.text value).intern entries

def placeClass (name : String) (entries : List Entry) : Nat × List Entry :=
  let (slot, entries) := placeText name entries
  (Entry.classOf slot).intern entries

section Slots

variable {entries more : List Entry} {slot : Nat}

theorem entryAt?_of_prefix (h : entries <+: more) {entry : Entry}
    (hslot : entryAt? entries slot = some entry) : entryAt? more slot = some entry := by
  obtain ⟨others, rfl⟩ := h
  cases slot with
  | zero => cases hslot
  | succ n => exact (List.getElem?_append_left (List.getElem?_eq_some_iff.mp hslot).1).trans hslot

theorem IsText.mono {value : String} (hslot : IsText entries slot value)
    (h : entries <+: more) : IsText more slot value :=
  entryAt?_of_prefix h hslot

theorem IsClass.mono {name : String} (hslot : IsClass entries slot name)
    (h : entries <+: more) : IsClass more slot name := by
  obtain ⟨inner, hclass, htext⟩ := hslot
  exact ⟨inner, entryAt?_of_prefix h hclass, htext.mono h⟩

theorem prefix_intern (entry : Entry) (entries : List Entry) :
    entries <+: (entry.intern entries).2 := by
  unfold Entry.intern
  split
  · exact List.prefix_refl entries
  · exact List.prefix_append entries [entry]

theorem entryAt?_intern (entry : Entry) (entries : List Entry) :
    entryAt? (entry.intern entries).2 (entry.intern entries).1 = some entry := by
  simp only [Entry.intern, entryAt?]
  split
  · rename_i hmem
    rw [List.getElem?_eq_getElem (List.idxOf_lt_length_of_mem hmem), List.getElem_idxOf]
  · rename_i hnew
    rw [List.idxOf_eq_length hnew, List.getElem?_concat_length]

end Slots

/-- The texts that are laid out, and the classes, each with the text of its name before it. -/
structure Consistent (names texts : List String) (entries : List Entry) : Prop where
  texts : ∀ value, .text value ∈ entries → value ∈ texts
  classes : ∀ slot, .classOf slot ∈ entries → ∃ name ∈ names, IsText entries slot name

/-- Whatever was laid out before, it stays, and what is placed is found where it was placed, also
when more is laid out after it. -/
structure Places {β : Type} (names texts : List String)
    (place : List Entry → β × List Entry) (found : List Entry → β → Prop) : Prop where
  grows : ∀ entries, entries <+: (place entries).2
  consistent : ∀ entries, Consistent names texts entries →
    Consistent names texts (place entries).2
  placed : ∀ entries, found (place entries).2 (place entries).1
  stays : ∀ entries more b, entries <+: more → found entries b → found more b

section Placing

variable {names texts : List String}

theorem mem_of_mem_intern {entry other : Entry} {entries : List Entry}
    (h : other ∈ (entry.intern entries).2) : other = entry ∨ other ∈ entries := by
  unfold Entry.intern at h
  split at h
  · exact Or.inr h
  · rcases List.mem_append.mp h with hold | hnew
    · exact Or.inr hold
    · exact Or.inl (List.mem_singleton.mp hnew)

theorem placeText_places {value : String} (h : value ∈ texts) :
    Places names texts (placeText value) fun entries slot => IsText entries slot value where
  grows entries := prefix_intern (.text value) entries
  consistent entries hentries := by
    constructor
    · intro other hother
      rcases mem_of_mem_intern hother with heq | hold
      · cases heq
        exact h
      · exact hentries.texts other hold
    · intro slot hslot
      rcases mem_of_mem_intern hslot with heq | hold
      · cases heq
      · obtain ⟨name, hname, htext⟩ := hentries.classes slot hold
        exact ⟨name, hname, htext.mono (prefix_intern _ _)⟩
  placed entries := entryAt?_intern (.text value) entries
  stays _ _ _ hprefix hfound := hfound.mono hprefix

theorem placeClass_places {name : String} (hname : name ∈ names) (htext : name ∈ texts) :
    Places names texts (placeClass name) fun entries slot => IsClass entries slot name := by
  have hplace : Places names texts (placeText name) _ := placeText_places htext
  constructor
  · intro entries
    exact (hplace.grows entries).trans (prefix_intern _ _)
  · intro entries hentries
    have hbefore := hplace.consistent entries hentries
    constructor
    · intro other hother
      rcases mem_of_mem_intern hother with heq | hold
      · cases heq
      · exact hbefore.texts other hold
    · intro slot hslot
      rcases mem_of_mem_intern hslot with heq | hold
      · cases heq
        exact ⟨name, hname, (hplace.placed entries).mono (prefix_intern _ _)⟩
      · obtain ⟨other, hother, hfound⟩ := hbefore.classes slot hold
        exact ⟨other, hother, hfound.mono (prefix_intern _ _)⟩
  · intro entries
    exact ⟨_, entryAt?_intern _ _, (hplace.placed entries).mono (prefix_intern _ _)⟩
  · intro entries more slot hprefix hfound
    exact hfound.mono hprefix

theorem runAll_places {α β : Type} {place : α → List Entry → β × List Entry}
    {found : α → List Entry → β → Prop} {values : List α}
    (h : ∀ value ∈ values, Places names texts (place value) (found value)) :
    Places names texts (runAll place values) fun entries placed =>
      List.Forall₂ (fun b value => found value entries b) placed values := by
  induction values with
  | nil =>
    exact ⟨fun entries => List.prefix_refl entries, fun _ h => h, fun _ => .nil,
      fun _ _ _ _ hfound => by cases hfound; exact .nil⟩
  | cons value values ih =>
    obtain ⟨hfirst, hothers⟩ := List.forall_mem_cons.mp h
    have hrest := ih hothers
    constructor
    · intro entries
      exact (hfirst.grows entries).trans (hrest.grows _)
    · intro entries hentries
      exact hrest.consistent _ (hfirst.consistent entries hentries)
    · intro entries
      refine .cons ?_ (hrest.placed _)
      exact hfirst.stays _ _ _ (hrest.grows _) (hfirst.placed entries)
    · intro entries more placed hprefix hfound
      cases hfound with
      | cons hvalue hvalues =>
        exact .cons (hfirst.stays _ _ _ hprefix hvalue) (hrest.stays _ _ _ hprefix hvalues)

end Placing

end JniHeaders.ClassFile
