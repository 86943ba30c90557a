import JniHeaders.Proofs.ExportedClasses
import JniHeaders.Proofs.HeaderGrouping
import JniHeaders.Proofs.OverloadResolution

/-!
Selecting classes changes nothing for those that stay. What is looked up for the others shows in no
answer, and within one class it is decided which symbols its methods get and which of them are
repeats.
-/

namespace JniHeaders

theorem filter_filter_of_imp {α : Type} {p q : α → Bool} {list : List α}
    (h : ∀ a ∈ list, p a → q a) : (list.filter q).filter p = list.filter p := by
  rw [List.filter_filter]
  refine List.filter_congr fun a ha => ?_
  by_cases hp : p a
  · simp [hp, h a ha hp]
  · simp [hp]

theorem PlainlyNamed.of_subset {classes others : List ClassInfo} (h : PlainlyNamed classes)
    (hsubset : others ⊆ classes) : PlainlyNamed others :=
  fun info hinfo => h info (hsubset hinfo)

theorem Sources.isSubclass_steady [Formats] (sources : Sources) (name ancestor : String) :
    (Sources.isSubclass name ancestor sources).2 = sources := by
  have hlookup : ∀ name (state : Sources), state = sources →
      ((fun name (state : Sources) => (state.lookup name, state)) name state).2 = sources :=
    fun _ _ hstate => hstate
  exact Ancestry.isSubclass_keeps sources.isFinite hlookup rfl rfl

namespace Extraction

/-- What a class path remembers from other classes does not show in an extraction. -/
theorem of_isSubclass_filter [Formats] {files : FileTree} {path : ClassPath} {sources : Sources}
    (hanswer : path.answer files = sources.lookup) (keep : String → Bool)
    (classes : List ClassInfo) :
    (of (ClassPath.isSubclass files) (classes.filter fun info => keep info.name) path).1 =
      (of (ClassPath.isSubclass files) classes path).1.only keep := by
  have hforget : ∀ classes, (of (ClassPath.isSubclass files) classes path).1 =
      (of Sources.isSubclass classes sources).1 := fun classes =>
    (collect_alike isSubclass_recalls _ (candidates classes) path sources ⟨hanswer, rfl⟩).1
  rw [hforget, hforget]
  exact of_filter sources.isSubclass_steady keep classes

variable {keep : String → Bool} {extraction : Extraction}

theorem variants_only {shortName : String}
    (hmethods : ∀ record ∈ extraction.methods, record.symbol.short = shortName →
      keep record.className)
    (hskipped : ∀ entry ∈ extraction.skipped, entry.shortName = shortName →
      keep entry.className) :
    (extraction.only keep).variants shortName = extraction.variants shortName := by
  unfold variants only
  rw [filter_filter_of_imp (by simpa using hmethods),
    filter_filter_of_imp (by simpa using hskipped)]

section

variable {classes : List ClassInfo} (hnames : PlainlyNamed classes)
  (hsorted : Sorted (candidates classes) extraction.methods extraction.skipped)
include hnames hsorted

theorem symbolOf_only {record : NativeMethod} (hrecord : record ∈ extraction.methods)
    (hkeep : keep record.className) :
    (extraction.only keep).symbolOf record = extraction.symbolOf record := by
  have hmethods : ∀ other ∈ extraction.methods, other.symbol.short = record.symbol.short →
      keep other.className := by
    intro other hother hshort
    rw [((short_eq_iff_names_eq hnames hsorted hother hrecord).mp hshort).1]
    exact hkeep
  have hskipped : ∀ entry ∈ extraction.skipped, entry.shortName = record.symbol.short →
      keep entry.className := by
    intro entry hentry hshort
    obtain ⟨className, method, cause, hmem, rfl⟩ := hsorted.exists_skipped hentry
    change keep className
    rw [(names_eq_of_candidate_short hnames hsorted hrecord hmem hshort).1]
    exact hkeep
  unfold symbolOf isOverloaded
  rw [variants_only hmethods hskipped]

theorem merged_only (options : HeaderOptions) :
    ((extraction.only keep).merged options).declarations =
      (extraction.merged options).declarations.filter fun declaration =>
        keep declaration.className := by
  have hlong : ∀ a ∈ extraction.methods, ∀ b ∈ extraction.methods,
      a.symbol.long = b.symbol.long → keep a.className = keep b.className := by
    intro a ha b hb hsame
    rw [(names_eq_of_long_eq hnames hsorted ha hb hsame).1]
  have hfirsts : firsts [] (extraction.only keep).methods =
      (firsts [] extraction.methods).filter fun record => keep record.className :=
    firsts_filter_of_long _ _ hlong
  have hdeclare : ∀ record ∈ (firsts [] extraction.methods).filter fun record =>
      keep record.className,
      (extraction.only keep).declare record = extraction.declare record := by
    intro record hmem
    obtain ⟨hfirst, hkeep⟩ := List.mem_filter.mp hmem
    have hsymbol := symbolOf_only hnames hsorted (mem_of_mem_firsts hfirst).1 hkeep
    rw [declare, declare, hsymbol]
  calc ((extraction.only keep).merged options).declarations
      = ((firsts [] extraction.methods).filter fun record => keep record.className).map
          (extraction.only keep).declare := by rw [← hfirsts]; rfl
    _ = ((firsts [] extraction.methods).filter fun record => keep record.className).map
          extraction.declare := List.map_congr_left hdeclare
    _ = ((firsts [] extraction.methods).map extraction.declare).filter fun declaration =>
          keep declaration.className := by rw [List.filter_map]; rfl

end

end Extraction

/-- Headers have what other headers have of certain classes, in the same order. -/
structure Headers.IsPart (part whole : Headers) (names : List String) : Prop where
  options : part.options = whole.options
  classes : part.extraction.classes = whole.extraction.classes.filter (· ∈ names)
  methods : part.extraction.methods = whole.extraction.methods.filter (·.className ∈ names)
  skipped : part.extraction.skipped = whole.extraction.skipped.filter (·.className ∈ names)
  declarations : part.merged.declarations =
    whole.merged.declarations.filter (·.className ∈ names)

/-- The headers for some of the classes are part of the headers for all, and if these are all
classes, then they are the same headers. The names of parameter classes need not be plain for
it. -/
theorem selected_headers_are_part_of_all [Formats] (settings : Settings) (tree : FileTree)
    (environment : Option String) (headers : Headers) (names : List String)
    (hall : settings.selection = none)
    (hheaders : (settings.generate tree environment).result = .ok headers)
    (hplain : PlainlyNamed (tree.inputClasses settings.inputs))
    (hnames : ∀ name ∈ names, name ∈ headers.extraction.classes) :
    ∃ part, ((settings.select names).generate tree environment).result = .ok part ∧
      part.IsPart headers names ∧
      ((∀ name ∈ headers.extraction.classes, name ∈ names) → part = headers) := by
  obtain ⟨path, _, _, hpath, hinputs⟩ := Settings.exists_of_generate_eq_ok hheaders
  obtain ⟨after, hexports, hmakes⟩ :=
    Settings.insertInputs_exports hpath (ClassPath.readable_of_insertInputs hinputs)
  generalize hexported : firstOfEachName (tree.inputClasses settings.inputs) = exported at hexports
  have hwhole := Settings.generate_of_chosen hpath hexports (by rw [hall]; rfl)
  obtain rfl := Except.ok.inj (hheaders.symm.trans hwhole)
  have hclasses := Extraction.classes_of (ClassPath.isSubclass tree) exported after
  have hchosen : Settings.choose exported (settings.select names).selection =
      .ok (exported.filter (·.name ∈ names)) := by
    rw [Settings.select, hall]
    apply Settings.choose_of_known
    simpa [hclasses] using hnames
  -- Neither the class path nor what the inputs add to it depends on the selection.
  have hpath' : ((settings.select names).classPath tree environment).result = .ok path := hpath
  have hpart := Settings.generate_of_chosen hpath' hexports hchosen
  refine ⟨_, hpart, ?_, ?_⟩
  · have hanswer : after.answer tree = _ := hmakes.answer
    have hsorted := extraction_sorted (ClassPath.isSubclass tree) exported after
    have hplainly : PlainlyNamed exported :=
      hplain.of_subset (hexported ▸ (firstOfEachName_sublist _).subset)
    rw [Extraction.of_isSubclass_filter hanswer (· ∈ names)]
    exact ⟨rfl, rfl, rfl, rfl, Extraction.merged_only hplainly hsorted settings.options⟩
  · intro hevery
    have hsame : exported.filter (·.name ∈ names) = exported := by
      rw [List.filter_eq_self]
      intro info hinfo
      exact decide_eq_true (hevery _ (hclasses ▸ List.mem_map_of_mem hinfo))
    rw [hsame]
    rfl

def threeUnselected : Settings := { threeInputs with selection := none }

/-- What is made from both classes. A method is set aside, because without the platform classes
there is nothing to compare its parameter with. -/
def headersOfBoth : Headers where
  extraction := {
    classes := ["A", "B"]
    methods := [
      voidMethod "A" "f",
      { voidMethod "A" "f" with
        signature := ⟨[.primitive .int], .primitive .void⟩
        descriptor := "(I)V"
        parameters := [.jint]
        symbol := Symbol.mangle "A" "f" [.primitive .int] },
      voidMethod "B" "f"]
    skipped := [⟨"A", "f", "(LQ;)V", "Java_A_f", .classNotFound "java.lang.String"⟩] }
  options := {}

theorem threeUnselected_generate :
    (threeUnselected.generate threeFiles none).result = .ok headersOfBoth := by
  have hoption : (threeUnselected.generate threeFiles none).result.toOption =
      some headersOfBoth := by decide +kernel
  cases hresult : (threeUnselected.generate threeFiles none).result with
  | error cause =>
    rw [hresult] at hoption
    cases hoption
  | ok headers =>
    rw [hresult] at hoption
    exact congrArg Except.ok (Option.some.inj hoption)

theorem class_stays_without_its_neighbour :
    PlainlyNamed (threeFiles.inputClasses threeUnselected.inputs) ∧
    ∃ part, ((threeUnselected.select ["A", "A"]).generate threeFiles none).result = .ok part ∧
      part.extraction.classes = ["A"] ∧
      part.extraction.skipped = headersOfBoth.extraction.skipped ∧
      part.merged.declarations.map (·.symbol) = ["Java_A_f__", "Java_A_f__I"] := by
  have hplain : PlainlyNamed (threeFiles.inputClasses threeUnselected.inputs) := by
    change PlainlyNamed (threeFiles.inputClasses ["x", "y", "z"])
    rw [threeFiles_classes]
    decide
  obtain ⟨part, hpart, his, -⟩ := selected_headers_are_part_of_all threeUnselected threeFiles none
    headersOfBoth ["A", "A"] rfl threeUnselected_generate hplain (by decide)
  refine ⟨hplain, part, hpart, his.classes.trans (by decide), his.skipped.trans (by decide), ?_⟩
  rw [his.declarations]
  decide +kernel

end JniHeaders
