import JniHeaders.Extraction
import JniHeaders.Header

/-!
From extracted methods to headers: one header for all of them, or one for each class. A method
has its long symbol where another native method of the batch has its short one and other
parameters. Whether that is so is decided on the whole batch, and methods that were set aside
count.
-/

namespace JniHeaders

/-- What tells overloads apart. A descriptor that can't be read is taken as text. -/
inductive Parameters where
  | types (list : List JavaType)
  | text (descriptor : String)
  deriving DecidableEq, Repr

def SkippedMethod.parameters (method : SkippedMethod) : Parameters :=
  match MethodSignature.parse method.descriptor with
  | .ok signature => .types signature.parameters
  | .error _ => .text method.descriptor

/-- The name of the file that holds the header of a class, less its extension. Classes that
differ only in underscores and dollar signs share a header. -/
def headerStem (className : String) : String :=
  String.ofList (className.toList.map fun c => if c = '$' then '_' else c)

def includeGuard (stem : String) : String :=
  String.ofList ("_Included_".toList ++
    stem.toList.map fun c => if c.isAlphanum ∨ c = '_' then c else '_')

/-- The methods of each header under its stem, and the place that each stem has among them. -/
structure Grouping where
  groups : List (String × List NativeMethod)
  places : List (String × Nat)

namespace Grouping

def empty : Grouping := ⟨[], []⟩

/-- A stem has its place where it is first met. -/
def addStem (grouping : Grouping) (stem : String) : Grouping :=
  match grouping.places.lookup stem with
  | some _ => grouping
  | none =>
    { groups := grouping.groups ++ [(stem, [])]
      places := (stem, grouping.groups.length) :: grouping.places }

def addMethod (grouping : Grouping) (method : NativeMethod) : Grouping :=
  match grouping.places.lookup (headerStem method.className) with
  | some place =>
    { grouping with
      groups := grouping.groups.modify place fun (stem, methods) => (stem, methods ++ [method]) }
  | none => grouping

end Grouping

namespace Extraction

def variants (extraction : Extraction) (shortName : String) : List Parameters :=
  (extraction.methods.filter (·.symbol.short = shortName)).map (.types ·.signature.parameters)
    ++ (extraction.skipped.filter (·.shortName = shortName)).map (·.parameters)

def isOverloaded (extraction : Extraction) (shortName : String) : Bool :=
  match extraction.variants shortName with
  | [] => false
  | first :: others => others.any (· ≠ first)

def symbolOf (extraction : Extraction) (method : NativeMethod) : String :=
  if extraction.isOverloaded method.symbol.short then method.symbol.long
  else method.symbol.short

def declare (extraction : Extraction) (method : NativeMethod) : Declaration where
  className := method.className
  methodName := method.methodName
  descriptor := method.descriptor
  symbol := extraction.symbolOf method
  isStatic := method.isStatic
  result := method.result
  parameters := method.parameters

def firsts (seen : List String) : List NativeMethod → List NativeMethod
  | [] => []
  | method :: methods =>
    if seen.contains method.symbol.long then firsts seen methods
    else method :: firsts (method.symbol.long :: seen) methods

def repeats (seen : List String) : List NativeMethod → List NativeMethod
  | [] => []
  | method :: methods =>
    if seen.contains method.symbol.long then method :: repeats seen methods
    else repeats (method.symbol.long :: seen) methods

def declarations (extraction : Extraction) (methods : List NativeMethod) : List Declaration :=
  (firsts [] methods).map extraction.declare

def repeatNotices (methods : List NativeMethod) : List Notice :=
  (repeats [] methods).map fun method =>
    .repeatedDeclaration method.className method.methodName method.descriptor method.symbol.long

def merged (extraction : Extraction) (options : HeaderOptions) : Header where
  guard := options.guard
  comments := options.comments
  declarations := extraction.declarations extraction.methods

def mergedNotices (extraction : Extraction) : List Notice := repeatNotices extraction.methods

def classNames (extraction : Extraction) : List String :=
  extraction.classes ++ extraction.methods.map (·.className)

def grouping (extraction : Extraction) : Grouping :=
  extraction.methods.foldl .addMethod
    ((extraction.classNames.map headerStem).foldl .addStem .empty)

/-- Each header needs a guard of its own, so the name of a requested guard is of no use. -/
def classGuard (guard : Guard) (stem : String) : Guard :=
  match guard with
  | .pragmaOnce => .pragmaOnce
  | _ => .named (includeGuard stem)

def classHeader (extraction : Extraction) (options : HeaderOptions) (stem : String)
    (methods : List NativeMethod) : Header where
  guard := classGuard options.guard stem
  comments := options.comments
  declarations := extraction.declarations methods

def perClass (extraction : Extraction) (options : HeaderOptions) : List (String × Header) :=
  extraction.grouping.groups.map fun (stem, methods) =>
    (stem, extraction.classHeader options stem methods)

def perClassNotices (extraction : Extraction) : List Notice :=
  extraction.grouping.groups.flatMap fun (_, methods) => repeatNotices methods

end Extraction

end JniHeaders
