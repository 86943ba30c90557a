import JniHeaders.Generation

/-!
Arguments of the program. They are read from the left, and the first that asks for help, asks for
the version or makes no sense ends the reading. Whether they make sense together is judged when
all of them have been read.
-/

namespace JniHeaders.CommandLine

inductive Flag where
  | print
  | pragmaOnce
  | noComments
  | noPlatformClasses
  | all
  deriving DecidableEq, Repr

inductive Parameter where
  | input
  | lookup
  | output
  | directory
  | includeGuardName
  | javaHome
  deriving DecidableEq, Repr

inductive OptionName where
  | flag (flag : Flag)
  | parameter (parameter : Parameter)
  | help
  | version
  deriving DecidableEq, Repr

inductive Item where
  | flag (flag : Flag)
  | value (parameter : Parameter) (text : String)
  | className (name : String)
  deriving DecidableEq, Repr

inductive Halt where
  | misuse
  | help
  | version
  deriving DecidableEq, Repr

inductive Word where
  | endOfOptions
  | name (text : String)
  | option (name : OptionName) (attached : Option String)
  | unknown
  deriving DecidableEq, Repr

def longNames : List (String × OptionName) :=
  [("classpath", .parameter .input), ("lookup", .parameter .lookup),
    ("output", .parameter .output), ("directory", .parameter .directory), ("print", .flag .print),
    ("pragma-once", .flag .pragmaOnce), ("include-guard-name", .parameter .includeGuardName),
    ("no-comments", .flag .noComments), ("java-home", .parameter .javaHome),
    ("no-platform-classes", .flag .noPlatformClasses), ("all", .flag .all), ("help", .help),
    ("version", .version)]

def shortNames : List (Char × OptionName) :=
  [('c', .parameter .input), ('o', .parameter .output), ('d', .parameter .directory),
    ('h', .help), ('V', .version)]

namespace Word

/-- An equals sign sets off a value. -/
def ofLong (text : List Char) : Word :=
  match longNames.lookup (String.ofList (text.takeWhile (· ≠ '='))) with
  | none => unknown
  | some found => option found ((text.dropWhile (· ≠ '=')).tail?.map String.ofList)

def attached : List Char → Option String
  | [] => none
  | '=' :: value => some (String.ofList value)
  | value => some (String.ofList value)

/-- What follows the letter is its value, less an equals sign at the front. It is of no matter
where the letter takes no value, as such a letter ends the reading. -/
def ofShort (letter : Char) (text : List Char) : Word :=
  match shortNames.lookup letter with
  | none => unknown
  | some (.parameter parameter) => option (.parameter parameter) (attached text)
  | some found => option found none

/-- A dash alone is a name. -/
def of (argument : String) : Word :=
  match argument.toList with
  | ['-', '-'] => endOfOptions
  | '-' :: '-' :: text => ofLong text
  | ['-'] => name argument
  | '-' :: letter :: text => ofShort letter text
  | _ => name argument

end Word

namespace Parameter

def isRepeatable : Parameter → Bool
  | input | lookup => true
  | _ => false

def isPath : Parameter → Bool
  | includeGuardName => false
  | _ => true

end Parameter

def values (items : List Item) (parameter : Parameter) : List String :=
  items.filterMap fun
    | .value other text => if other = parameter then some text else none
    | _ => none

def classNames (items : List Item) : List String :=
  items.filterMap fun
    | .className name => some name
    | _ => none

def has (items : List Item) (flag : Flag) : Bool := items.contains (.flag flag)

/-- No path is empty, and only some options can be used again. -/
def isAllowed (items : List Item) : Item → Bool
  | .flag flag => !has items flag
  | .value parameter text =>
    (parameter.isRepeatable || (values items parameter).isEmpty) &&
      !(parameter.isPath && text.isEmpty)
  | .className _ => true

def accept (items : List Item) (item : Item) : Except Halt (List Item) :=
  if isAllowed items item then .ok (items ++ [item]) else .error .misuse

/-- Reads arguments and adds what they say. The value of an option is attached to it or is the
next argument, which must not look like an option. Only a value may be attached. -/
def read (items : List Item) : List String → Except Halt (List Item)
  | [] => .ok items
  | argument :: arguments =>
    match Word.of argument with
    | .endOfOptions => .ok (items ++ arguments.map .className)
    | .name text => read (items ++ [.className text]) arguments
    | .unknown => .error .misuse
    | .option .version none => .error .version
    | .option .help none => .error .help
    | .option (.flag flag) none =>
      match accept items (.flag flag) with
      | .error halt => .error halt
      | .ok items => read items arguments
    | .option (.parameter parameter) (some value) =>
      match accept items (.value parameter value) with
      | .error halt => .error halt
      | .ok items => read items arguments
    | .option (.parameter parameter) none =>
      match arguments with
      | [] => .error .misuse
      | value :: arguments =>
        match Word.of value, accept items (.value parameter value) with
        | .name _, .ok items => read items arguments
        | _, _ => .error .misuse
    | .option _ (some _) => .error .misuse

inductive Destination where
  | file (path : String)
  | directory (path : String)
  | standardOutput
  deriving DecidableEq, Repr

structure Command where
  settings : Settings
  destination : Destination
  deriving DecidableEq, Repr

def destinations (items : List Item) : List Destination :=
  (values items .output).map .file ++ (values items .directory).map .directory ++
    if has items .print then [.standardOutput] else []

def selection? (items : List Item) : Option (Option (List String)) :=
  match classNames items, has items .all with
  | [], true => some none
  | name :: names, false => some (some (name :: names))
  | _, _ => none

def guards (items : List Item) : List Guard :=
  (if has items .pragmaOnce then [.pragmaOnce] else []) ++
    (values items .includeGuardName).map .named

/-- Every header of a directory has a guard of its own, and a platform that is not used has no
place. -/
def isConsistent (items : List Item) : Bool :=
  (values items .includeGuardName = [] || values items .directory = []) &&
    (values items .javaHome = [] || !has items .noPlatformClasses)

def Command.of? (items : List Item) : Option Command :=
  match values items .input, destinations items, selection? items, guards items with
  | _ :: _, [destination], some selection, guards =>
    if isConsistent items && guards.length ≤ 1 then
      some {
        settings := {
          inputs := values items .input
          lookups := values items .lookup
          selection := selection
          javaHome := (values items .javaHome).head?
          hasPlatformClasses := !has items .noPlatformClasses
          options := {
            comments := if has items .noComments then .terse else .verbose
            guard := guards.head?.getD .none } }
        destination := destination }
    else none
  | _, _, _, _ => none

def Command.parse (arguments : List String) : Except Halt Command :=
  match read [] arguments with
  | .error halt => .error halt
  | .ok items =>
    match Command.of? items with
    | none => .error .misuse
    | some command => .ok command

end JniHeaders.CommandLine
