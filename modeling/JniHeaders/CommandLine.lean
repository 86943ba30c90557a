import JniHeaders.CommandLine.Arguments
import JniHeaders.Formats.Standard

/-!
A run of the program, as what it leaves: an exit code, texts and files. Arguments that make no
sense give another code than a run that fails.
-/

namespace JniHeaders.CommandLine

structure Outcome where
  exitCode : Nat
  output : String
  notices : List Notice
  failure : Option String
  tree : FileTree

def Outcome.diagnostics (outcome : Outcome) : List String :=
  outcome.notices.map (fun notice =>
    (match notice.level with
      | .info => " INFO  > "
      | .warn => " WARN  > ") ++ notice.text) ++ outcome.failure.toList

def versionText : String := "classh 0.1.0\n"

def helpLines : List String :=
  ["Usage: classh [OPTIONS] --classpath <PATH> <DESTINATION> <--all|CLASS...>",
    "",
    "Destinations:",
    "  -o, --output <FILE>              Write a single header to FILE",
    "  -d, --directory <DIR>            Write one header per class into DIR",
    "      --print                      Write a single header to stdout",
    "",
    "Options:",
    "  -c, --classpath <PATH>           Class file, JAR archive or directory to export",
    "      --lookup <PATH>              JAR archive, JMOD file or directory for lookups only",
    "      --pragma-once                Protect headers with #pragma once",
    "      --include-guard-name <NAME>  Protect the single header with a guard named NAME",
    "      --no-comments                Don't emit comments",
    "      --java-home <DIR>            JDK whose class library resolves platform types",
    "      --no-platform-classes        Don't look up platform classes",
    "      --all                        Export every class found in the inputs",
    "  -h, --help                       Print help",
    "  -V, --version                    Print version"]

def helpText : String := String.join (helpLines.map (· ++ "\n"))

def Halt.outcome (tree : FileTree) : Halt → Outcome
  | .misuse => ⟨2, "", [], some "error: these arguments make no sense, see --help", tree⟩
  | .help => ⟨0, helpText, [], none, tree⟩
  | .version => ⟨0, versionText, [], none, tree⟩

/-- Warns once more of methods that were set aside. -/
def skippedNotices (headers : Headers) : List Notice :=
  match headers.extraction.skipped with
  | [] => []
  | skipped => [.methodsSkipped skipped.length]

def ofWrite {α : Type} (notices : List Notice) (failing : String) :
    Reported α × FileTree → Outcome
  | (⟨more, .ok _⟩, tree) => ⟨0, "", notices ++ more, none, tree⟩
  | (⟨more, .error cause⟩, tree) => ⟨1, "", notices ++ more, some (failing ++ cause.message), tree⟩

def Destination.put (headers : Headers) (notices : List Notice) (tree : FileTree) :
    Destination → Outcome
  | .file path => ofWrite notices "Error writing output file: " (headers.writeFile path tree)
  | .directory path =>
    ofWrite notices "Error writing headers to directory: " (headers.writeDirectory path tree)
  | .standardOutput =>
    ⟨0, headers.render, notices ++ headers.extraction.mergedNotices, none, tree⟩

def Command.run [Formats] (command : Command) (tree : FileTree) (environment : Option String) :
    Outcome :=
  match command.settings.generate tree environment with
  | ⟨notices, .error cause⟩ =>
    ⟨1, "", notices, some ("Error generating headers: " ++ cause.message), tree⟩
  | ⟨notices, .ok headers⟩ =>
    command.destination.put headers (notices ++ skippedNotices headers) tree

def run [Formats] (arguments : List String) (tree : FileTree) (environment : Option String) :
    Outcome :=
  match Command.parse arguments with
  | .error halt => halt.outcome tree
  | .ok command => command.run tree environment

end JniHeaders.CommandLine
