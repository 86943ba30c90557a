import JniHeaders.Descriptor.Parser

/-!
What can go wrong, as causes, and the one place that words them.
-/

namespace JniHeaders

inductive FileError where
  | notFound
  | notADirectory
  | isADirectory
  | alreadyExists
  | invalidData
  deriving DecidableEq, Repr

namespace FileError

def message : FileError → String
  | notFound => "No such file or directory (os error 2)"
  | notADirectory => "Not a directory (os error 20)"
  | isADirectory => "Is a directory (os error 21)"
  | alreadyExists => "File exists (os error 17)"
  | invalidData => "Invalid checksum"

end FileError

inductive Error where
  | classNotFound (name : String)
  | badDescriptor (cause : DescriptorError)
  | badClassFile
  | badArchive
  | file (cause : FileError)
  | notAnInput (path : String)
  | notInInputs (name : String)
  deriving DecidableEq, Repr

namespace Error

def message : Error → String
  | classNotFound name => "Class not found: " ++ name
  | badDescriptor cause => "Failed to parse descriptor: " ++ cause.message
  | badClassFile => "Failed to parse class file: invalid class file"
  | badArchive => "Failed to read JAR file: invalid Zip archive"
  | file cause => "IO error: " ++ cause.message
  | notAnInput path =>
    "Invalid input: " ++ path ++ " is not a class file, JAR archive or directory"
  | notInInputs name => "Invalid input: class " ++ name ++ " not found in the inputs"

end Error

end JniHeaders
