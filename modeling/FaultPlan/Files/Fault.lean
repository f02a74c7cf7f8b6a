/-
  Faults of the file system and of starting programs, and the text that the system has for each.
-/

namespace FaultPlan

/-- Why an operation on files, or the start of a program, was refused. -/
inductive IoFault where
  | notFound
  | permissionDenied
  | alreadyExists
  | notDirectory
  | isDirectory
  | noSpace
  /-- A path leads through more links than are followed. -/
  | linkLoop
  /-- A path, or a name in it, has more bytes than are taken. -/
  | nameTooLong
  /-- An argument of a program has more bytes than are taken. -/
  | argumentTooLong
  /-- A path holds the character that ends texts for the system. -/
  | nulInPath
  /-- An argument of a program, or its name, holds that character. -/
  | nulInArgument
  /-- The contents of a file are no UTF-8 text. -/
  | notText
  /-- A fault known by its text alone. -/
  | other (text : String)
  deriving DecidableEq, Repr

/-- The system's text, with its error number where there is one. -/
def IoFault.message : IoFault → String
  | .notFound => "No such file or directory (os error 2)"
  | .permissionDenied => "Permission denied (os error 13)"
  | .alreadyExists => "File exists (os error 17)"
  | .notDirectory => "Not a directory (os error 20)"
  | .isDirectory => "Is a directory (os error 21)"
  | .noSpace => "No space left on device (os error 28)"
  | .linkLoop => "Too many levels of symbolic links (os error 40)"
  | .nameTooLong => "File name too long (os error 36)"
  | .argumentTooLong => "Argument list too long (os error 7)"
  | .nulInPath => "file name contained an unexpected NUL byte"
  | .nulInArgument => "nul byte found in provided data"
  | .notText => "stream did not contain valid UTF-8"
  | .other text => text

end FaultPlan
