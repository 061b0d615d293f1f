/-
# Why a file operation fails

The operating system answers with a number; reading text adds two failures of its own.  The text of
a number ends in the number itself, so that a message always shows it.
-/

namespace ServerWarden

/-- A refusal of the operating system. -/
inductive SystemError where
  | notFound | permissionDenied | alreadyExists | notDirectory | isDirectory | invalidArgument
  | nameTooLong | noSuchProcess | execFormat
  deriving DecidableEq, Repr

namespace SystemError

def number : SystemError → Nat
  | .notFound => 2
  | .noSuchProcess => 3
  | .execFormat => 8
  | .permissionDenied => 13
  | .alreadyExists => 17
  | .notDirectory => 20
  | .isDirectory => 21
  | .invalidArgument => 22
  | .nameTooLong => 36

def words : SystemError → String
  | .notFound => "No such file or directory"
  | .noSuchProcess => "No such process"
  | .execFormat => "Exec format error"
  | .permissionDenied => "Permission denied"
  | .alreadyExists => "File exists"
  | .notDirectory => "Not a directory"
  | .isDirectory => "Is a directory"
  | .invalidArgument => "Invalid argument"
  | .nameTooLong => "File name too long"

def message (e : SystemError) : String :=
  s!"{e.words} (os error {e.number})"

end SystemError

/-- Why reading or writing fails. -/
inductive FileError where
  | system (e : SystemError)
  /-- The bytes are not UTF-8. -/
  | notText
  /-- The file ends before the bytes that were asked for. -/
  | tooShort
  | other (text : String)
  deriving DecidableEq, Repr

def FileError.message : FileError → String
  | .system e => e.message
  | .notText => "stream did not contain valid UTF-8"
  | .tooShort => "early eof"
  | .other text => text

end ServerWarden
