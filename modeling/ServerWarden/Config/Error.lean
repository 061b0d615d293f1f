/-
# Why there is no configuration

A file that cannot be read, a text that is no document, a strategy without its numbers, a setting
that makes no sense, a directory that is missing.  An error found in a file names the file in front.
-/
import ServerWarden.Fault

namespace ServerWarden.Config

/-- Why there is no configuration. -/
inductive Error where
  /-- The text is no document, or a setting has the wrong type. -/
  | malformed
  | seedMissing
  | seedListEmpty
  | invalid (why : ConfigFault)
  | unreadable (path : String) (why : FileError)
  | inFile (path : String) (why : Error)
  | noInstall (path : String)
  | noIdentity (path : String)

/-- What this program says about an error, without what a library adds. -/
def Error.message : Error → String
  | .malformed => "Failed to parse TOML configuration"
  | .seedMissing => "seed.fixed is required when seed.strategy = \"fixed\""
  | .seedListEmpty => "seed.list must be non-empty when seed.strategy = \"list\""
  | .invalid why => (Fault.config why).message
  | .unreadable path _ => "Failed to read config file at '" ++ path ++ "'"
  | .inFile path why => "Invalid config file '" ++ path ++ "': " ++ why.message
  | .noInstall path => s!"Server install path does not exist: {path}"
  | .noIdentity path => s!"Server identity path does not exist: {path}"

/-- The first cause of an error. -/
def Error.root : Error → Error
  | .inFile _ why => why.root
  | e => e

/-- What is said about an error in the log, down to its first cause. -/
def Error.fullMessage (e : Error) : String :=
  match e.root with
  | .malformed => e.message ++ ": the text is not a document of the expected form"
  | .unreadable _ why => e.message ++ ": " ++ why.message
  | _ => e.message

end ServerWarden.Config
