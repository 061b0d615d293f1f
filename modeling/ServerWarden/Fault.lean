/-
# What can go wrong in a run

A fault is a cause with what is known about it; the wording is in `Fault.message`.  A connection
that is down, a command without an answer and an unreadable health report are no faults: those
paths answer with nothing.
-/
import ServerWarden.Child.Status
import ServerWarden.Files.Error
import ServerWarden.KeyValues.Token

namespace ServerWarden

/-- Why a frame could not be queued. -/
inductive TransportFault where
  | notConnected
  | connectionClosed
  | other (text : String)
  deriving DecidableEq, Repr

/-- Why a program could not be started or signalled. -/
inductive ProcessFault where
  | spawn (program : String) (why : SystemError)
  | other (text : String)
  deriving DecidableEq, Repr

/-- Why an update could not be looked up or installed. -/
inductive UpdateFault where
  | badStatus (url : String) (status : String)
  | noFramework
  | noDownload (framework : String) (release : String)
  | noSteamCmd
  | noAppInfo
  | steamCmdStatus (status : ExitStatus)
  | probe (why : SystemError)
  | probeStatus (status : ExitStatus)
  | unknownArchive (archive : String)
  | extractStatus (archive : String) (status : ExitStatus)
  deriving DecidableEq, Repr

/-- Why a configuration does not make sense. -/
inductive ConfigFault where
  | noInstallPath
  | noIdentity
  | noPassword
  | noAddress
  | zeroPort
  | zeroChatIdentifier
  deriving DecidableEq, Repr

inductive Fault where
  | file (e : FileError)
  | transport (why : TransportFault)
  /-- A text that is not the JSON that was expected. -/
  | protocol
  | process (why : ProcessFault)
  | update (why : UpdateFault)
  | http (url : String)
  | manifest (e : KeyValues.Error)
  | config (why : ConfigFault)
  deriving DecidableEq, Repr

def TransportFault.message : TransportFault → String
  | .notConnected => "not connected"
  | .connectionClosed => "connection closed"
  | .other text => text

def ProcessFault.message : ProcessFault → String
  | .spawn program why => s!"failed to spawn {program}: {why.message}"
  | .other text => text

def UpdateFault.message : UpdateFault → String
  | .badStatus url status => s!"{url} responded with status {status}"
  | .noFramework => "no framework configured"
  | .noDownload framework release =>
    "no " ++ framework ++ " download found in release '" ++ release ++ "'"
  | .noSteamCmd => "steamcmd was not found"
  | .noAppInfo => "SteamCMD output did not include a valid app info tree"
  | .steamCmdStatus status => s!"SteamCMD returned non-zero exit status: {status.text}"
  | .probe why => s!"failed to run version probe: {why.message}"
  | .probeStatus status => s!"version probe returned non-zero exit status: {status.text}"
  | .unknownArchive archive => s!"unrecognized archive format: {archive}"
  | .extractStatus archive status =>
    s!"extracting {archive} returned non-zero exit status: {status.text}"

def ConfigFault.message : ConfigFault → String
  | .noInstallPath => "install.path cannot be empty"
  | .noIdentity => "install.identity cannot be empty"
  | .noPassword => "rcon.password cannot be empty"
  | .noAddress => "rcon.ip cannot be empty"
  | .zeroPort => "rcon.port cannot be 0"
  | .zeroChatIdentifier =>
    "rcon.chat_identifier cannot be 0; that identifier is reserved for broadcasts"

namespace Fault

/-- The words that a kind of fault starts with. -/
inductive Heading where
  | file | transport | protocol | process | update | http | manifest (line : Nat) | config
  deriving DecidableEq, Repr

def Heading.text : Heading → String
  | .file => "IO Error: "
  | .transport => "RCON transport error: "
  | .protocol => "RCON protocol error: "
  | .process => "Process error: "
  | .update => "Update error: "
  | .http => "HTTP client error: "
  | .manifest line => s!"Manifest parse error at line {line}: "
  | .config => "Invalid configuration: "

def heading : Fault → Heading
  | .file _ => .file
  | .transport _ => .transport
  | .protocol => .protocol
  | .process _ => .process
  | .update _ => .update
  | .http _ => .http
  | .manifest e => .manifest e.line
  | .config _ => .config

/-- What a fault says after its heading. -/
def detail : Fault → String
  | .file e => e.message
  | .transport why => why.message
  | .protocol => "the text is not the JSON that was expected"
  | .process why => why.message
  | .update why => why.message
  | .http url => s!"error sending request for url ({url})"
  | .manifest e => e.problem.message
  | .config why => why.message

/-- The full wording of a fault. -/
def message (f : Fault) : String := f.heading.text ++ f.detail

end Fault
end ServerWarden
