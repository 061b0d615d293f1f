/-
# Frames of the remote console

Each frame is one JSON text.  A command carries an identifier, which the server repeats in its
answer; zero asks for no answer, and marks an announcement when it comes in.  Chat comes under an
identifier of its own, or is marked by its type.
-/
import ServerWarden.Config.Basic
import ServerWarden.Json.Quoted
import ServerWarden.Json.Record

namespace ServerWarden.Rcon

/-- The identifier of commands without an answer and of announcements. -/
def broadcastIdentifier : Int := 0

/-- The name that goes with every command. -/
def senderTag : String := "WebRcon"

/-- The type of chat frames. -/
def chatType : String := "Chat"

/-- A frame that came in. -/
structure Frame where
  identifier : Int
  message : String
  kind : Option String
  deriving DecidableEq, Repr

/-- Whether a frame answers no command. -/
def Frame.isBroadcast (chatIdentifier : Int) (f : Frame) : Bool :=
  f.identifier == broadcastIdentifier || f.identifier == chatIdentifier || f.kind == some chatType

/-- Reads a frame. -/
def Frame.read? (text : String) : Option Frame := do
  let r ← (← Json.read? text).record? ["Identifier", "Message", "Type"]
  return {
    identifier := ← r.required "Identifier" Json.asInt32?
    message := ← r.optional "Message" Json.asText? ""
    kind := ← r.optional "Type" (Json.asOptional? Json.asText?) none }

/-- The frame of a command. -/
def encodeCommand (identifier : Int) (command : String) : String :=
  String.ofList <|
    "\x7b\"Identifier\":".toList ++ (toString identifier).toList ++
      ",\"Message\":".toList ++ Json.quote command.toList ++
      ",\"Name\":".toList ++ Json.quote senderTag.toList ++ ['\x7d']

/-- Where the console is reached, and how it is listened to. -/
structure Settings where
  host : String
  port : Nat
  password : String
  /-- Whether every incoming frame is said in the log. -/
  logMessages : Bool
  chatIdentifier : Int
  deriving DecidableEq, Repr

def Settings.endpoint (s : Settings) : String := s!"{s.host}:{s.port}"

/-- The address of the console.  The password is part of it. -/
def Settings.url (s : Settings) : String := s!"ws://{s.endpoint}/{s.password}"

def Settings.ofConfig (c : RconConfig) : Settings :=
  ⟨c.ip, c.port, c.password, c.log, c.chatIdentifier⟩

end ServerWarden.Rcon
