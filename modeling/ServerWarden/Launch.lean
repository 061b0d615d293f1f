/-
# The command line of the server

Configured parameters come first, those with a minus before those with a plus, each kind in name
order; then the parameters whose values this program decides.  A configured parameter with one of
those names is dropped, and the log says so unless it was switched off anyway.
-/
import ServerWarden.Config.Basic
import ServerWarden.Files.Path
import ServerWarden.Log

namespace ServerWarden

/-- What is needed to start the server. -/
structure LaunchSpec where
  program : String
  args : List String
  workingDir : String
  deriving DecidableEq, Repr, Inhabited

namespace LaunchSpec

/-- The program to start where the configuration names none. -/
def defaultBinary (kind : Framework) : String :=
  if kind = .carbon then "carbon.sh" else "runds.sh"

/-- The arguments of one parameter. -/
def argsOf (name : String) : LaunchValue → List String
  | .flag false => []
  | .flag true => [name]
  | .text t => [name, t]

/-- The arguments of parameters, in their order. -/
def argsOfParams (params : LaunchParams) : List String :=
  params.flatMap fun (name, value) => argsOf name value

/-- The parameters whose values this program decides. -/
def isManaged (p : Passthrough) (name : String) : Bool :=
  match name with
  | "+rcon.password" | "+rcon.web" | "+server.identity" | "+server.seed" => true
  | "+rcon.ip" => p.ip
  | "+rcon.port" => p.port
  | _ => false

/-- The arguments of parameters that are not managed, with a line for each managed one that is
dropped. -/
def unmanagedArgs (p : Passthrough) : LaunchParams → Logged (List String)
  | [] => pure []
  | (name, value) :: rest => do
    if value ≠ .flag false ∧ isManaged p name then
      Logged.say .warn .launch <|
        s!"Ignoring configured launch parameter `{name}` because its value is " ++
          "determined automatically"
      unmanagedArgs p rest
    else return argsOf name value ++ (← unmanagedArgs p rest)

/-- The managed parameters with their values. -/
def managedArgs (c : Config) (seed : Int) : List String :=
  ["+rcon.password", c.rcon.password] ++
    (if c.rcon.passthrough.ip then ["+rcon.ip", c.rcon.ip] else []) ++
    (if c.rcon.passthrough.port then ["+rcon.port", toString c.rcon.port] else []) ++
    ["+rcon.web", "1", "+server.identity", c.identity, "+server.seed", toString seed]

/-- The command line of a configuration.  `draw` is the seed that a random strategy comes up
with. -/
def ofConfig (c : Config) (draw : Int) : Logged LaunchSpec := do
  let binary := c.server.launchBinary.getD (defaultBinary c.update.framework.kind)
  let plus ← unmanagedArgs c.rcon.passthrough c.launchPlus
  return {
    program := Path.join c.installPath binary
    args := argsOfParams c.launchMinus ++ plus ++ managedArgs c (c.seed.select draw)
    workingDir := c.installPath }

end LaunchSpec
end ServerWarden
