/-
# Checking for updates and installing them

A check asks which artifacts have a newer version.  An install repeats until the check that follows
it finds nothing newer, or until the attempts are used up; it waits between two attempts and not
after the last.  The server is installed before the framework, as its install removes the framework.
-/
import ServerWarden.Control.Program
import ServerWarden.Supervisor.Settings

namespace ServerWarden

/-- The artifacts that need an install. -/
structure UpdatePlan where
  server : Bool
  framework : Bool
  deriving DecidableEq, Repr

namespace UpdatePlan

def any (p : UpdatePlan) : Bool := p.server || p.framework

/-- What is updated, in words. -/
def describe (p : UpdatePlan) (frameworkName : String) : String :=
  " + ".intercalate <|
    (if p.server then ["Facepunch"] else []) ++ (if p.framework then [frameworkName] else [])

end UpdatePlan

namespace Maintenance

def info (text : String) : Program Unit := .say .info .maintenance text

/-- Asks for a newer version of one artifact, if that is wanted. -/
def checkIf (wanted : Bool) (text : String) (r : Request Bool) : Program Bool :=
  if wanted then do
    info text
    .request r
  else pure false

/-- Asks which artifacts of a policy have a newer version.  The framework is asked for as well when
the server has one and the two go together. -/
def check (policy : UpdatePolicy) (frameworkOnServerUpdate : Bool) : Program UpdatePlan := do
  let server ← checkIf policy.server "Performing server update check" .checkServer
  let framework ← checkIf (policy.framework || (frameworkOnServerUpdate && server))
    "Performing plugin framework update check" .checkFramework
  return ⟨server, framework⟩

/-- What is installed, and the words for it. -/
structure Artifact where
  /-- The name at the start of a sentence. -/
  title : String
  /-- The name inside a sentence. -/
  name : String
  install : Request Unit
  check : Request Bool

def serverArtifact : Artifact := ⟨"Server", "server", .updateServer, .checkServer⟩

def frameworkArtifact (quiet : Bool) : Artifact :=
  ⟨"Plugin framework", "plugin framework", .updateFramework quiet, .checkFramework⟩

/-- One attempt to install.  The state is the number of attempts before, which wraps around at 32
bits; a right result tells whether the install was confirmed. -/
def attempt (a : Artifact) (retry : RetryPolicy) (before : UInt32) : Program (UInt32 ⊕ Bool) := do
  let attempt := before + 1
  .request a.install
  if !(← .request a.check) then
    info s!"Completed {a.name} update loop after {attempt} attempt(s)"
    return .inr true
  else if retry.maxAttempts ≠ 0 ∧ retry.maxAttempts ≤ attempt then
    .say .error .maintenance
      s!"{a.title} still out of date after {attempt} install attempt(s); giving up"
    return .inr false
  else
    .say .warn .maintenance <|
      s!"Detected {a.name} version mismatch after update attempt {attempt}; " ++
        s!"retrying in {retry.delay.text}"
    .request (.sleep retry.delay)
    return .inl attempt

/-- Installs an artifact until it is confirmed or the attempts are used up.  Answers whether it was
confirmed. -/
def install (a : Artifact) (retry : RetryPolicy) : Program Bool := do
  info s!"Entering {a.name} update loop"
  .loop (attempt a retry) 0

/-- Installs an artifact, if that is wanted. -/
def installIf (wanted : Bool) (a : Artifact) (retry : RetryPolicy) : Program Unit := do
  if wanted then
    let _ ← install a retry

/-- Installs all of a plan, the server first. -/
def installAll (plan : UpdatePlan) (serverRetry frameworkRetry : RetryPolicy) : Program Unit := do
  installIf plan.server serverArtifact serverRetry
  installIf plan.framework (frameworkArtifact plan.server) frameworkRetry

end Maintenance
end ServerWarden
