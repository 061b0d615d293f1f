import ServerWarden.Announcement
import ServerWarden.Archive.Gzip
import ServerWarden.Archive.Inflate
import ServerWarden.Archive.Tar
import ServerWarden.Child.Handle
import ServerWarden.Child.Status
import ServerWarden.CommandLine
import ServerWarden.Config.Basic
import ServerWarden.Config.Document
import ServerWarden.Config.Error
import ServerWarden.Config.Load
import ServerWarden.Config.Params
import ServerWarden.Config.Policy
import ServerWarden.Control.Keeper
import ServerWarden.Control.Maintenance
import ServerWarden.Control.Program
import ServerWarden.Control.Session
import ServerWarden.Coordinator.Basic
import ServerWarden.Coordinator.Notify
import ServerWarden.Coordinator.Timer
import ServerWarden.Decimal.Binary64
import ServerWarden.Decimal.Shortest
import ServerWarden.Fault
import ServerWarden.Files.Error
import ServerWarden.Files.Path
import ServerWarden.Files.System
import ServerWarden.Files.Tree
import ServerWarden.Framework.Archive
import ServerWarden.Framework.Install
import ServerWarden.Framework.Release
import ServerWarden.Framework.Version
import ServerWarden.Health
import ServerWarden.Host
import ServerWarden.Http.Download
import ServerWarden.Http.Status
import ServerWarden.Json.Quoted
import ServerWarden.Json.Reader
import ServerWarden.Json.Record
import ServerWarden.Json.Value
import ServerWarden.KeyValues.Token
import ServerWarden.KeyValues.Tree
import ServerWarden.Launch
import ServerWarden.Log
import ServerWarden.Log.Filter
import ServerWarden.Machine
import ServerWarden.Main
import ServerWarden.NameMap
import ServerWarden.Proofs.Config.Accepted
import ServerWarden.Proofs.Config.Normal
import ServerWarden.Proofs.Config.Settings
import ServerWarden.Proofs.Control.ClockRange
import ServerWarden.Proofs.Control.Clockwork
import ServerWarden.Proofs.Control.Completion
import ServerWarden.Proofs.Control.Conduct
import ServerWarden.Proofs.Control.Countdown
import ServerWarden.Proofs.Control.Diary
import ServerWarden.Proofs.Control.Escalation
import ServerWarden.Proofs.Control.ExitCodes
import ServerWarden.Proofs.Control.GatewayPolicy
import ServerWarden.Proofs.Control.Latency
import ServerWarden.Proofs.Control.Marks
import ServerWarden.Proofs.Control.PhaseDiscipline
import ServerWarden.Proofs.Control.Reaping
import ServerWarden.Proofs.Control.Requests
import ServerWarden.Proofs.Control.Rounds
import ServerWarden.Proofs.Control.SingleServer
import ServerWarden.Proofs.Control.Starting
import ServerWarden.Proofs.Control.StopRequest
import ServerWarden.Proofs.Control.Surroundings
import ServerWarden.Proofs.Control.Timing
import ServerWarden.Proofs.Coordinator.Accounting
import ServerWarden.Proofs.Coordinator.Beats
import ServerWarden.Proofs.Coordinator.Cadence
import ServerWarden.Proofs.Coordinator.Checks
import ServerWarden.Proofs.Coordinator.Crew
import ServerWarden.Proofs.Coordinator.Lateness
import ServerWarden.Proofs.Coordinator.Noticing
import ServerWarden.Proofs.Coordinator.Resuming
import ServerWarden.Proofs.Coordinator.Waking
import ServerWarden.Proofs.Files.Removal
import ServerWarden.Proofs.Framework.Comparison
import ServerWarden.Proofs.Json.Completeness
import ServerWarden.Proofs.Json.Grammar
import ServerWarden.Proofs.Json.Records
import ServerWarden.Proofs.Json.Written
import ServerWarden.Proofs.KeyValues.Acceptance
import ServerWarden.Proofs.KeyValues.Blame
import ServerWarden.Proofs.KeyValues.Layout
import ServerWarden.Proofs.KeyValues.Rendering
import ServerWarden.Proofs.KeyValues.Spelling
import ServerWarden.Proofs.Launch.Collisions
import ServerWarden.Proofs.Launch.Managed
import ServerWarden.Proofs.Launch.Names
import ServerWarden.Proofs.Launch.Parameters
import ServerWarden.Proofs.Lists
import ServerWarden.Proofs.Rcon.Backoff
import ServerWarden.Proofs.Rcon.Correlation
import ServerWarden.Proofs.Rcon.Frames
import ServerWarden.Proofs.Rcon.LateReplies
import ServerWarden.Proofs.Rcon.Listeners
import ServerWarden.Proofs.Rcon.SessionOrder
import ServerWarden.Proofs.Rcon.Table
import ServerWarden.Proofs.Rcon.Traffic
import ServerWarden.Proofs.Rcon.Wire
import ServerWarden.Proofs.Reason.LineEndings
import ServerWarden.Proofs.Steam.Branches
import ServerWarden.Proofs.Steam.Console
import ServerWarden.Proofs.Text.ByteOrder
import ServerWarden.Proofs.Text.Lines
import ServerWarden.Rcon.Client
import ServerWarden.Rcon.Frame
import ServerWarden.Rcon.Session
import ServerWarden.Reason
import ServerWarden.Rehearsal.Dialing
import ServerWarden.Rehearsal.Event
import ServerWarden.Rehearsal.Machine
import ServerWarden.Rehearsal.Named
import ServerWarden.Rehearsal.Run
import ServerWarden.Rehearsal.Script
import ServerWarden.Rehearsal.Site
import ServerWarden.Rehearsal.Stage
import ServerWarden.Rehearsal.Watch
import ServerWarden.Shell.Builtin
import ServerWarden.Shell.Formula
import ServerWarden.Shell.Printf
import ServerWarden.Shell.Reader
import ServerWarden.Shell.Run
import ServerWarden.Shell.State
import ServerWarden.Shell.Syntax
import ServerWarden.Steam.AppInfo
import ServerWarden.Steam.Command
import ServerWarden.Supervisor.Settings
import ServerWarden.Text.Blank
import ServerWarden.Text.Debug
import ServerWarden.Text.Line
import ServerWarden.Text.Utf8
import ServerWarden.Time.Duration
import ServerWarden.Time.Phrase
import ServerWarden.Toml.Datetime
import ServerWarden.Toml.Decode
import ServerWarden.Toml.Number
import ServerWarden.Toml.Quoted
import ServerWarden.Toml.Reader
import ServerWarden.Toml.Table
import ServerWarden.Toml.Value
import ServerWarden.Updater
