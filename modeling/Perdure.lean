import Perdure.Binary64
import Perdure.Checkpoint
import Perdure.CommandLine.Arguments
import Perdure.CommandLine.DataFolder
import Perdure.CommandLine.Database
import Perdure.CommandLine.Help
import Perdure.CommandLine.Run
import Perdure.CommandLine.Serve
import Perdure.Definition.Activity
import Perdure.Definition.Builder
import Perdure.Definition.Json
import Perdure.Definition.Process
import Perdure.Deployment.Poller
import Perdure.Deployment.Unit
import Perdure.Duration
import Perdure.Engine.Basic
import Perdure.Engine.Host
import Perdure.Engine.Migration
import Perdure.Engine.Server
import Perdure.Engine.Site
import Perdure.Engine.Timers
import Perdure.Expression
import Perdure.Files.Route
import Perdure.Files.Tree
import Perdure.Instance.Alarm
import Perdure.Instance.Compensation
import Perdure.Instance.Json
import Perdure.Instance.Program
import Perdure.Instance.Requests
import Perdure.Instance.Scope
import Perdure.Instance.Script
import Perdure.Instance.Sequence
import Perdure.Instance.Session
import Perdure.Instance.State
import Perdure.Json.Basic
import Perdure.Json.Fields
import Perdure.Json.Magnitude
import Perdure.Json.Printer
import Perdure.Json.Reader
import Perdure.Machine
import Perdure.Main
import Perdure.RemapTable
import Perdure.Soup
import Perdure.Store.Archive
import Perdure.Store.Basic
import Perdure.Store.Call
import Perdure.Store.InstanceId
import Perdure.Store.Ledger
import Perdure.Store.Locks
import Perdure.Store.Record
import Perdure.Table
import Perdure.Text.Blank
import Perdure.Text.Digits
import Perdure.Text.Quoted
import Perdure.Text.Unprintable
import Perdure.Time.Calendar
import Perdure.Time.Due
import Perdure.Time.Instant
import Perdure.Time.Printer
import Perdure.Time.Relaxed
import Perdure.Time.Strict
import Perdure.Proofs.Instance.Part
import Perdure.Proofs.Instance.Products
import Perdure.Proofs.Instance.Yields
import Perdure.Proofs.Instance.React
import Perdure.Proofs.Instance.Course
import Perdure.Proofs.Instance.Pick
import Perdure.Proofs.Instance.Kin
import Perdure.Proofs.Instance.Orders
import Perdure.Proofs.Instance.Family
import Perdure.Proofs.Instance.Move
import Perdure.Proofs.Instance.Step
import Perdure.Proofs.Instance.Driven
import Perdure.Proofs.Instance.Completion
import Perdure.Proofs.Instance.Takedown
import Perdure.Proofs.Instance.Winding
import Perdure.Proofs.Instance.Graceful
import Perdure.Proofs.Text.Digits
import Perdure.Proofs.Text.Utf8
import Perdure.Proofs.Json.Number
import Perdure.Proofs.Json.Reader
import Perdure.Proofs.Json.Fields
import Perdure.Proofs.Json.Codec
import Perdure.Proofs.Json.Decoded
import Perdure.Proofs.Time.Calendar
import Perdure.Proofs.Time.Stored
import Perdure.Proofs.Json.Shapes
import Perdure.Proofs.Instance.Requests
import Perdure.Proofs.Instance.Codec
import Perdure.Proofs.Instance.Shapes
import Perdure.Proofs.Checkpoint
import Perdure.Proofs.Instance.Fits
import Perdure.Proofs.Time.Relaxed
import Perdure.Proofs.Instance.Decoded
import Perdure.Proofs.Instance.Steady
import Perdure.Proofs.Instance.History
import Perdure.Proofs.Instance.Progress
import Perdure.Proofs.Instance.Cargo
import Perdure.Proofs.Instance.Runs
import Perdure.Proofs.Instance.Undoing
import Perdure.Proofs.Instance.Clock
import Perdure.Proofs.Instance.Faults
import Perdure.Proofs.Instance.Readers
import Perdure.Proofs.Instance.Timers
import Perdure.Proofs.Instance.Stale
import Perdure.Proofs.Instance.Punctual
import Perdure.Proofs.Instance.Schedule
import Perdure.Proofs.Instance.Alarms
import Perdure.Proofs.Instance.Names
import Perdure.Proofs.Instance.Discipline
import Perdure.Proofs.Store.Basic
import Perdure.Proofs.Store.Column
import Perdure.Proofs.Store.Ledger
import Perdure.Proofs.Engine.Host
import Perdure.Proofs.Engine.Run
import Perdure.Proofs.Engine.Solo
import Perdure.Proofs.Engine.Recovery
import Perdure.Proofs.Engine.Lifecycle
import Perdure.Proofs.Instance.Oblivious
import Perdure.Proofs.Engine.Migration
import Perdure.Proofs.Engine.Settled
import Perdure.Proofs.Engine.Endings
import Perdure.Proofs.Instance.Pending
import Perdure.Proofs.Instance.Apart
import Perdure.Proofs.Instance.Tidy
import Perdure.Proofs.Instance.Tended
import Perdure.Proofs.Engine.Rearming
import Perdure.Proofs.Engine.Presence
import Perdure.Proofs.Engine.Upkeep
import Perdure.Proofs.Engine.Commuting
import Perdure.Proofs.Engine.Reflection
import Perdure.Proofs.Engine.Wakeups
import Perdure.Proofs.Engine.Leftovers
import Perdure.Proofs.Engine.Crash
import Perdure.Proofs.Json.Renames
import Perdure.Proofs.RemapTable
import Perdure.Proofs.Restoration
import Perdure.Proofs.Json.Truncation
import Perdure.Proofs.Truncation
import Perdure.Proofs.Instance.Stations
import Perdure.Proofs.Instance.Budget
import Perdure.Proofs.Instance.Termination
import Perdure.Proofs.Files.Tree
import Perdure.Proofs.Deployment.Cycle
import Perdure.Proofs.Deployment.Rounds
import Perdure.Proofs.Deployment.Marked
import Perdure.Proofs.Engine.TimerCourse
import Perdure.Proofs.Engine.Registrations
import Perdure.Proofs.Text.Hexadecimal
import Perdure.Proofs.Text.Quoted
import Perdure.Proofs.Store.Archive
import Perdure.Proofs.Engine.Accord
import Perdure.Proofs.Files.Route
import Perdure.Proofs.CommandLine.Database
import Perdure.Proofs.CommandLine.DataFolder
import Perdure.Proofs.Deployment.Unit
import Perdure.Proofs.CommandLine.Migrate
import Perdure.Proofs.Machine.Iteration
import Perdure.Proofs.Instance.Forwarding
import Perdure.Proofs.Engine.Renewal
import Perdure.Proofs.Engine.Jobs
import Perdure.Proofs.Engine.Contest
import Perdure.Proofs.Machine.Routine
import Perdure.Proofs.Machine.Account
import Perdure.Proofs.Duration
import Perdure.Proofs.Instance.Conversations
import Perdure.Proofs.Definition.Codec
import Perdure.Proofs.Definition.Validity
import Perdure.Proofs.Instance.Offspring
import Perdure.Proofs.Instance.Sequences
