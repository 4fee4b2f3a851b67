import CrowdPad.Data.Toml.Printer
import CrowdPad.Main
import CrowdPad.Proofs.Clock
import CrowdPad.Proofs.Scheduler.Edges
import CrowdPad.Proofs.Scheduler.Tick
import CrowdPad.Wire.Server
import CrowdPad.Proofs.Scheduler.Orderly
import CrowdPad.Proofs.Scheduler.Plan
import CrowdPad.Proofs.Timeline.Basic
import CrowdPad.Proofs.Scheduler.Pair
import CrowdPad.Proofs.Timeline.Course
import CrowdPad.Proofs.Timeline.Pair
import CrowdPad.Proofs.Timeline.Firing
import CrowdPad.Proofs.Scheduler.Only
import CrowdPad.Proofs.Timeline.Only
import CrowdPad.Proofs.Timeline.Cancellation
import CrowdPad.Proofs.Orders
import CrowdPad.Proofs.Timeline.Ceiling
import CrowdPad.Proofs.Timeline.Team
import CrowdPad.Proofs.Wire.Stream
import CrowdPad.Proofs.Command.Phrase
import CrowdPad.Proofs.Scheduler.Held
import CrowdPad.Proofs.Scheduler.Tally
import CrowdPad.Proofs.Timeline.Account
import CrowdPad.Proofs.Timeline.Meter
import CrowdPad.Proofs.Playback
import CrowdPad.Proofs.Team.Station
import CrowdPad.Proofs.Data.Json.Layout
import CrowdPad.Proofs.Wire.Message
import CrowdPad.Proofs.Wire.Writer
import CrowdPad.Proofs.Wire.Server
import CrowdPad.Proofs.Dispatch.Move
import CrowdPad.Proofs.Dispatch.Pairs
import CrowdPad.Proofs.Dispatch.Delivery
import CrowdPad.Proofs.Dispatch.Written
import CrowdPad.Proofs.Dispatch.Lateness
import CrowdPad.Proofs.Dispatch.Agreement
import CrowdPad.Proofs.Text.Case
import CrowdPad.Proofs.Verb.Table
import CrowdPad.Proofs.Verb.Build
import CrowdPad.Proofs.Verb.Consistency
import CrowdPad.Proofs.Command.Scan
import CrowdPad.Proofs.Macro.Basic
import CrowdPad.Proofs.Macro.Table
import CrowdPad.Proofs.Team.Edit
import CrowdPad.Proofs.Macro.Expansion
import CrowdPad.Proofs.Team.Reachable
import CrowdPad.Proofs.Team.Translation
import CrowdPad.Proofs.Files.Path
import CrowdPad.Proofs.Files.Tree
import CrowdPad.Proofs.Files.Sturdy
import CrowdPad.Proofs.Macro.File
import CrowdPad.Proofs.Team.MacroFile
import CrowdPad.Proofs.Team.Recent
import CrowdPad.Proofs.Team.Repeats
import CrowdPad.Proofs.Team.Failure
import CrowdPad.Proofs.Team.Interleaving
import CrowdPad.Proofs.Files.Way
import CrowdPad.Proofs.Team.Idle
import CrowdPad.Proofs.Files.Folders
import CrowdPad.Proofs.Macro.Standing
import CrowdPad.Proofs.Macro.Neighbours
import CrowdPad.Proofs.Team.Sight
import CrowdPad.Proofs.Hub.Host
import CrowdPad.Proofs.Hub.Members
import CrowdPad.Proofs.Hub.Alike
import CrowdPad.Proofs.Hub.Separation
import CrowdPad.Proofs.Files.Surplus
import CrowdPad.Proofs.Telemetry.Log
import CrowdPad.Proofs.Hub.Startup
import CrowdPad.Proofs.Hub.Removal
import CrowdPad.Proofs.Data.Json.Sorted
import CrowdPad.Proofs.DryRun
import CrowdPad.Proofs.Command.Timing
import CrowdPad.Proofs.Command.Taking
import CrowdPad.Proofs.Command.Course
import CrowdPad.Proofs.Command.Malformed
import CrowdPad.Proofs.Command.Spacing
import CrowdPad.Proofs.Command.Unknown
import CrowdPad.Proofs.Command.Parts
import CrowdPad.Proofs.Command.LeftOver
import CrowdPad.Proofs.Command.Marked
import CrowdPad.Proofs.Clamp
import CrowdPad.Proofs.Macro.Invocation
import CrowdPad.Proofs.Macro.Revalidation
import CrowdPad.Proofs.Macro.Saving
import CrowdPad.Proofs.Profile.Document
import CrowdPad.Proofs.Profile.Builtin
import CrowdPad.Proofs.Config.Catalogue
import CrowdPad.Proofs.Dispatch.Local
import CrowdPad.Proofs.Dispatch.Unreachable
import CrowdPad.Proofs.Dispatch.Backoff
import CrowdPad.Proofs.Dispatch.Waits
import CrowdPad.Proofs.Hub.Broadcast
import CrowdPad.Proofs.Team.Life
import CrowdPad.Proofs.Team.Counters
import CrowdPad.Proofs.Wire.Size
import CrowdPad.Proofs.Dispatch.Oversize
import CrowdPad.Proofs.Scheduler.Cancelled
import CrowdPad.Proofs.Team.Ledger
import CrowdPad.Proofs.Team.Journal
import CrowdPad.Proofs.Team.Shutdown
import CrowdPad.Proofs.Ring
import CrowdPad.Proofs.Verb.Random
import CrowdPad.Proofs.Console.Control
import CrowdPad.Proofs.Team.Chronicle
import CrowdPad.Proofs.Team.Pastime
import CrowdPad.Proofs.Team.Diagnostics
