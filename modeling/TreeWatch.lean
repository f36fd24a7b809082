import TreeWatch.Attribution
import TreeWatch.ByteString
import TreeWatch.Change
import TreeWatch.Coalescer.Basic
import TreeWatch.Coalescer.Loop
import TreeWatch.CommandLine.Arguments
import TreeWatch.CommandLine.LogFilter
import TreeWatch.CommandLine.Run
import TreeWatch.Config.Basic
import TreeWatch.Config.Override
import TreeWatch.Config.Reader
import TreeWatch.Config.Validation
import TreeWatch.Config.Writer
import TreeWatch.Controller.Operations
import TreeWatch.Controller.Reload
import TreeWatch.Controller.Service
import TreeWatch.Controller.Status
import TreeWatch.Controller.Step
import TreeWatch.Counter.Bump
import TreeWatch.Counter.File
import TreeWatch.Counter.Name
import TreeWatch.Disk.Access
import TreeWatch.Disk.Basic
import TreeWatch.Disk.Edit
import TreeWatch.Disk.Resolve
import TreeWatch.Engine
import TreeWatch.Error
import TreeWatch.Fault
import TreeWatch.FileSystem
import TreeWatch.Json.Fault
import TreeWatch.Json.Number
import TreeWatch.Json.Scan
import TreeWatch.Json.Skip
import TreeWatch.Main
import TreeWatch.Notice
import TreeWatch.Path.Basic
import TreeWatch.Path.Dedup
import TreeWatch.Path.Pieces
import TreeWatch.Path.Set
import TreeWatch.Proofs.Accounting
import TreeWatch.Proofs.Agreement
import TreeWatch.Proofs.Alterations
import TreeWatch.Proofs.Artifacts
import TreeWatch.Proofs.Attribution
import TreeWatch.Proofs.Bumps
import TreeWatch.Proofs.Calls
import TreeWatch.Proofs.Components
import TreeWatch.Proofs.Containment
import TreeWatch.Proofs.Convergence
import TreeWatch.Proofs.CounterNames
import TreeWatch.Proofs.Counting
import TreeWatch.Proofs.Coverage
import TreeWatch.Proofs.Debounce
import TreeWatch.Proofs.Dedup
import TreeWatch.Proofs.Deepest
import TreeWatch.Proofs.DirtyRoots
import TreeWatch.Proofs.Effective
import TreeWatch.Proofs.Exclusivity
import TreeWatch.Proofs.Failures
import TreeWatch.Proofs.Footprints
import TreeWatch.Proofs.Grammar
import TreeWatch.Proofs.Independence
import TreeWatch.Proofs.Interleaving
import TreeWatch.Proofs.Likeness
import TreeWatch.Proofs.Lookups
import TreeWatch.Proofs.Marks
import TreeWatch.Proofs.Members
import TreeWatch.Proofs.PathSets
import TreeWatch.Proofs.Paths
import TreeWatch.Proofs.Pending
import TreeWatch.Proofs.Places
import TreeWatch.Proofs.PlainVolumes
import TreeWatch.Proofs.Progress
import TreeWatch.Proofs.Reachable
import TreeWatch.Proofs.Readiness
import TreeWatch.Proofs.Registration
import TreeWatch.Proofs.Registry
import TreeWatch.Proofs.Reloads
import TreeWatch.Proofs.Removal
import TreeWatch.Proofs.Renames
import TreeWatch.Proofs.Rendering
import TreeWatch.Proofs.Renewal
import TreeWatch.Proofs.Replacement
import TreeWatch.Proofs.Reports
import TreeWatch.Proofs.Requests
import TreeWatch.Proofs.Rewriting
import TreeWatch.Proofs.RoundTrip
import TreeWatch.Proofs.Rounds
import TreeWatch.Proofs.Routes
import TreeWatch.Proofs.Running
import TreeWatch.Proofs.Scheduling
import TreeWatch.Proofs.Serial
import TreeWatch.Proofs.Sessions
import TreeWatch.Proofs.Shutdown
import TreeWatch.Proofs.Skipping
import TreeWatch.Proofs.Snapshots
import TreeWatch.Proofs.Spellings
import TreeWatch.Proofs.Subscriptions
import TreeWatch.Proofs.Tasks
import TreeWatch.Proofs.Texts
import TreeWatch.Proofs.Tracking
import TreeWatch.Proofs.Updates
import TreeWatch.Proofs.Validation
import TreeWatch.Proofs.VersionEntries
import TreeWatch.Proofs.Volumes
import TreeWatch.Proofs.Walks
import TreeWatch.Proofs.Watches
import TreeWatch.Registrar
import TreeWatch.Text.Blank
import TreeWatch.Text.Lines
import TreeWatch.Text.Numeral
import TreeWatch.Text.Quoted
import TreeWatch.Text.Shortest
import TreeWatch.Text.Unprintable
import TreeWatch.Text.Utf8
import TreeWatch.Volume
import TreeWatch.Walk
