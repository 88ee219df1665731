import Installer.Main
import Installer.Disk.Basic
import Installer.Package.Baseline
import Installer.Package.Compilation
import Installer.Package.Shape
import Installer.Wix.Source
import Installer.Proofs.Precedence.Order
import Installer.Proofs.Precedence.Window
import Installer.Proofs.Result
import Installer.Proofs.Schedule.Checks
import Installer.Proofs.Schedule.Numbers
import Installer.Proofs.Schedule.Soundness
import Installer.Proofs.Schedule.ScriptWindow
import Installer.Proofs.Schedule.Contradiction
import Installer.Proofs.Json.Document
import Installer.Proofs.Json.Lawful
import Installer.Proofs.Package.RoundTrip
import Installer.Proofs.Payload.Shape
import Installer.Proofs.Guard.Conjunction
import Installer.Proofs.Schedule.Conditions
import Installer.Proofs.Directory.Tree
import Installer.Proofs.Component.Resolution
import Installer.Proofs.Payload.Generated
import Installer.Proofs.Payload.Removals
import Installer.Proofs.Component.Graph
import Installer.Proofs.Package.Closure
import Installer.Proofs.Package.Baseline
import Installer.Proofs.Component.Associations
import Installer.Proofs.Disk.Writing
import Installer.Proofs.CommandLine.Failure
import Installer.Proofs.Guard.Binding
import Installer.Proofs.Guid
import Installer.Proofs.Identity
import Installer.Proofs.Package.StabilityKeys
import Installer.Proofs.Package.Succession
import Installer.Proofs.Package.Series
import Installer.Proofs.Package.Staleness
import Installer.Proofs.Wix.Source
import Installer.Proofs.CommandLine.Success
import Installer.Proofs.Guard.Printing
import Installer.Proofs.Guard.References
import Installer.Proofs.CommandLine.Arguments
import Installer.Proofs.CommandLine.Agreement
import Installer.Proofs.Wix.Parts
import Installer.Proofs.Wix.Mirror
import Installer.Proofs.Dictionary
import Installer.Proofs.Wix.Ids
import Installer.Proofs.Directory.Renumbering
import Installer.Proofs.Component.Rearrangement
import Installer.Proofs.Package.Rearrangement
import Installer.Proofs.Precedence.Greedy
import Installer.Proofs.Schedule.Ranks
import Installer.Proofs.Schedule.Pinning
import Installer.Proofs.Schedule.Anchors
import Installer.Proofs.Schedule.Rearrangement
import Installer.Proofs.Schedule.Gaps
import Installer.Proofs.Schedule.LineUp
import Installer.Proofs.Schedule.Hanging
import Installer.Proofs.Schedule.Placement
import Installer.Proofs.Template
import Installer.Proofs.Injection
import Installer.Proofs.Guard.Progress
import Installer.Proofs.Guard.Positions
import Installer.Proofs.Guard.Faults
import Installer.Proofs.Manifest.DisplayTexts
import Installer.Proofs.Manifest.Frame
import Installer.Proofs.Directory.Rootedness
import Installer.Proofs.Directory.Arrangement
import Installer.Proofs.Component.Usage
import Installer.Proofs.Feature.Defaults
import Installer.Proofs.Component.WellFormedness
import Installer.Proofs.Package.Rebuilding
import Installer.Proofs.Version
import Installer.Proofs.Guid.Spelling
import Installer.Proofs.Package.ProductCode
import Installer.Proofs.Wix.Sequence
import Installer.Proofs.Guard.Extents
import Installer.Proofs.Schedule.Ranking
import Installer.Proofs.Variables
