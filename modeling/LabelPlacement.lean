import LabelPlacement.Command.Basic
import LabelPlacement.Command.Build
import LabelPlacement.Command.Finding
import LabelPlacement.Command.Placing
import LabelPlacement.Command.Target
import LabelPlacement.CommandLine
import LabelPlacement.Decimal.Binary
import LabelPlacement.Decimal.Fixed
import LabelPlacement.Decimal.Scientific
import LabelPlacement.Decimal.Shortest
import LabelPlacement.Demo
import LabelPlacement.Ending
import LabelPlacement.Error
import LabelPlacement.Feature.Shape
import LabelPlacement.Feature.Symbol
import LabelPlacement.Geometry.Box
import LabelPlacement.Geometry.Hull
import LabelPlacement.Geometry.Point
import LabelPlacement.Geometry.Polygon
import LabelPlacement.Geometry.Polyline
import LabelPlacement.Geometry.Rectangle
import LabelPlacement.Hide.Attempt
import LabelPlacement.Hide.Grammar
import LabelPlacement.Json.Command
import LabelPlacement.Json.Names
import LabelPlacement.Json.Report
import LabelPlacement.Json.Request
import LabelPlacement.Json.Text
import LabelPlacement.Json.Value
import LabelPlacement.Label.Content
import LabelPlacement.Label.Metrics
import LabelPlacement.Label.Request
import LabelPlacement.Label.Words
import LabelPlacement.Main
import LabelPlacement.Map
import LabelPlacement.Placement.Along
import LabelPlacement.Placement.Area
import LabelPlacement.Placement.Around
import LabelPlacement.Placement.Candidate
import LabelPlacement.Placement.Index
import LabelPlacement.Placement.Leader
import LabelPlacement.Placement.Settle
import LabelPlacement.Proofs.Acceptance
import LabelPlacement.Proofs.Balancing
import LabelPlacement.Proofs.Binary64
import LabelPlacement.Proofs.Bounds
import LabelPlacement.Proofs.Building
import LabelPlacement.Proofs.Bumping
import LabelPlacement.Proofs.ByteReading
import LabelPlacement.Proofs.Candidates
import LabelPlacement.Proofs.Clearance
import LabelPlacement.Proofs.Conflicts
import LabelPlacement.Proofs.Containment
import LabelPlacement.Proofs.DefaultTargets
import LabelPlacement.Proofs.Editing
import LabelPlacement.Proofs.Endings
import LabelPlacement.Proofs.Exact
import LabelPlacement.Proofs.Execution
import LabelPlacement.Proofs.Exhaustion
import LabelPlacement.Proofs.Extremes
import LabelPlacement.Proofs.Grammar
import LabelPlacement.Proofs.Halting
import LabelPlacement.Proofs.Headings
import LabelPlacement.Proofs.HideLoops
import LabelPlacement.Proofs.HideRounds
import LabelPlacement.Proofs.Hiding
import LabelPlacement.Proofs.HullCorners
import LabelPlacement.Proofs.Hulls
import LabelPlacement.Proofs.Lawful
import LabelPlacement.Proofs.LeaderRings
import LabelPlacement.Proofs.Lines
import LabelPlacement.Proofs.Moments
import LabelPlacement.Proofs.Nesting
import LabelPlacement.Proofs.Parameters
import LabelPlacement.Proofs.Parity
import LabelPlacement.Proofs.Passes
import LabelPlacement.Proofs.Points
import LabelPlacement.Proofs.Positions
import LabelPlacement.Proofs.Precedence
import LabelPlacement.Proofs.Ranges
import LabelPlacement.Proofs.Reading
import LabelPlacement.Proofs.Reals
import LabelPlacement.Proofs.Records
import LabelPlacement.Proofs.Recovery
import LabelPlacement.Proofs.Rectangles
import LabelPlacement.Proofs.Regions
import LabelPlacement.Proofs.Relabelling
import LabelPlacement.Proofs.Rendering
import LabelPlacement.Proofs.Retries
import LabelPlacement.Proofs.Returning
import LabelPlacement.Proofs.Revealing
import LabelPlacement.Proofs.Rounding
import LabelPlacement.Proofs.Rules
import LabelPlacement.Proofs.Segments
import LabelPlacement.Proofs.Settlement
import LabelPlacement.Proofs.Sizes
import LabelPlacement.Proofs.Surroundings
import LabelPlacement.Proofs.Symbols
import LabelPlacement.Proofs.Tallies
import LabelPlacement.Proofs.Targets
import LabelPlacement.Proofs.Turns
import LabelPlacement.Proofs.Undoing
import LabelPlacement.Proofs.Visibility
import LabelPlacement.Proofs.WrittenRequests
import LabelPlacement.Proofs.WrittenSequences
import LabelPlacement.Report
import LabelPlacement.Run.Context
import LabelPlacement.Run.Loop
import LabelPlacement.Run.Resolve
import LabelPlacement.Run.Runner
import LabelPlacement.Scalar.Basic
import LabelPlacement.Scalar.Binary64
import LabelPlacement.Scalar.Select
import LabelPlacement.Sequence.Basic
import LabelPlacement.Sequence.Validation
import LabelPlacement.Settings
import LabelPlacement.Text.Blank
import LabelPlacement.Text.Digit
import LabelPlacement.Toml.Document
import LabelPlacement.Toml.Scalar
import LabelPlacement.Toml.Value
