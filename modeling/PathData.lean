import PathData.Canvas
import PathData.Command.Basic
import PathData.Command.Implied
import PathData.Command.Kind
import PathData.Config.Options
import PathData.Config.Params
import PathData.Config.Settings
import PathData.Config.Style
import PathData.Config.Value
import PathData.Filter.Candidates
import PathData.Filter.Radius
import PathData.Filter.Run
import PathData.Filter.State
import PathData.Geometry.Angle
import PathData.Geometry.ArcFit
import PathData.Geometry.Circle
import PathData.Geometry.Ellipse
import PathData.Geometry.Fitting
import PathData.Geometry.Point
import PathData.Geometry.Polyline
import PathData.Geometry.Region
import PathData.Geometry.Sample
import PathData.Geometry.Segment
import PathData.Geometry.Straight
import PathData.Geometry.Sweep
import PathData.Number.Binary
import PathData.Number.Decimal
import PathData.Number.Double
import PathData.Number.Fault
import PathData.Number.Layout
import PathData.Number.Literal
import PathData.Number.Rounding
import PathData.Number.Scalar
import PathData.Number.Shortest
import PathData.Passes.Cleanup
import PathData.Passes.Mixed
import PathData.Passes.Placed
import PathData.Passes.Rebase
import PathData.Path.Parser
import PathData.Path.Printer
import PathData.Pipeline
import PathData.Registry
import PathData.Text.Blank
import PathData.Text.Digit
import PathData.Text.Printable
import PathData.Text.Quoted
import PathData.Proofs.Literals
import PathData.Proofs.Numerals
import PathData.Proofs.Characters
import PathData.Proofs.Grammar
import PathData.Proofs.WellFormed
import PathData.Proofs.RoundTrip
import PathData.Proofs.Doubles
import PathData.Proofs.FilterForms
import PathData.Proofs.FilterSteps
import PathData.Proofs.Commands
import PathData.Proofs.FilterRendering
import PathData.Proofs.Exact
import PathData.Proofs.FilterAccuracy
import PathData.Proofs.FilterRuns
import PathData.Proofs.Grid
import PathData.Proofs.FilterGrid
import PathData.Proofs.Redrawing
import PathData.Proofs.Outcomes
import PathData.Proofs.LaterPasses
import PathData.Proofs.FilterLicences
import PathData.Proofs.FilterOrigins
import PathData.Proofs.RoundedDoubles
import PathData.Proofs.Failures
import PathData.Proofs.Reading
import PathData.Proofs.FilterOutput
import PathData.Proofs.PassEffects
import PathData.Proofs.ValidOutput
import PathData.Proofs.FilterMarkers
import PathData.Proofs.MarkerVertices
import PathData.Proofs.FilterSources
import PathData.Proofs.WrittenForms
import PathData.Proofs.Plane
import PathData.Proofs.FilterLines
import PathData.Proofs.FilterFolding
import PathData.Proofs.RadiusSearch
import PathData.Proofs.ArcRadii
import PathData.Proofs.FilterArcs
import PathData.Proofs.ArcHeights
import PathData.Proofs.ArcReruns
import PathData.Proofs.DrawnArcs
import PathData.Proofs.FilterRemoval
import PathData.Proofs.LongestLiterals
import PathData.Proofs.MixedLengths
import PathData.Proofs.Acceptance
import PathData.Proofs.Viability
import PathData.Proofs.NearestDoubles
import PathData.Proofs.WrittenDecimals
import PathData.Proofs.ShortestDoubles
import PathData.Proofs.Reprinting
import PathData.Proofs.Dependencies
import PathData.Proofs.ReadyQueue
import PathData.Proofs.RunOrder
import PathData.Proofs.DependencyCycles
import PathData.Proofs.PassRuns
import PathData.Proofs.Rebasing
import PathData.Proofs.CleanedPaths
import PathData.Proofs.FilterAccounts
import PathData.Proofs.GridProjection
import PathData.Proofs.SimplerCurves
import PathData.Proofs.FilterChoices
import PathData.Proofs.StableRadii
import PathData.Proofs.SignedZeros
import PathData.Proofs.LonghandForms
import PathData.Proofs.Flattening
