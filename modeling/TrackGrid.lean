import TrackGrid.Picture
import TrackGrid.Session
import TrackGrid.Track.Plain
import TrackGrid.Proofs.Effect
import TrackGrid.Proofs.Outcome
import TrackGrid.Proofs.Transposition
import TrackGrid.Proofs.Text.Numeral
import TrackGrid.Proofs.Constraint.Normal
import TrackGrid.Proofs.Constraint.Reading
import TrackGrid.Proofs.Constraint.Grammar
import TrackGrid.Proofs.Constraint.Shifting
import TrackGrid.Proofs.Number.Rounding
import TrackGrid.Proofs.Number.Order
import TrackGrid.Proofs.Number.Whole
import TrackGrid.Proofs.Number.Range
import TrackGrid.Proofs.Number.Summation
import TrackGrid.Proofs.Number.Value
import TrackGrid.Proofs.Track
import TrackGrid.Proofs.Track.Clean
import TrackGrid.Proofs.Track.Kind
import TrackGrid.Proofs.Coercion
import TrackGrid.Proofs.Line.Sizes
import TrackGrid.Proofs.Line.Conservation
import TrackGrid.Proofs.Line.Totality
import TrackGrid.Proofs.Line.Sufficiency
import TrackGrid.Proofs.Line.Extents
import TrackGrid.Proofs.Line.Shares
import TrackGrid.Proofs.Line.Exactness
import TrackGrid.Proofs.Line.Splitting
import TrackGrid.Proofs.Line.Finiteness
import TrackGrid.Proofs.Line.Monotonicity
import TrackGrid.Proofs.Line.Kinds
import TrackGrid.Proofs.Line.Rearrangement
import TrackGrid.Proofs.Line.Absolute
import TrackGrid.Proofs.Line.Relative
import TrackGrid.Proofs.Placement
import TrackGrid.Proofs.Picture
import TrackGrid.Proofs.Entries
import TrackGrid.Proofs.Layout.Agreement
import TrackGrid.Proofs.Layout.Run
import TrackGrid.Proofs.Layout.Table
import TrackGrid.Proofs.Layout.Shifting
import TrackGrid.Proofs.Layout.Edit
import TrackGrid.Proofs.Layout.Editing
import TrackGrid.Proofs.Layout.Recording
import TrackGrid.Proofs.Layout.Separation
import TrackGrid.Proofs.Layout.Coherence
import TrackGrid.Proofs.Layout.Description
import TrackGrid.Proofs.Layout.Acceptance
import TrackGrid.Proofs.Layout.Totality
import TrackGrid.Proofs.Layout.Journal
import TrackGrid.Proofs.Layout.Diagnostics
import TrackGrid.Proofs.Layout.Isolation
import TrackGrid.Proofs.Layout.Failure
import TrackGrid.Proofs.Layout.Survival
import TrackGrid.Proofs.Layout.Rebuilding
import TrackGrid.Proofs.Layout.Sizes
import TrackGrid.Proofs.Layout.Finiteness
import TrackGrid.Proofs.Layout.Bounds
import TrackGrid.Proofs.Layout.Supply
import TrackGrid.Proofs.Layout.Hiding
import TrackGrid.Proofs.Layout.Order
import TrackGrid.Proofs.Layout.Transposition
import TrackGrid.Proofs.Layout.Symmetry
import TrackGrid.Proofs.Layout.Commutation
