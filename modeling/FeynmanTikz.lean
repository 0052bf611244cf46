import FeynmanTikz.Main
import FeynmanTikz.Workspace
import FeynmanTikz.Tikz.Reference
import FeynmanTikz.Value.Table
import FeynmanTikz.Proofs.Diagram.Run
import FeynmanTikz.Proofs.Tikz.LabelRoundTrip
import FeynmanTikz.Proofs.Diagram.Placement
import FeynmanTikz.Proofs.Diagram.Soundness
import FeynmanTikz.Proofs.Diagram.Atomicity
import FeynmanTikz.Proofs.Diagram.Bounds
import FeynmanTikz.Proofs.Number.Lexemes
import FeynmanTikz.Proofs.Tikz.Refusals
import FeynmanTikz.Proofs.Tikz.Creation
import FeynmanTikz.Proofs.Diagram.Validation
import FeynmanTikz.Proofs.Tikz.LineByLine
import FeynmanTikz.Proofs.Tikz.Description
import FeynmanTikz.Proofs.Tikz.Totality
import FeynmanTikz.Proofs.Tikz.Acceptance
import FeynmanTikz.Proofs.Session
import FeynmanTikz.Proofs.Tikz.Grammar
import FeynmanTikz.Proofs.Diagram.Effects
import FeynmanTikz.Proofs.Tikz.Deletion
import FeynmanTikz.Proofs.Diagram.Currency
import FeynmanTikz.Proofs.Tikz.Nesting
import FeynmanTikz.Proofs.Diagram.Commutation
import FeynmanTikz.Proofs.Diagram.Coordinates
import FeynmanTikz.Proofs.Number.Opposites
import FeynmanTikz.Proofs.Tikz.Statements
import FeynmanTikz.Proofs.Listing
import FeynmanTikz.Proofs.Tikz.Plain
import FeynmanTikz.Proofs.Tikz.Output
import FeynmanTikz.Proofs.Tikz.Naming
import FeynmanTikz.Proofs.Tikz.Delimiters
import FeynmanTikz.Proofs.Diagram.Rewriting
import FeynmanTikz.Proofs.Tikz.DoubleMeasure
import FeynmanTikz.Proofs.Tikz.Columns
import FeynmanTikz.Proofs.Tikz.Layout
import FeynmanTikz.Proofs.Tikz.OptionMeaning
import FeynmanTikz.Proofs.Stroke.Polyline
import FeynmanTikz.Proofs.Diagram.Motion
import FeynmanTikz.Proofs.Number.Angles
import FeynmanTikz.Proofs.Stroke.Tracing
import FeynmanTikz.Proofs.Preview.Formulas
import FeynmanTikz.Proofs.Tikz.Partners
import FeynmanTikz.Proofs.Tikz.Joining
