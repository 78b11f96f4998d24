import FirstPaint.Pass.Pipeline
import FirstPaint.Proofs.Document.Reading
import FirstPaint.Settings.Reader
import FirstPaint.Proofs.Document.Forest
import FirstPaint.Proofs.Document.Relinking
import FirstPaint.Proofs.Document.Calls
import FirstPaint.Proofs.Pass.Growth
import FirstPaint.Proofs.Stylesheet.Landing
import FirstPaint.Proofs.Responsive.Moving
import FirstPaint.Proofs.Layout.Applying
import FirstPaint.Proofs.Pass.Visiting
import FirstPaint.Proofs.Pass.Sweeping
import FirstPaint.Proofs.Pass.Migration
import FirstPaint.Proofs.Pass.Reporting
import FirstPaint.Proofs.Pass.Verdict
import FirstPaint.Proofs.Pass.Reordering
import FirstPaint.Proofs.Pass.Once
import FirstPaint.Proofs.Pass.Grouping
import FirstPaint.Proofs.Pass.HeadContents
import FirstPaint.Proofs.Pass.Resweeping
import FirstPaint.Proofs.Document.Subtrees
import FirstPaint.Proofs.Document.Adding
import FirstPaint.Proofs.Stylesheet.Accounting
import FirstPaint.Proofs.Document.Attributes
import FirstPaint.Proofs.Layout.Writing
import FirstPaint.Proofs.Pass.Locality
import FirstPaint.Proofs.Responsive.Taking
import FirstPaint.Proofs.Pass.Handling
import FirstPaint.Proofs.Markup.Delimiters
import FirstPaint.Proofs.Markup.Fragments
import FirstPaint.Proofs.Markup.Unambiguity
import FirstPaint.Proofs.Document.Extending
import FirstPaint.Proofs.Document.Precedence
import FirstPaint.Proofs.Stylesheet.Measuring
import FirstPaint.Proofs.Stylesheet.Recounting
import FirstPaint.Proofs.Layout.StyleGrowth
import FirstPaint.Proofs.Stylesheet.Covering
import FirstPaint.Proofs.Pass.LayoutGain
import FirstPaint.Proofs.Pass.StyleLimit
import FirstPaint.Proofs.Pass.Agreement
import FirstPaint.Proofs.Document.Ending
import FirstPaint.Proofs.Layout.Fronting
import FirstPaint.Proofs.Responsive.Outcomes
import FirstPaint.Proofs.Pass.Footprint
import FirstPaint.Proofs.Pass.Frame
import FirstPaint.Proofs.Pass.StyleTexts
import FirstPaint.Proofs.Pass.Ledger
import FirstPaint.Proofs.Document.FreshNames
import FirstPaint.Proofs.Pass.Naming
import FirstPaint.Proofs.Responsive.EndTags
import FirstPaint.Proofs.Pass.StyleEndTags
import FirstPaint.Proofs.Stylesheet.Omission
import FirstPaint.Proofs.Responsive.AllOrNothing
import FirstPaint.Proofs.Layout.Numerals
import FirstPaint.Proofs.Pass.CanonicalOrder
import FirstPaint.Proofs.Layout.Declarations
import FirstPaint.Proofs.Layout.LengthGrammar
import FirstPaint.Proofs.Layout.Resolution
import FirstPaint.Proofs.Responsive.SizeListText
import FirstPaint.Proofs.Layout.Additions
import FirstPaint.Proofs.Document.Insertion
import FirstPaint.Proofs.Document.Transfer
import FirstPaint.Proofs.Document.Preorder
import FirstPaint.Proofs.Document.GeneratedIds
import FirstPaint.Proofs.Text.LetterCase
import FirstPaint.Proofs.Document.AttributeHistory
import FirstPaint.Proofs.Responsive.StyleRules
import FirstPaint.Proofs.Responsive.MediaQueries
import FirstPaint.Proofs.Responsive.Selectors
import FirstPaint.Proofs.Json.StringLiterals
import FirstPaint.Proofs.Json.Members
import FirstPaint.Proofs.Report.PublishedForm
import FirstPaint.Proofs.Json.WholeNumbers
import FirstPaint.Proofs.Json.Records
import FirstPaint.Proofs.Settings.RoundTrip
import FirstPaint.Proofs.Document.Placement
import FirstPaint.Proofs.Numeric.Rounding
import FirstPaint.Proofs.Numeric.Shortest
import FirstPaint.Proofs.Layout.PrintedLengths
import FirstPaint.Proofs.Document.Siblings
import FirstPaint.Proofs.Document.TextContent
import FirstPaint.Proofs.Markup.Entities
