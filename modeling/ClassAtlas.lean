import ClassAtlas.Editor.Command
import ClassAtlas.Proofs.Text.Places
import ClassAtlas.Proofs.Text.Occurrences
import ClassAtlas.Proofs.Text.Rounds
import ClassAtlas.Proofs.Text.Words
import ClassAtlas.Proofs.Text.Keywords
import ClassAtlas.Proofs.Diagram.Sketch
import ClassAtlas.Proofs.Assembly
import ClassAtlas.Proofs.Code.Reading
import ClassAtlas.Proofs.Text.Lines
import ClassAtlas.Proofs.Markup.Reading
import ClassAtlas.Proofs.Markup.Writing
import ClassAtlas.Proofs.Markup.RoundTrip
import ClassAtlas.Proofs.Markup.Comments
import ClassAtlas.Proofs.Markup.Grammar
import ClassAtlas.Proofs.Code.Rows
import ClassAtlas.Proofs.Code.Silence
import ClassAtlas.Proofs.Code.Braces
import ClassAtlas.Proofs.Code.Declarations
import ClassAtlas.Proofs.Code.BlockHeaders
import ClassAtlas.Proofs.Code.WrittenBases
import ClassAtlas.Proofs.Code.BaseLists
import ClassAtlas.Proofs.Code.QualifiedBases
import ClassAtlas.Proofs.Code.Nested
import ClassAtlas.Proofs.Code.ClosingBraces
import ClassAtlas.Proofs.Code.NestedHeaders
import ClassAtlas.Proofs.Code.NestedTypes
import ClassAtlas.Proofs.Code.MemberPlaces
import ClassAtlas.Proofs.Code.OwnMembers
import ClassAtlas.Proofs.Code.Recovery
import ClassAtlas.Proofs.Code.Written
import ClassAtlas.Proofs.Code.WrittenSource
import ClassAtlas.Proofs.Code.Declarable
import ClassAtlas.Proofs.Code.RepeatedBases
import ClassAtlas.Proofs.Code.RoundTrip
import ClassAtlas.Proofs.Code.BaseNames
import ClassAtlas.Proofs.Code.NormalForm
import ClassAtlas.Proofs.Code.LegibleMembers
import ClassAtlas.Proofs.Code.MemberWords
import ClassAtlas.Proofs.Code.MemberRows
import ClassAtlas.Proofs.Code.KeywordTypes
import ClassAtlas.Proofs.Code.ClassKeyword
import ClassAtlas.Proofs.Code.ListedBases
import ClassAtlas.Proofs.Code.ParentNames
import ClassAtlas.Proofs.Code.AutoProperties
import ClassAtlas.Proofs.Code.Constraints
import ClassAtlas.Proofs.Archive
import ClassAtlas.Proofs.Archive.History
import ClassAtlas.Proofs.Diagram.Ends
import ClassAtlas.Proofs.Diagram.MemberLines
import ClassAtlas.Proofs.Diagram.Selection
import ClassAtlas.Proofs.Supply
import ClassAtlas.Proofs.Assembly.Growth
import ClassAtlas.Proofs.Assembly.History
import ClassAtlas.Proofs.Dialect
import ClassAtlas.Proofs.Dialect.Writing
import ClassAtlas.Proofs.Dialect.Reading
import ClassAtlas.Proofs.Dialect.Detection
import ClassAtlas.Proofs.Dialect.Arrangement
import ClassAtlas.Proofs.Layout.Forgetting
import ClassAtlas.Proofs.Layout.Components
import ClassAtlas.Proofs.Layout.Drawing
import ClassAtlas.Proofs.Geometry.Clipping
import ClassAtlas.Proofs.Geometry.Routes
import ClassAtlas.Proofs.Layout.Connection
import ClassAtlas.Proofs.Layout.Row
import ClassAtlas.Proofs.Layout.SideBySide
import ClassAtlas.Proofs.Editor.Changes
import ClassAtlas.Proofs.Editor.Effect
import ClassAtlas.Proofs.Editor.Commands
import ClassAtlas.Proofs.Editor.Invariant
import ClassAtlas.Proofs.Editor.Updates
import ClassAtlas.Proofs.Editor.Stamps
import ClassAtlas.Proofs.Editor.History
import ClassAtlas.Proofs.Editor.RequiredFields
