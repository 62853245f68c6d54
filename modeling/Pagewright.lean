import Pagewright.Json.Members
import Pagewright.Json.Value
import Pagewright.Decimal.Shortest
import Pagewright.Json.Printer
import Pagewright.Json.Numeral
import Pagewright.Json.Reader
import Pagewright.Text.Blank
import Pagewright.Text.Unseen
import Pagewright.Text.Quoted
import Pagewright.Json.Shape
import Pagewright.Page.Attributes
import Pagewright.Page.Node
import Pagewright.Page.Ids
import Pagewright.Page.Lookup
import Pagewright.Page.Record
import Pagewright.Markup.Element
import Pagewright.Markup.Diagnostic
import Pagewright.Markup.Parameter
import Pagewright.Markup.Render
import Pagewright.Markup.Sample
import Pagewright.Editor.Subtitle
import Pagewright.Editor.Outline
import Pagewright.Editor.TextStyle
import Pagewright.Editor.Drop
import Pagewright.Editor.Starter
import Pagewright.Editor.Edit
import Pagewright.Editor.History
import Pagewright.Editor.Session
import Pagewright.Project.Path
import Pagewright.Project.Disk
import Pagewright.Project.Config
import Pagewright.Project.Arguments
import Pagewright.Project.Command
import Pagewright.Embed
import Pagewright.Main
import Pagewright.Proofs.Page.IdShape
import Pagewright.Proofs.Page.Walk
import Pagewright.Proofs.Page.Place
import Pagewright.Proofs.Page.Surgery
import Pagewright.Proofs.Page.Shedding
import Pagewright.Proofs.Page.Likeness
import Pagewright.Proofs.Page.Naming
import Pagewright.Proofs.Editor.Effect
import Pagewright.Proofs.Editor.Reversal
import Pagewright.Proofs.Editor.Timeline
import Pagewright.Proofs.Editor.Operation
import Pagewright.Proofs.Editor.UniqueIds
import Pagewright.Proofs.Markup.Portrait
import Pagewright.Proofs.Markup.Clean
import Pagewright.Proofs.Markup.Meaning
import Pagewright.Proofs.Editor.AllOrNothing
import Pagewright.Proofs.Editor.Form
import Pagewright.Proofs.Page.RoundTrip
import Pagewright.Proofs.Page.Conforming
import Pagewright.Proofs.Editor.EditRoundTrip
import Pagewright.Proofs.Editor.OutlineRoundTrip
import Pagewright.Proofs.Editor.Requests
import Pagewright.Proofs.Editor.Holding
import Pagewright.Proofs.Editor.Named
import Pagewright.Proofs.Editor.Steady
import Pagewright.Proofs.Editor.Conforming
import Pagewright.Proofs.Json.Scalar
import Pagewright.Proofs.Json.Pretty
import Pagewright.Proofs.Page.Saved
import Pagewright.Proofs.Page.Noise
import Pagewright.Proofs.Editor.Selection
import Pagewright.Proofs.Editor.Journal
import Pagewright.Proofs.Editor.Retention
import Pagewright.Proofs.Editor.Dragging
import Pagewright.Proofs.Editor.Checking
import Pagewright.Proofs.Page.Preorder
import Pagewright.Proofs.Editor.Census
import Pagewright.Proofs.Editor.Landing
import Pagewright.Proofs.Page.Frame
import Pagewright.Proofs.Page.Access
import Pagewright.Proofs.Page.Searches
import Pagewright.Proofs.Page.Pruning
import Pagewright.Proofs.Editor.Touching
import Pagewright.Proofs.Editor.Arrival
import Pagewright.Proofs.Editor.RemovalOrder
import Pagewright.Proofs.Page.Handout
import Pagewright.Proofs.Editor.Copies
import Pagewright.Proofs.Editor.OutlineShape
import Pagewright.Proofs.Editor.Rearranging
import Pagewright.Proofs.Editor.Shortening
import Pagewright.Proofs.Text.Words
import Pagewright.Proofs.Editor.ClassList
import Pagewright.Proofs.Markup.DepthLimit
import Pagewright.Proofs.Markup.Trimming
