import Markup.Document.Parse
import Markup.Document.Writer
import Markup.Html.Parser
import Markup.Proofs.Store.Runs
import Markup.Proofs.Workspace.Runs
import Markup.Proofs.XPath.Evaluate
import Markup.Proofs.Xml.Recovery
import Markup.Workspace.Queries
import Markup.Proofs.Store.Isomorphism
import Markup.Proofs.XPath.Independence
import Markup.Proofs.Store.Chronicle
import Markup.Proofs.Workspace.Arrive
import Markup.Proofs.Workspace.Bound
import Markup.Proofs.Workspace.Carried
import Markup.Proofs.Workspace.Identity
import Markup.Proofs.Workspace.Namespaces
import Markup.Proofs.XPath.Accepted
import Markup.Proofs.Workspace.Resolution
import Markup.Proofs.Xml.Expansion
import Markup.Proofs.Xml.DocumentTrip
import Markup.Proofs.Workspace.Compiled
import Markup.Proofs.Workspace.InPlace
import Markup.Proofs.XPath.Partition
import Markup.Proofs.Workspace.Attributes
import Markup.Proofs.Workspace.Fragment
import Markup.Proofs.XPath.Tower
import Markup.Proofs.Xml.IndentTrip
import Markup.Proofs.Workspace.Distinct
import Markup.Proofs.Xml.Inlining
import Markup.Proofs.Xml.Dropping
import Markup.Proofs.Html.Progress
import Markup.Proofs.Html.Structure
import Markup.Proofs.Xml.Depth
import Markup.Proofs.Xml.Lengths
import Markup.Proofs.Html.Paragraph
import Markup.Proofs.Workspace.Visits
import Markup.Proofs.XPath.Positions
import Markup.Proofs.Workspace.Contained
import Markup.Proofs.XPath.Abbreviation
import Markup.Proofs.XPath.Comparison
import Markup.Proofs.XPath.OrSelf
import Markup.Proofs.Store.Copy
import Markup.Proofs.XPath.Safe
import Markup.Proofs.XPath.Traversal
import Markup.Proofs.XPath.Spacing
import Markup.Proofs.Xml.Outermost
import Markup.Proofs.Number.Leading
import Markup.Proofs.Encoding.Declared
import Markup.Proofs.Workspace.Sections
import Markup.Proofs.Xml.Maximal
