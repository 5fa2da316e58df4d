import DomQuery.Collection.Filtering
import DomQuery.Workspace
import DomQuery.Proofs.Document.WellFormed
import DomQuery.Proofs.Matching.Assignment
import DomQuery.Proofs.Document.Preorder
import DomQuery.Proofs.Query.Roots
import DomQuery.Proofs.Selector.RoundTrip
import DomQuery.Proofs.Selector.Canonical
import DomQuery.Proofs.Selector.Separators
import DomQuery.Proofs.Document.Moves
import DomQuery.Proofs.Document.Planting
import DomQuery.Proofs.Document.Discard
import DomQuery.Proofs.Markup.Forest
import DomQuery.Proofs.Markup.Readable
import DomQuery.Proofs.Document.Placement
import DomQuery.Proofs.Document.Wrapping
import DomQuery.Operation
import DomQuery.Proofs.Document.Soundness
import DomQuery.Proofs.Workspace.Runs
import DomQuery.Proofs.Workspace.Addressing
import DomQuery.Proofs.Workspace.Insertion
import DomQuery.Proofs.Workspace.Wrapping
import DomQuery.Proofs.Workspace.Accounting
import DomQuery.Proofs.Workspace.Scoping
import DomQuery.Proofs.Workspace.Removal
import DomQuery.Proofs.Workspace.Walks
import DomQuery.Proofs.Selector.Joining
import DomQuery.Proofs.Workspace.Copying
import DomQuery.Proofs.Workspace.Distribution
import DomQuery.Proofs.Workspace.Refusals
import DomQuery.Proofs.Document.Rearranging
import DomQuery.Proofs.Workspace.Templates
import DomQuery.Proofs.Workspace.Contents
import DomQuery.Proofs.Workspace.Union
import DomQuery.Proofs.Markup.Nesting
import DomQuery.Proofs.Markup.ScriptEnd
import DomQuery.Proofs.Workspace.AttributeNames
import DomQuery.Proofs.Markup.AttributeOrder
import DomQuery.Proofs.Selector.Progression
import DomQuery.Proofs.Selector.Shape
import DomQuery.Proofs.Matching.Positions
import DomQuery.Proofs.Query.Reordering
import DomQuery.Proofs.Document.Classes
import DomQuery.Proofs.Matching.EarlyExit
import DomQuery.Proofs.Matching.ClassNames
import DomQuery.Proofs.Collection.Relatives
import DomQuery.Proofs.Markup.Lifting
import DomQuery.Proofs.Workspace.Foreign
import DomQuery.Proofs.Markup.Fostering
import DomQuery.Proofs.Collection.Indices
import DomQuery.Proofs.Matching.LetterCase
