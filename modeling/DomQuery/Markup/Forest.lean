import DomQuery.Markup.Construction

/-!
Reading markup into a document. The text is read as a whole page in a fragment of the document; then the
contents of head and body are lifted out of the page.
-/
namespace DomQuery.Document

/-- What a page holds: for each `html` element the children of its sections, and comments around. -/
def pageContent (d : Document) (container : NodeId) : List NodeId :=
  (d.children container).flatMap fun n => match d.kind? n with
    | some (.element e) => if e.tag = "html" then (d.elementChildren n).flatMap d.children else []
    | some (.comment _) => [n]
    | _ => []

def isBlankText (d : Document) (n : NodeId) : Bool := (d.text? n).any Text.isAllBlank

/-- Puts the content of the page below a container directly into the container and frees the rest. -/
def liftForest (d : Document) (container : NodeId) : Document × List NodeId :=
  let forest := (d.pageContent container).filter (!d.isBlankText ·)
  let d := forest.foldl detach d
  let d := (d.children container).foldl discard d
  let d := forest.foldl (fun d n => d.put (.lastIn container) n) d
  (d.discardIfDrained container, forest)

/-- Adds the forest that a markup text describes. Its nodes are siblings in a fragment of their own,
and they are no roots yet. -/
def parse (d : Document) (markup : String) : Document × List NodeId :=
  let site := Markup.Site.run d (Markup.Construction.edits markup)
  site.document.liftForest site.container

end DomQuery.Document
