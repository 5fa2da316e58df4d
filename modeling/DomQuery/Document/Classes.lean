import DomQuery.Document.Walk

/-!
Editing class lists. The `class` attribute is written again only where its words have changed.
-/
namespace DomQuery

namespace ClassList

def add (names list : List String) : List String :=
  names.foldl (fun list name => if list.contains name then list else list ++ [name]) list

def remove (names list : List String) : List String := list.filter (!names.contains ·)

def toggleOne (wanted : Option Bool) (list : List String) (name : String) : List String :=
  let present := list.contains name
  if wanted.getD !present then if present then list else list ++ [name]
  else list.filter (· != name)

def toggle (wanted : Option Bool) (names list : List String) : List String :=
  names.foldl (toggleOne wanted) list

end ClassList

namespace Element

def classList (e : Element) : List String :=
  ((e.attributes.get? "class").map Text.words).getD []

def editClasses (change : List String → List String) (e : Element) : Element :=
  let changed := change e.classList
  if changed = e.classList then e
  else { e with attributes := e.attributes.set "class" (" ".intercalate changed) }

end Element

namespace Document

def editClasses (d : Document) (change : List String → List String) (nodes : List NodeId) :
    Document :=
  nodes.foldl (fun d n => d.modifyElement n (Element.editClasses change)) d

def addClass (d : Document) (names : String) (nodes : List NodeId) : Document :=
  d.editClasses (ClassList.add (Text.words names)) nodes

def removeClass (d : Document) (names : String) (nodes : List NodeId) : Document :=
  d.editClasses (ClassList.remove (Text.words names)) nodes

def toggleClass (d : Document) (names : String) (wanted : Option Bool) (nodes : List NodeId) :
    Document :=
  d.editClasses (ClassList.toggle wanted (Text.words names)) nodes

end Document
end DomQuery
