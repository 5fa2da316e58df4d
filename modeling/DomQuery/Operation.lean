import DomQuery.Collection.Filtering
import DomQuery.Workspace

/-!
Operations as data. A program is a run of operations, and each is one of the functions on documents,
collections and workspaces applied to what it is called with. Questions that have no nodes for an
answer leave everything as it is and are left out.
-/
namespace DomQuery

inductive Axis where
  | parent
  | parentElement
  | firstChild
  | lastChild
  | previous
  | next
  | previousElement
  | nextElement
  | children
  | elementChildren
  | preceding
  | following
  | descendants
  | ancestors
  deriving DecidableEq, Repr

def Axis.nodes (d : Document) (n : NodeId) : Axis → List NodeId
  | .parent => (d.parent? n).toList
  | .parentElement => (d.parentElement? n).toList
  | .firstChild => (d.firstChild? n).toList
  | .lastChild => (d.lastChild? n).toList
  | .previous => (d.preceding n).head?.toList
  | .next => (d.following n).head?.toList
  | .previousElement => (d.precedingElements n).head?.toList
  | .nextElement => (d.followingElements n).head?.toList
  | .children => d.children n
  | .elementChildren => d.elementChildren n
  | .preceding => d.preceding n
  | .following => d.following n
  | .descendants => d.descendants n
  | .ancestors => d.ancestors n

inductive ElementEdit where
  | setAttribute (name value : String)
  | removeAttribute (name : String)
  | setProperty (name : String) (value : PropertyValue)
  | removeProperty (name : String)
  /-- Whatever a caller does to the data that is handed out. -/
  | custom (edit : Element → Element)

def ElementEdit.run (d : Document) (n : NodeId) : ElementEdit → Document
  | .setAttribute name value => d.setAttribute n name value
  | .removeAttribute name => d.removeAttribute n name
  | .setProperty name value => d.setProperty n name value
  | .removeProperty name => d.removeProperty n name
  | .custom edit => d.modifyElement n edit

inductive Change where
  | create (kind : Kind) (ns : Namespace)
  | parse (markup : String)
  | move (spot : Spot) (node : NodeId)
  | insertBefore (parent node : NodeId) (reference : Option NodeId)
  | removeChild (parent node : NodeId)
  | replaceChild (parent new old : NodeId)
  | detach (node : NodeId)
  | clearChildren (node : NodeId)
  | copy (node : NodeId) (deep : Bool)
  | setTextContent (node : NodeId) (text : String)
  | editElement (node : NodeId) (edit : ElementEdit)
  /-- Writes over all that a node holds; its links stay. -/
  | assign (node : NodeId) (kind : Kind) (ns : Namespace)
  | register (nodes : List NodeId)
  | unregister (nodes : List NodeId)
  | clearRoots

/-- The document afterwards, and the nodes that the caller gets. -/
def Change.run (d : Document) : Change → Except MoveError (Document × List NodeId)
  | .create kind ns =>
    let (d, n) := d.create kind ns
    .ok (d, [n])
  | .parse markup => .ok (d.parse markup)
  | .move spot n => (d.move spot n).map (·, [])
  | .insertBefore parent n reference => (d.insertBefore parent n reference).map (·, [])
  | .removeChild parent n => (d.removeChild parent n).map (·, [n])
  | .replaceChild parent new old => (d.replaceChild parent new old).map (·, [old])
  | .detach n => .ok (d.detach n, [])
  | .clearChildren n => .ok (d.clearChildren n, [])
  | .copy n deep =>
    let (d, copied) := d.copy n deep
    .ok (d, [copied])
  | .setTextContent n text => .ok (d.setTextContent n text, [])
  | .editElement n edit => (d.onElement n (edit.run · n)).map (·, [])
  | .assign n kind ns => .ok (d.modify n fun node => { node with kind, ns }, [])
  | .register nodes => .ok (d.register nodes, [])
  | .unregister nodes => .ok (d.unregister nodes, [])
  | .clearRoots => .ok (d.clearRoots, [])

inductive Derivation where
  | find (selector : String)
  | filter (selector : String)
  | without (selector : String)
  | has (selector : String)
  | closest (selector : String)
  | children (filter : Option String)
  | parent (filter : Option String)
  | parents (filter : Option String)
  | parentsUntil (stop : Target) (filter : Option String)
  | siblings (filter : Option String)
  | next (filter : Option String)
  | nextAll (filter : Option String)
  | nextUntil (stop : Target) (filter : Option String)
  | prev (filter : Option String)
  | prevAll (filter : Option String)
  | prevUntil (stop : Target) (filter : Option String)
  | contents
  | first
  | last
  | back
  | slice (start : Int) (stop : Option Int)
  | eq (index : Int)
  | filterBy (predicate : Nat → NodeId → Option Bool)
  | withoutBy (predicate : Nat → NodeId → Option Bool)

def Derivation.run (d : Document) (c : Collection) : Derivation → Except SelectorError Collection
  | .find selector => c.find d selector
  | .filter selector => c.filter d selector
  | .without selector => c.without d selector
  | .has selector => c.has d selector
  | .closest selector => c.closest d selector
  | .children kept => c.children d kept
  | .parent kept => c.parent d kept
  | .parents kept => c.parents d kept
  | .parentsUntil stop kept => c.parentsUntil d stop kept
  | .siblings kept => c.siblings d kept
  | .next kept => c.next d kept
  | .nextAll kept => c.nextAll d kept
  | .nextUntil stop kept => c.nextUntil d stop kept
  | .prev kept => c.prev d kept
  | .prevAll kept => c.prevAll d kept
  | .prevUntil stop kept => c.prevUntil d stop kept
  | .contents => .ok (c.contents d)
  | .first => .ok c.first
  | .last => .ok c.last
  | .back => .ok c.back
  | .slice start stop => .ok (c.slice start stop)
  | .eq index => .ok (c.eq index)
  | .filterBy predicate => .ok (c.filterBy predicate)
  | .withoutBy predicate => .ok (c.withoutBy predicate)

inductive Rework where
  | insert (content : Content) (place : Place)
  | wrap (content : Content)
  | wrapAll (content : Content)
  | wrapInner (content : Content)
  | remove (filter : Option String)
  | empty
  | setText (text : String)
  | setMarkup (markup : String)
  | setAttribute (name value : String)
  | removeAttribute (name : String)
  | setProperty (name : String) (value : PropertyValue)
  | addClass (names : String)
  | removeClass (names : String)
  | toggleClass (names : String) (wanted : Option Bool)

def Rework.run (ws : Workspace) (c : Collection) : Rework → Except SelectorError Workspace
  | .insert content place => .ok (ws.insert c content place)
  | .wrap content => .ok (ws.wrap c content)
  | .wrapAll content => .ok (ws.wrapAll c content)
  | .wrapInner content => .ok (ws.wrapInner c content)
  | .remove filter => ws.remove c filter
  | .empty => .ok (ws.empty c)
  | .setText text => .ok (ws.setText c text)
  | .setMarkup markup => .ok (ws.setMarkup c markup)
  | .setAttribute name value => .ok (ws.setAttribute c name value)
  | .removeAttribute name => .ok (ws.removeAttribute c name)
  | .setProperty name value => .ok (ws.setProperty c name value)
  | .addClass names => .ok (ws.addClass c names)
  | .removeClass names => .ok (ws.removeClass c names)
  | .toggleClass names wanted => .ok (ws.toggleClass c names wanted)

inductive Operation where
  | newDocument
  | reset
  | query (input : String)
  | parse (dom : DomId) (markup : String)
  | fragment (dom : DomId) (markup : String)
  | select (dom : DomId) (selector : String)
  | collect (dom : DomId) (nodes : List NodeId)
  | sort (dom : DomId) (nodes : List NodeId)
  | queryAll (dom : DomId) (roots : List NodeId) (selector : Selector) (scope : Scope)
  | roots (dom : DomId)
  | liveRoots (dom : DomId)
  | look (dom : DomId) (axis : Axis) (node : NodeId)
  | change (dom : DomId) (change : Change)
  | importNode (dom other : DomId) (node : NodeId)
  | derive (c : Collection) (step : Derivation)
  | add (c : Collection) (target : Target)
  | rework (c : Collection) (rework : Rework)
  | insertAt (c : Collection) (target : Target) (place : Place)
  | cloneNodes (c : Collection)

inductive Failure where
  | move (error : MoveError)
  | selector (error : SelectorError)

namespace Workspace

def perform (ws : Workspace) : Operation → Except Failure (Workspace × Collection)
  | .newDocument =>
    let (ws, dom) := ws.newDocument
    .ok (ws, { dom, nodes := [] })
  | .reset => .ok (ws.reset, { dom := ws.reset.current, nodes := [] })
  | .query input => (ws.query input).mapError .selector
  | .parse dom markup => .ok (ws.parse dom markup)
  | .fragment dom markup => .ok (ws.fragment dom markup)
  | .select dom selector => ((ws.select dom selector).map (ws, ·)).mapError .selector
  | .collect dom nodes => .ok (ws, .ofNodes dom nodes)
  | .sort dom nodes => .ok (ws, { dom, nodes := (ws.document dom).sortByOrder nodes })
  | .queryAll dom roots selector scope =>
    .ok (ws, { dom, nodes := (ws.document dom).query roots selector scope })
  | .roots dom => .ok (ws, { dom, nodes := (ws.document dom).roots })
  | .liveRoots dom => .ok (ws, { dom, nodes := (ws.document dom).liveRoots })
  | .look dom axis n => .ok (ws, { dom, nodes := axis.nodes (ws.document dom) n })
  | .change dom change =>
    ((change.run (ws.document dom)).map fun (d, nodes) =>
      (ws.setDocument dom d, { dom, nodes })).mapError .move
  | .importNode dom other n =>
    let (d, copied) := (ws.document dom).importNode (ws.document other) n
    .ok (ws.setDocument dom d, { dom, nodes := [copied] })
  | .derive c step => ((step.run (ws.document c.dom) c).map (ws, ·)).mapError .selector
  | .add c target => ((ws.add c target).map (ws, ·)).mapError .selector
  | .rework c rework => ((rework.run ws c).map (·, c)).mapError .selector
  | .insertAt c target place => (ws.insertAt c target place).mapError .selector
  | .cloneNodes c => .ok (ws.cloneNodes c)

/-- An operation that fails changes nothing. -/
def after (ws : Workspace) (op : Operation) : Workspace :=
  match ws.perform op with
  | .ok (ws, _) => ws
  | .error _ => ws

def run (ws : Workspace) (ops : List Operation) : Workspace := ops.foldl after ws

end Workspace
end DomQuery
