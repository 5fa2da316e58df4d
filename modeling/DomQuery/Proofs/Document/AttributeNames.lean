import DomQuery.Proofs.Document.Discard
import DomQuery.Proofs.Document.Grafting
import DomQuery.Document.Classes
import DomQuery.Document.Wrapping

/-!
Names of attributes. An element has no two attributes of one name: a value that is set stands in for the
old one, and what else is done with a node leaves its attributes alone or copies them.
-/
namespace DomQuery

namespace Entries
variable {α : Type} {entries other : Entries α} {name : String}

def Distinct (entries : Entries α) : Prop := (entries.map (·.1)).Nodup

instance (entries : Entries α) : Decidable entries.Distinct :=
  inferInstanceAs (Decidable (List.Nodup _))

theorem mem_names_set {key : String} {value : α} (h : key ∈ (entries.set name value).map (·.1)) :
    key = name ∨ key ∈ entries.map (·.1) := by
  induction entries with
  | nil => exact .inl (List.mem_singleton.1 h)
  | cons entry rest ih =>
    obtain ⟨first, old⟩ := entry
    rw [set] at h
    split at h
    · exact .inr h
    · rw [List.map_cons, List.mem_cons] at h ⊢
      rcases h with h | h
      · exact .inr (.inl h)
      · exact (ih h).imp_right .inr

theorem Distinct.set (h : entries.Distinct) (name : String) (value : α) :
    (entries.set name value).Distinct := by
  induction entries with
  | nil => exact List.nodup_singleton name
  | cons entry rest ih =>
    obtain ⟨first, old⟩ := entry
    obtain ⟨hfirst, hrest⟩ := List.nodup_cons.1 h
    rw [Entries.set]
    split
    · exact h
    · rename_i hne
      refine List.nodup_cons.2 ⟨fun hmem => ?_, ih hrest⟩
      exact (mem_names_set hmem).elim hne hfirst

theorem Distinct.remove (h : entries.Distinct) (name : String) : (entries.remove name).Distinct :=
  List.Nodup.sublist (List.Sublist.map _ List.filter_sublist) h

theorem distinct_ofPairs (pairs : List (String × α)) : (ofPairs pairs).Distinct :=
  List.foldlRecOn pairs _ List.nodup_nil fun _ h pair _ => h.set pair.1 pair.2

end Entries

def Kind.NamesDistinct : Kind → Prop
  | .element e => e.attributes.Distinct
  | _ => True

instance : (kind : Kind) → Decidable kind.NamesDistinct
  | .element e => inferInstanceAs (Decidable e.attributes.Distinct)
  | .fragment => inferInstanceAs (Decidable True)
  | .text _ => inferInstanceAs (Decidable True)
  | .comment _ => inferInstanceAs (Decidable True)

inductive Tree.NamesDistinct : Tree → Prop
  | node {kind : Kind} {ns : Namespace} {children : List Tree} :
    kind.NamesDistinct → (∀ t ∈ children, NamesDistinct t) → NamesDistinct (.node kind ns children)

theorem Element.distinct_editClasses {e : Element} (h : e.attributes.Distinct)
    (change : List String → List String) : (e.editClasses change).attributes.Distinct := by
  rw [editClasses]
  split
  · exact h
  · exact h.set _ _

namespace Document
variable {d d' other : Document} {n p template wrapper : NodeId} {ns targets : List NodeId} {spot : Spot}
  {way : Place}

/-- No element has two attributes of one name. -/
def NamesDistinct (d : Document) : Prop := ∀ n kind, d.kind? n = some kind → kind.NamesDistinct

instance : Decidable d.NamesDistinct :=
  decidable_of_iff (∀ n < d.slots.size, ∀ kind ∈ d.kind? n, kind.NamesDistinct) <| by
    refine ⟨fun h n kind hkind => h n (lt_fresh (isAllocated_of_kind? hkind)) kind hkind,
      fun h n _ kind hkind => h n kind hkind⟩

theorem namesDistinct_empty : ({} : Document).NamesDistinct := fun _ _ hkind => by cases hkind

namespace NamesDistinct

theorem of_kind? (h : d.NamesDistinct) (hd : ∀ n kind, d'.kind? n = some kind → d.kind? n = some kind) :
    d'.NamesDistinct := fun n kind hkind => h n kind (hd n kind hkind)

theorem of_data? (h : d.NamesDistinct) (hd : ∀ n, d'.data? n = d.data? n) : d'.NamesDistinct :=
  h.of_kind? fun n _ hkind => kind?_congr (hd n) ▸ hkind

theorem foldl {α : Type} {f : Document → α → Document} (h : d.NamesDistinct) (xs : List α)
    (hf : ∀ d', d'.NamesDistinct → ∀ x, (f d' x).NamesDistinct) : (xs.foldl f d).NamesDistinct :=
  List.foldlRecOn xs f h fun d' hd' x _ => hf d' hd' x

/-! Data. -/

theorem modify (h : d.NamesDistinct) {f : Node → Node}
    (hf : ∀ node, node.kind.NamesDistinct → (f node).kind.NamesDistinct) :
    (d.modify n f).NamesDistinct := by
  intro m kind hkind
  rw [kind?, node?_modify] at hkind
  split at hkind
  · rename_i heq
    subst heq
    rw [Option.map_map] at hkind
    obtain ⟨node, hnode, rfl⟩ := Option.map_eq_some_iff.1 hkind
    refine hf node (h m node.kind ?_)
    rw [kind?, hnode]
    rfl
  · exact h m kind hkind

theorem modifyElement (h : d.NamesDistinct) {f : Element → Element}
    (hf : ∀ e, e.attributes.Distinct → (f e).attributes.Distinct) : (d.modifyElement n f).NamesDistinct := by
  refine h.modify fun node hnode => ?_
  split
  · rename_i e heq
    rw [heq] at hnode
    exact hf e hnode
  · exact hnode

theorem add (h : d.NamesDistinct) {node : Node} (hnode : node.kind.NamesDistinct) :
    (d.add node).NamesDistinct := by
  intro m kind hkind
  rw [kind?, node?_add] at hkind
  split at hkind
  · obtain rfl := Option.some.inj hkind
    exact hnode
  · exact h m kind hkind

theorem create (h : d.NamesDistinct) {kind : Kind} (hkind : kind.NamesDistinct) (space : Namespace) :
    (d.create kind space).1.NamesDistinct := h.add hkind

/-! Taking out, putting in and taking away. -/

theorem detach (h : d.NamesDistinct) (n : NodeId) : (d.detach n).NamesDistinct := h.of_data? (data?_detach d n)

theorem clearChildren (h : d.NamesDistinct) (n : NodeId) : (d.clearChildren n).NamesDistinct :=
  h.foldl _ fun _ hd' n => hd'.detach n

theorem put (h : d.NamesDistinct) (spot : Spot) (n : NodeId) : (d.put spot n).NamesDistinct :=
  h.of_data? (data?_put d spot n)

theorem tryPut (h : d.NamesDistinct) (spot : Spot) (n : NodeId) : (d.tryPut spot n).NamesDistinct := by
  rw [Document.tryPut]
  split
  · exact h
  · exact h.put spot n

theorem tryPutAll (h : d.NamesDistinct) (spot : Spot) (ns : List NodeId) :
    (d.tryPutAll spot ns).NamesDistinct := h.foldl _ fun _ hd' n => hd'.tryPut spot n

theorem placeFrom (h : d.NamesDistinct) (spot : Spot) : (d.placeFrom way p spot ns).1.NamesDistinct := by
  induction ns generalizing d spot with
  | nil => exact h
  | cons n ns ih =>
    rw [Document.placeFrom]
    split
    · exact ih h spot
    · exact ih (h.put spot n) _

theorem place (h : d.NamesDistinct) (way : Place) (p : NodeId) (ns : List NodeId) :
    (d.place way p ns).1.NamesDistinct := h.placeFrom _

theorem discard (h : d.NamesDistinct) (n : NodeId) : (d.discard n).NamesDistinct := by
  refine (h.detach n).of_kind? fun m kind hkind => ?_
  rw [Document.discard, kind?, node?_foldl_free] at hkind
  split at hkind
  · cases hkind
  · exact hkind

theorem discardScratch (h : d.NamesDistinct) (c : Option NodeId) : (d.discardScratch c).NamesDistinct := by
  cases c with
  | none => exact h
  | some c => exact h.discard c

theorem discardIfDrained (h : d.NamesDistinct) (n : NodeId) : (d.discardIfDrained n).NamesDistinct := by
  rw [Document.discardIfDrained]
  split
  · exact h.discard n
  · exact h

theorem setTextContent (h : d.NamesDistinct) (n : NodeId) (text : String) :
    (d.setTextContent n text).NamesDistinct := by
  rw [Document.setTextContent]
  split
  · exact h.modify fun _ _ => trivial
  · exact h.modify fun _ _ => trivial
  · dsimp only
    split
    · exact h.clearChildren n
    · have htext : (Kind.text text).NamesDistinct := trivial
      exact ((h.clearChildren n).create htext .html).put _ _

theorem register (h : d.NamesDistinct) (ns : List NodeId) : (d.register ns).NamesDistinct := h

theorem unregister (h : d.NamesDistinct) (ns : List NodeId) : (d.unregister ns).NamesDistinct := h

/-! Copies. -/

theorem treeWithin (h : d.NamesDistinct) (bound : Nat) (n : NodeId) : (d.treeWithin bound n).NamesDistinct := by
  induction bound generalizing n with
  | zero => exact .node trivial nofun
  | succ bound ih =>
    refine .node ?_ fun t ht => ?_
    · cases hkind : d.kind? n with
      | none => exact trivial
      | some kind => exact h n kind hkind
    · obtain ⟨c, -, rfl⟩ := List.mem_map.1 ht
      exact ih c

theorem treeAt (h : d.NamesDistinct) (n : NodeId) : (d.treeAt n).NamesDistinct := h.treeWithin _ n

mutual

theorem plantUnder : ∀ {tree : Tree} {d : Document}, d.NamesDistinct → tree.NamesDistinct →
    ∀ parent, (d.plantUnder parent tree).1.NamesDistinct
  | .node _ _ _, _, h, .node hkind hchildren, _ =>
    (plantAllUnder (h.add hkind) hchildren _).modify fun _ => id

theorem plantAllUnder : ∀ {trees : List Tree} {d : Document}, d.NamesDistinct →
    (∀ t ∈ trees, t.NamesDistinct) → ∀ parent, (d.plantAllUnder parent trees).1.NamesDistinct
  | [], _, h, _, _ => h
  | tree :: _, _, h, htrees, parent =>
    plantAllUnder (plantUnder h (htrees tree List.mem_cons_self) (some parent))
      (fun t ht => htrees t (List.mem_cons_of_mem tree ht)) parent

end

theorem importNode (h : d.NamesDistinct) (hother : other.NamesDistinct) (n : NodeId) :
    (d.importNode other n).1.NamesDistinct := plantUnder h (hother.treeAt n) none

theorem copy (h : d.NamesDistinct) (n : NodeId) (deep : Bool) : (d.copy n deep).1.NamesDistinct := by
  rw [Document.copy]
  split
  · exact h.importNode h n
  · refine h.add ?_
    cases hkind : d.kind? n with
    | none => exact trivial
    | some kind => exact h n kind hkind

theorem copyAll (h : d.NamesDistinct) (ns : List NodeId) : (d.copyAll ns).1.NamesDistinct := by
  induction ns generalizing d with
  | nil => exact h
  | cons n ns ih => exact ih (h.copy n true)

theorem placeCopies (h : d.NamesDistinct) (way : Place) (ns targets : List NodeId) :
    (d.placeCopies way ns targets).1.NamesDistinct := by
  induction targets generalizing d with
  | nil => exact h
  | cons t targets ih => exact ih ((h.copyAll ns).place way t _)

theorem distribute (h : d.NamesDistinct) (way : Place) (targets ns : List NodeId) :
    (d.distribute way targets ns).1.NamesDistinct := by
  cases targets with
  | nil => exact h
  | cons first rest =>
    have hplaced := (h.place way first ns).placeCopies way ns rest
    simp only [Document.distribute]
    split
    · exact hplaced.register _
    · exact hplaced

/-! Wrapping. -/

theorem wrapAt (h : d.NamesDistinct) (wrapper first : NodeId) (ns : List NodeId) :
    (d.wrapAt wrapper first ns).NamesDistinct := by
  rw [Document.wrapAt]
  split
  · exact h.discard wrapper
  · dsimp only
    split
    · exact ((h.put _ wrapper).tryPutAll _ ns).register _
    · exact (h.tryPutAll _ ns).register _

theorem wrapEach (h : d.NamesDistinct) (template : NodeId) (ns : List NodeId) :
    (d.wrapEach template ns).NamesDistinct :=
  h.foldl _ fun _ hd' n => (hd'.copy template true).wrapAt _ n [n]

theorem wrapTogether (h : d.NamesDistinct) (template : NodeId) (ns : List NodeId) :
    (d.wrapTogether template ns).NamesDistinct := by
  cases ns with
  | nil => exact h
  | cons first rest => exact (h.copy template true).wrapAt _ first _

theorem wrapChildren (h : d.NamesDistinct) (template n : NodeId) : (d.wrapChildren template n).NamesDistinct := by
  rw [Document.wrapChildren]
  dsimp only
  split
  · exact (h.copy template true).discard _
  · exact ((h.copy template true).put _ _).tryPutAll _ _

theorem wrapInside (h : d.NamesDistinct) (template : NodeId) (ns : List NodeId) :
    (d.wrapInside template ns).NamesDistinct := h.foldl _ fun _ hd' n => hd'.wrapChildren template n

end NamesDistinct
end Document
end DomQuery
