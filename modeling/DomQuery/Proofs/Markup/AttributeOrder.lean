import DomQuery.Proofs.Distinct
import DomQuery.Proofs.Document.AttributeNames
import DomQuery.Proofs.Markup.Rendering

/-!
The order of attributes. Elements keep their attributes in the order in which they were set; the writer can
sort them by name instead. Names are distinct, so there is one ascending order, and what is written then
does not tell how the attributes were stored.
-/
namespace DomQuery

namespace Entries
variable {α : Type} {entries other : Entries α}

def Ascending (entries : Entries α) : Prop := entries.Pairwise fun a b => a.1 < b.1

instance (entries : Entries α) : Decidable entries.Ascending :=
  inferInstanceAs (Decidable (List.Pairwise _ _))

theorem Distinct.of_perm (h : entries.Distinct) (hperm : other.Perm entries) : other.Distinct :=
  (hperm.map fun entry : String × α => entry.1).nodup_iff.2 h

theorem Distinct.ascending_mergeSort (h : entries.Distinct) :
    Ascending (entries.mergeSort fun a b => a.1 ≤ b.1) := by
  let le (a b : String × α) : Bool := a.1 ≤ b.1
  have hsorted : (entries.mergeSort le).Pairwise fun a b => le a b := by
    refine List.pairwise_mergeSort (fun a b c hab hbc => ?_) (fun a b => ?_) entries
    · exact decide_eq_true (String.le_trans (of_decide_eq_true hab) (of_decide_eq_true hbc))
    · exact Bool.or_eq_true_iff.2 ((String.le_total a.1 b.1).imp decide_eq_true decide_eq_true)
  have hnames : (entries.mergeSort le).Pairwise fun a b => a.1 ≠ b.1 :=
    List.pairwise_map.1 (h.of_perm (List.mergeSort_perm entries le))
  exact hsorted.imp₂ (fun a b hle hne => Std.lt_of_le_of_ne (of_decide_eq_true hle) hne) hnames

theorem Ascending.eq_of_perm (h : entries.Ascending) (hother : other.Ascending)
    (hperm : other.Perm entries) : other = entries :=
  eq_of_pairwise (fun _ _ => String.lt_asymm) hother h fun _ => hperm.mem_iff

theorem mem_iff_get? (h : entries.Distinct) {name : String} {value : α} :
    (name, value) ∈ entries ↔ entries.get? name = some value := by
  induction entries with
  | nil => simp [get?]
  | cons entry rest ih =>
    obtain ⟨key, old⟩ := entry
    obtain ⟨hkey, hrest⟩ := List.nodup_cons.1 h
    rw [get?_cons, List.mem_cons, ih hrest, Prod.mk.injEq]
    split
    · rename_i heq
      subst heq
      have hnone : Entries.get? rest key ≠ some value := fun hget =>
        hkey (List.mem_map.2 ⟨(key, value), (ih hrest).2 hget, rfl⟩)
      rw [Option.some.injEq, or_iff_left hnone, and_iff_right rfl, eq_comm]
    · rename_i hne
      exact or_iff_right fun heq => hne heq.1.symm

theorem perm_of_get? (h : entries.Distinct) (hother : other.Distinct)
    (hget : ∀ name, other.get? name = entries.get? name) : other.Perm entries := by
  refine (List.perm_ext_iff_of_nodup hother.of_map h.of_map).2 fun (name, value) => ?_
  rw [mem_iff_get? hother, mem_iff_get? h, hget]

end Entries

/-- The same data but for the order of the attributes. Properties are not written. -/
def Kind.isReordering : Kind → Kind → Bool
  | .element e, .element e' => e.tag == e'.tag && e.attributes.isPerm e'.attributes
  | kind, kind' => kind == kind'

/-- What a node is apart from its attributes. -/
def Kind.withoutAttributes : Kind → Kind
  | .element e => .element { e with attributes := [] }
  | kind => kind

namespace Tree

mutual

/-- The same tree but for the order of the attributes in its elements. -/
def isReordering : Tree → Tree → Bool
  | .node kind _ children, .node kind' _ children' =>
    kind.isReordering kind' && areReorderings children children'

def areReorderings : List Tree → List Tree → Bool
  | [], [] => true
  | tree :: trees, tree' :: trees' => tree.isReordering tree' && areReorderings trees trees'
  | _, _ => false

end

end Tree

namespace Render
variable {options : RenderOptions} {e e' : Element}

theorem attributes_perm (options : RenderOptions) (e : Element) :
    (attributes options e).Perm e.attributes := by
  rw [attributes]
  split
  · exact List.mergeSort_perm e.attributes _
  · exact List.Perm.refl _

theorem ascending_attributes (h : e.attributes.Distinct) (hsort : options.sortAttributes) :
    (attributes options e).Ascending := by
  rw [attributes, if_pos hsort]
  exact h.ascending_mergeSort

theorem openTag_of_perm (h : e.attributes.Distinct) (hsort : options.sortAttributes)
    (htag : e'.tag = e.tag) (hperm : e'.attributes.Perm e.attributes) :
    openTag options e' = openTag options e := by
  have hsame := (ascending_attributes h hsort).eq_of_perm (ascending_attributes (h.of_perm hperm) hsort)
    ((attributes_perm options e').trans (hperm.trans (attributes_perm options e).symm))
  rw [openTag_eq_tagWith, openTag_eq_tagWith, hsame, htag]

end Render

namespace Kind
variable {options : RenderOptions} {kind kind' : Kind}

theorem eq_or_elements (h : kind.isReordering kind') : kind' = kind ∨ ∃ e e', kind = .element e ∧
    kind' = .element e' ∧ e'.tag = e.tag ∧ e'.attributes.Perm e.attributes := by
  unfold isReordering at h
  split at h
  · rename_i e e'
    obtain ⟨htag, hperm⟩ := Bool.and_eq_true_iff.1 h
    exact .inr ⟨e, e', rfl, rfl, (eq_of_beq htag).symm, (List.isPerm_iff.1 hperm).symm⟩
  · exact .inl (eq_of_beq h).symm

theorem isReordering_of_get? (hkind : kind.withoutAttributes = kind'.withoutAttributes)
    (hnames : kind.NamesDistinct) (hnames' : kind'.NamesDistinct)
    (hget : ∀ e ∈ kind.element?, ∀ e' ∈ kind'.element?, ∀ name,
      e.attributes.get? name = e'.attributes.get? name) : kind.isReordering kind' := by
  cases kind with
  | element e =>
    cases kind' with
    | element e' =>
      rw [withoutAttributes, withoutAttributes, element.injEq, Element.mk.injEq] at hkind
      have hperm := Entries.perm_of_get? hnames hnames' fun name => (hget e rfl e' rfl name).symm
      exact Bool.and_eq_true_iff.2 ⟨beq_iff_eq.2 hkind.1, List.isPerm_iff.2 hperm.symm⟩
    | _ => cases hkind
  | _ =>
    cases kind' <;> cases hkind
    exact beq_self_eq_true _

theorem tag?_of_isReordering (h : kind.isReordering kind') : kind'.tag? = kind.tag? := by
  obtain rfl | ⟨e, e', rfl, rfl, htag, -⟩ := eq_or_elements h
  · rfl
  · exact congrArg some htag

theorem opening_of_isReordering (hsort : options.sortAttributes) (hnames : kind.NamesDistinct)
    (h : kind.isReordering kind') (p : Option String) :
    Render.opening options p kind' = Render.opening options p kind := by
  obtain rfl | ⟨e, e', rfl, rfl, htag, hperm⟩ := eq_or_elements h
  · rfl
  · exact Render.openTag_of_perm hnames hsort htag hperm

theorem closing_of_isReordering (h : kind.isReordering kind') : Render.closing kind' = Render.closing kind := by
  obtain rfl | ⟨e, e', rfl, rfl, htag, -⟩ := eq_or_elements h
  · rfl
  · rw [Render.closing, Render.closing, Render.endTag, Render.endTag, htag]

end Kind

namespace Tree
variable {options : RenderOptions}

mutual

/-- Node by node the start tags are the same once they are sorted. -/
theorem markup_of_isReordering (hsort : options.sortAttributes) : ∀ {tree tree' : Tree},
    tree.NamesDistinct → tree.isReordering tree' →
      ∀ p, tree'.markup options p = tree.markup options p
  | .node kind _ children, .node kind' _ children', .node hkind hchildren, h, p => by
    obtain ⟨hsame, hbelow⟩ := Bool.and_eq_true_iff.1 h
    rw [markup, markup, Kind.opening_of_isReordering hsort hkind hsame, Kind.closing_of_isReordering hsame,
      Kind.tag?_of_isReordering hsame, markupAll_of_areReorderings hsort hchildren hbelow]

theorem markupAll_of_areReorderings (hsort : options.sortAttributes) : ∀ {trees trees' : List Tree},
    (∀ t ∈ trees, t.NamesDistinct) → areReorderings trees trees' →
      ∀ p, markupAll options p trees' = markupAll options p trees
  | [], [], _, _, _ => rfl
  | tree :: trees, tree' :: trees', hnames, h, p => by
    obtain ⟨hsame, hrest⟩ := Bool.and_eq_true_iff.1 h
    rw [markupAll, markupAll, markup_of_isReordering hsort (hnames tree List.mem_cons_self) hsame,
      markupAll_of_areReorderings hsort (fun t ht => hnames t (List.mem_cons_of_mem tree ht)) hrest]

end

end Tree

namespace Document
variable {d other : Document} {n m : NodeId} {options : RenderOptions}

theorem markup_treeAt_congr {p q : Option String} (h : ∀ data, d.kind? n = some (.text data) → q = p) :
    (d.treeAt n).markup options q = (d.treeAt n).markup options p := by
  rw [treeAt]
  cases d.slots.size with
  | zero => rfl
  | succ bound =>
    rw [treeWithin, Tree.markup, Tree.markup]
    cases hkind : d.kind? n with
    | none => rfl
    | some kind =>
      cases kind with
      | text data => rw [h data hkind]
      | _ => rfl

theorem WellFormed.outerMarkup_of_isReordering (h : d.WellFormed) (hother : other.WellFormed)
    (hnames : d.NamesDistinct) (hsort : options.sortAttributes)
    (hsame : (d.treeAt n).isReordering (other.treeAt m))
    (htext : ∀ data, d.kind? n = some (.text data) → other.parentTag? m = d.parentTag? n) :
    other.outerMarkup m options = d.outerMarkup n options := by
  rw [hother.outerMarkup_eq, h.outerMarkup_eq, Tree.markup_of_isReordering hsort (hnames.treeAt n) hsame,
    markup_treeAt_congr htext]

theorem edgeMarkup_enter_element {e : Element} (hkind : d.kind? m = some (.element e)) :
    d.edgeMarkup options (.enter m) = Render.tagWith e.tag (Render.attributes options e) := by
  rw [edgeMarkup_enter, hkind, ← Render.openTag_eq_tagWith]
  rfl

theorem edgeMarkup_enter_of_not_isElement (hm : ¬ d.isElement m) (guarded : Bool) :
    d.edgeMarkup ⟨true, guarded⟩ (.enter m) = d.edgeMarkup ⟨false, guarded⟩ (.enter m) := by
  rw [edgeMarkup_enter, edgeMarkup_enter]
  cases hkind : d.kind? m with
  | none => rfl
  | some kind =>
    cases kind with
    | element e => exact absurd (by rw [isElement, element?, hkind]; rfl) hm
    | _ => rfl

theorem isReordering_treeWithin (hchildren : ∀ n, other.children n = d.children n)
    (hkinds : ∀ n, ((d.kind? n).getD .fragment).isReordering ((other.kind? n).getD .fragment))
    (bound : Nat) (n : NodeId) :
    (d.treeWithin bound n).isReordering (other.treeWithin bound n) := by
  induction bound generalizing n with
  | zero => rfl
  | succ bound ih =>
    have hbelow (cs : List NodeId) :
        Tree.areReorderings (cs.map (d.treeWithin bound)) (cs.map (other.treeWithin bound)) := by
      induction cs with
      | nil => rfl
      | cons c cs ihcs => exact Bool.and_eq_true_iff.2 ⟨ih c, ihcs⟩
    rw [treeWithin, treeWithin, Tree.isReordering, hkinds, hchildren, hbelow]
    rfl

/-- What is written sorted does not depend on more than can be asked: the links, what the nodes are, and the
values of attributes by name. -/
theorem WellFormed.outerMarkup_of_attribute? (h : d.WellFormed) (hother : other.WellFormed)
    (hnames : d.NamesDistinct) (hnames' : other.NamesDistinct) (hsort : options.sortAttributes)
    (hsize : other.fresh = d.fresh) (hchildren : ∀ n, other.children n = d.children n)
    (hkinds : ∀ n, (other.kind? n).map (·.withoutAttributes) = (d.kind? n).map (·.withoutAttributes))
    (hvalues : ∀ n name, other.attribute? n name = d.attribute? n name) (n : NodeId) :
    other.outerMarkup n options = d.outerMarkup n options := by
  have hkind (n : NodeId) : ((d.kind? n).getD .fragment).isReordering ((other.kind? n).getD .fragment) := by
    have hdata := hkinds n
    have hvalue := hvalues n
    cases hd : d.kind? n with
    | none =>
      rw [hd] at hdata
      rw [Option.map_eq_none_iff.1 hdata]
      rfl
    | some kind =>
      rw [hd] at hdata
      obtain ⟨kind', hother', hdata⟩ := Option.map_eq_some_iff.1 hdata
      rw [hother']
      refine Kind.isReordering_of_get? hdata.symm (hnames n kind hd) (hnames' n kind' hother') ?_
      intro e (he : kind.element? = some e) e' (he' : kind'.element? = some e') name
      have hsame := hvalue name
      rw [attribute?, attribute?, element?, element?, hd, hother', Option.bind_some, Option.bind_some, he,
        he'] at hsame
      exact hsame.symm
  have hparent : other.parent? n = d.parent? n := Option.ext fun p => by
    rw [hother.parent?_eq_some_iff, h.parent?_eq_some_iff, hchildren]
  have htag : other.tag? = d.tag? := funext fun p => by
    rw [← tag?_getD_kind?, ← tag?_getD_kind?, Kind.tag?_of_isReordering (hkind p)]
  refine h.outerMarkup_of_isReordering hother hnames hsort ?_ fun _ _ => ?_
  · rw [treeAt, treeAt, show other.slots.size = d.slots.size from hsize]
    exact isReordering_treeWithin hchildren hkind d.slots.size n
  · rw [parentTag?, parentTag?, hparent, htag]

end Document
end DomQuery
