import DomQuery.Proofs.Markup.Rendering
import Mathlib.Data.List.Basic

/-!
Where the pieces of markup end. Names, values and texts end at the first character that cannot stand in
them, since escaping keeps it out; a comment ends at its first end mark.
-/
namespace DomQuery
open Markup Render

def Markup.isAttributeChar (c : Char) : Bool := c.isAlphanum || c == '-'

namespace Readable
variable {x y r s : List Char} {p : Char → Bool}

/-! Runs of characters. -/

def Stops (p : Char → Bool) (r : List Char) : Prop := ∀ c ∈ r.head?, p c = false

theorem takeWhile_append (hx : ∀ c ∈ x, p c) (hr : Stops p r) : (x ++ r).takeWhile p = x := by
  rw [List.takeWhile_append_of_pos hx]
  cases r with
  | nil => simp
  | cons c r => rw [List.takeWhile_cons_of_neg (by simp [hr c rfl]), List.append_nil]

theorem run_unique (hx : ∀ c ∈ x, p c) (hy : ∀ c ∈ y, p c) (hr : Stops p r) (hs : Stops p s)
    (h : x ++ r = y ++ s) : x = y ∧ r = s := by
  have hxy : x = y := by rw [← takeWhile_append hx hr, h, takeWhile_append hy hs]
  subst hxy
  exact ⟨rfl, List.append_cancel_left h⟩

/-! Escaping. -/

theorem flatMap_injective {escape : Char → List Char} (hne : ∀ c, escape c ≠ [])
    (hchar : ∀ {a b r s}, escape a ++ r = escape b ++ s → a = b ∧ r = s)
    (h : x.flatMap escape = y.flatMap escape) : x = y := by
  induction x generalizing y with
  | nil => cases y with
    | nil => rfl
    | cons b y => simp [hne b] at h
  | cons a x ih => cases y with
    | nil => simp [hne a] at h
    | cons b y =>
      rw [List.flatMap_cons, List.flatMap_cons] at h
      obtain ⟨rfl, hxy⟩ := hchar h
      rw [ih hxy]

theorem escapeChar_ne_nil (c : Char) : escapeChar c ≠ [] := by
  unfold escapeChar
  split <;> simp

theorem escapeValueChar_ne_nil (c : Char) : escapeValueChar c ≠ [] := by
  unfold escapeValueChar
  split
  · simp
  · exact escapeChar_ne_nil _

theorem escapeChar_unique {a b : Char} (h : escapeChar a ++ r = escapeChar b ++ s) :
    a = b ∧ r = s := by
  unfold escapeChar at h
  split at h <;> split at h <;> grind

theorem escapeChar_ne_quot (c : Char) : escapeChar c ++ r ≠ "&quot;".toList ++ s := by
  unfold escapeChar
  split <;> simp_all

theorem escapeValueChar_unique {a b : Char} (h : escapeValueChar a ++ r = escapeValueChar b ++ s) :
    a = b ∧ r = s := by
  unfold escapeValueChar at h
  split at h <;> split at h
  · simpa using h
  · exact absurd h.symm (escapeChar_ne_quot b)
  · exact absurd h (escapeChar_ne_quot a)
  · exact escapeChar_unique h

theorem not_mem_escapeChar (c : Char) : '<' ∉ escapeChar c := by
  unfold escapeChar
  split <;> simp_all [eq_comm]

theorem not_mem_escapeValueChar (c : Char) : '"' ∉ escapeValueChar c := by
  unfold escapeValueChar
  split
  · simp
  · unfold escapeChar
    split <;> simp_all [eq_comm]

/-! Names, attributes and comments. -/

def attributesMarkup (attributes : Entries String) : List Char :=
  attributes.flatMap fun (name, value) => (attributeText name value).toList

theorem attributesMarkup_cons_append (name value : String) (attributes : Entries String)
    (r : List Char) : attributesMarkup ((name, value) :: attributes) ++ r =
      ' ' :: (name.toList ++ '=' :: '"' ::
        (value.toList.flatMap escapeValueChar ++ '"' :: (attributesMarkup attributes ++ r))) := by
  simp [attributesMarkup, attributeText]

theorem toList_openTag (e : Element) :
    (openTag {} e).toList = '<' :: (e.tag.toList ++ (attributesMarkup e.attributes ++ ['>'])) := by
  rw [openTag_eq_tagWith]
  simp [tagWith, String.toList_join, List.flatMap_map, attributesMarkup, Render.attributes]

theorem value_unique {value value' : String}
    (h : value.toList.flatMap escapeValueChar ++ '"' :: r =
      value'.toList.flatMap escapeValueChar ++ '"' :: s) : value = value' ∧ r = s := by
  have hquoted (value : String) : ∀ c ∈ value.toList.flatMap escapeValueChar, (c != '"') = true := by
    intro c hc
    obtain ⟨a, -, ha⟩ := List.mem_flatMap.1 hc
    exact bne_iff_ne.2 fun heq => not_mem_escapeValueChar a (heq ▸ ha)
  obtain ⟨hvalue, hrest⟩ := run_unique (hquoted value) (hquoted value') (by simp [Stops])
    (by simp [Stops]) h
  have hinj := flatMap_injective escapeValueChar_ne_nil escapeValueChar_unique hvalue
  exact ⟨String.toList_inj.1 hinj, List.cons_inj_right _ |>.1 hrest⟩

theorem attributes_unique {attributes attributes' : Entries String}
    (hplain : ∀ a ∈ attributes, ∀ c ∈ a.1.toList, isAttributeChar c)
    (hplain' : ∀ a ∈ attributes', ∀ c ∈ a.1.toList, isAttributeChar c)
    (h : attributesMarkup attributes ++ '>' :: r = attributesMarkup attributes' ++ '>' :: s) :
    attributes = attributes' ∧ r = s := by
  induction attributes generalizing attributes' with
  | nil => cases attributes' with
    | nil => simpa [attributesMarkup] using h
    | cons a' attributes' => simp [attributesMarkup, attributeText] at h
  | cons a attributes ih => cases attributes' with
    | nil => simp [attributesMarkup, attributeText] at h
    | cons a' attributes' =>
      obtain ⟨name, value⟩ := a
      obtain ⟨name', value'⟩ := a'
      obtain ⟨hname, hbelow⟩ := List.forall_mem_cons.1 hplain
      obtain ⟨hname', hbelow'⟩ := List.forall_mem_cons.1 hplain'
      rw [attributesMarkup_cons_append, attributesMarkup_cons_append, List.cons_inj_right] at h
      obtain ⟨hnames, hvalues⟩ := run_unique hname hname' (by simp [Stops, isAttributeChar])
        (by simp [Stops, isAttributeChar]) h
      rw [List.cons_inj_right, List.cons_inj_right] at hvalues
      obtain ⟨rfl, hrest⟩ := value_unique hvalues
      obtain ⟨rfl, hend⟩ := ih hbelow hbelow' hrest
      exact ⟨congrArg (fun name => (name, value) :: attributes) (String.toList_inj.1 hnames), hend⟩

theorem openTag_unique {e e' : Element} (htag : ∀ c ∈ e.tag.toList, c.isAlphanum)
    (htag' : ∀ c ∈ e'.tag.toList, c.isAlphanum)
    (hnames : ∀ a ∈ e.attributes, ∀ c ∈ a.1.toList, isAttributeChar c)
    (hnames' : ∀ a ∈ e'.attributes, ∀ c ∈ a.1.toList, isAttributeChar c)
    (h : (openTag {} e).toList ++ r = (openTag {} e').toList ++ s) :
    e.tag = e'.tag ∧ e.attributes = e'.attributes ∧ r = s := by
  have hstop (attributes : Entries String) (r : List Char) :
      Stops Char.isAlphanum (attributesMarkup attributes ++ '>' :: r) := by
    cases attributes <;> simp [Stops, attributesMarkup, attributeText]
  simp only [toList_openTag, List.cons_append, List.append_assoc, List.nil_append,
    List.cons_inj_right] at h
  obtain ⟨htags, h⟩ := run_unique htag htag' (hstop e.attributes r) (hstop e'.attributes s) h
  obtain ⟨hattributes, h⟩ := attributes_unique hnames hnames' h
  exact ⟨String.toList_inj.1 htags, hattributes, h⟩

theorem eq_nil_of_endMark (hx : ¬ "-->".toList <:+: x)
    (h : "-->".toList ++ r = x ++ ("-->".toList ++ s)) : x = [] := by
  match x, hx, h with
  | [], _, _ => rfl
  | [_], _, h => simp at h
  | [_, _], _, h => simp at h
  | a :: b :: c :: x, hx, h =>
    obtain ⟨rfl, rfl, rfl, -⟩ : '-' = a ∧ '-' = b ∧ '>' = c ∧ r = x ++ ("-->".toList ++ s) := by
      simpa using h
    exact absurd (List.prefix_append "-->".toList x).isInfix hx

/-- The first end mark closes a comment. -/
theorem comment_unique (hx : ¬ "-->".toList <:+: x) (hy : ¬ "-->".toList <:+: y)
    (h : x ++ ("-->".toList ++ r) = y ++ ("-->".toList ++ s)) : x = y ∧ r = s := by
  have hxy : x = y := by
    rcases List.append_eq_append_iff.1 h with ⟨z, rfl, hz⟩ | ⟨z, rfl, hz⟩
    · have hnil := eq_nil_of_endMark (fun hin => hy (hin.trans (List.suffix_append x z).isInfix)) hz
      rw [hnil, List.append_nil]
    · have hnil := eq_nil_of_endMark (fun hin => hx (hin.trans (List.suffix_append y z).isInfix)) hz
      rw [hnil, List.append_nil]
  subst hxy
  exact ⟨rfl, List.append_cancel_left (List.append_cancel_left h)⟩

end Readable
end DomQuery
