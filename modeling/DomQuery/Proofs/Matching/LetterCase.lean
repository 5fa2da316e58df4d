import DomQuery.Proofs.Matching.Positions
import Mathlib

/-!
Letter case. Two names are the same but for their case if and only if their lower-case forms are equal. The
comparison of ASCII texts letter by letter says the same as the lower-case forms, so the relation is an
equivalence also where some names are ASCII and others are not. Class names are looked up up to it, and it
sorts the elements of a list into types.
-/
namespace DomQuery
namespace Text
variable {a b s : String} {c : Char} {cs before : List Char}

/-! ASCII. -/

theorem forall_ascii {P : Char → Prop} (h : ∀ n : Fin 128, P (Char.ofNat n)) (hc : c.toNat < 128) : P c :=
  Char.ofNat_toNat c ▸ h ⟨c.toNat, hc⟩

theorem isAscii_iff : isAscii s ↔ ∀ c ∈ s.toList, c.toNat < 128 := by
  simp [isAscii]

theorem toLower_cases (c : Char) :
    c.toLower = c ∨ ∃ n : Fin 26, c.toLower = Char.ofNat (n + 97) ∧ c = Char.ofNat (n + 65) := by
  by_cases hc : c.toNat < 128
  · refine forall_ascii (P := fun c => c.toLower = c ∨
      ∃ n : Fin 26, c.toLower = Char.ofNat (n + 97) ∧ c = Char.ofNat (n + 65)) ?_ hc
    decide +kernel
  · left
    rw [Char.toLower, dif_neg]
    rintro ⟨-, hz⟩
    exact hc (Nat.lt_of_le_of_lt (UInt32.le_iff_toNat_le.1 hz) (by decide))

/-- What is the same for both cases of each letter does not depend on the case. -/
theorem apply_toLower {α : Type} {f : Char → α}
    (h : ∀ n : Fin 26, f (Char.ofNat (n + 97)) = f (Char.ofNat (n + 65))) (c : Char) : f c.toLower = f c := by
  rcases toLower_cases c with hc | ⟨n, hlower, rfl⟩
  · rw [hc]
  · rw [hlower, h]

namespace Lowercase

theorem lowered_of_ascii (h : ∀ c ∈ cs, c.toNat < 128) : lowered before cs = cs.map Char.toLower := by
  induction cs generalizing before with
  | nil => rfl
  | cons c rest ih =>
    obtain ⟨hc, hrest⟩ := List.forall_mem_cons.1 h
    have hsigma : ¬ (c == 'Σ') := forall_ascii (P := fun c => ¬ (c == 'Σ')) (by decide) hc
    rw [lowered, if_neg hsigma, simple, if_pos hc, ih hrest]
    rfl

/-! Changing the case of ASCII letters. -/

theorem inRanges_casedRanges_toLower (c : Char) : inRanges casedRanges c.toLower = inRanges casedRanges c :=
  apply_toLower (f := inRanges casedRanges) (by decide +kernel) c

theorem inRanges_ignorableRanges_toLower (c : Char) :
    inRanges ignorableRanges c.toLower = inRanges ignorableRanges c :=
  apply_toLower (f := inRanges ignorableRanges) (by decide +kernel) c

theorem facesCased_cons (c : Char) (rest : List Char) : facesCased (c :: rest) =
    if inRanges ignorableRanges c then facesCased rest else inRanges casedRanges c := by
  by_cases hc : inRanges ignorableRanges c <;> simp [facesCased, hc]

theorem facesCased_map_toLower (cs : List Char) : facesCased (cs.map Char.toLower) = facesCased cs := by
  induction cs with
  | nil => rfl
  | cons c rest ih =>
    rw [List.map_cons, facesCased_cons, facesCased_cons, ih, inRanges_casedRanges_toLower,
      inRanges_ignorableRanges_toLower]

theorem simple_toLower (c : Char) : simple c.toLower = simple c :=
  apply_toLower (f := simple) (by decide +kernel) c

theorem toLower_beq_sigma (c : Char) : (c.toLower == 'Σ') = (c == 'Σ') :=
  apply_toLower (f := (· == 'Σ')) (by decide) c

theorem lowered_map_toLower (before cs : List Char) :
    lowered (before.map Char.toLower) (cs.map Char.toLower) = lowered before cs := by
  induction cs generalizing before with
  | nil => rfl
  | cons c rest ih =>
    rw [List.map_cons, lowered, lowered, ← List.map_cons, ih, facesCased_map_toLower,
      facesCased_map_toLower, simple_toLower, toLower_beq_sigma]

end Lowercase

theorem lowercase_of_isAscii (h : isAscii s) : lowercase s = asciiLowercase s := by
  rw [lowercase, Lowercase.lowered_of_ascii (isAscii_iff.1 h), asciiLowercase]

theorem lowercase_asciiLowercase (s : String) : lowercase (asciiLowercase s) = lowercase s := by
  rw [lowercase, lowercase, asciiLowercase, String.toList_ofList]
  exact congrArg String.ofList (Lowercase.lowered_map_toLower [] s.toList)

/-! Names that differ at most in case. -/

theorem sameIgnoringCase_iff : sameIgnoringCase a b ↔ lowercase a = lowercase b := by
  rw [sameIgnoringCase]
  split
  · rename_i hascii
    obtain ⟨ha, hb⟩ := Bool.and_eq_true_iff.1 hascii
    rw [beq_iff_eq, lowercase_of_isAscii ha, lowercase_of_isAscii hb]
  · exact beq_iff_eq

theorem equivalence_sameIgnoringCase : Equivalence fun a b => sameIgnoringCase a b = true where
  refl _ := sameIgnoringCase_iff.2 rfl
  symm h := sameIgnoringCase_iff.2 (sameIgnoringCase_iff.1 h).symm
  trans hab hbc := sameIgnoringCase_iff.2 ((sameIgnoringCase_iff.1 hab).trans (sameIgnoringCase_iff.1 hbc))

theorem sameIgnoringCase_of_asciiLowercase_eq (h : asciiLowercase a = asciiLowercase b) :
    sameIgnoringCase a b := by
  rw [sameIgnoringCase_iff, ← lowercase_asciiLowercase, h, lowercase_asciiLowercase]

end Text

/-! Lists cut into cells of related members. -/

section Cells
variable {α : Type} {related : α → α → Bool} {xs cell : List α} {x y : α}

/-- The members related to each member, in order; equal cells are listed once. -/
def cells [DecidableEq α] (related : α → α → Bool) (xs : List α) : List (List α) :=
  distinct (xs.map fun x => xs.filter (related · x))

theorem mem_cells [DecidableEq α] : cell ∈ cells related xs ↔ ∃ x ∈ xs, xs.filter (related · x) = cell := by
  rw [cells, mem_distinct, List.mem_map]

theorem nodup_cells [DecidableEq α] (related : α → α → Bool) (xs : List α) : (cells related xs).Nodup :=
  nodup_distinct

theorem subset_of_mem_cells [DecidableEq α] (hcell : cell ∈ cells related xs) : cell ⊆ xs := by
  obtain ⟨x, -, rfl⟩ := mem_cells.1 hcell
  exact List.filter_subset_self xs

theorem sum_map_of_nodup [DecidableEq α] {f : α → Nat} (hxs : xs.Nodup) (hx : x ∈ xs)
    (hother : ∀ y ≠ x, y ∈ xs → f y = 0) : (xs.map f).sum = f x := by
  rw [List.sum_map_eq_nsmul_single x f hother, List.count_eq_one_of_mem hxs hx, one_nsmul]

variable (hsymm : ∀ x y, related x y → related y x)
  (htrans : ∀ x y z, related x y → related y z → related x z)
include hsymm htrans

theorem filter_related (h : related x y) : xs.filter (related · x) = xs.filter (related · y) :=
  List.filter_congr fun z _ => Bool.eq_iff_iff.2
    ⟨fun hz => htrans z x y hz h, fun hz => htrans z y x hz (hsymm x y h)⟩

variable [DecidableEq α]

theorem eq_of_mem_cell (hcell : cell ∈ cells related xs) (hx : x ∈ cell) :
    cell = xs.filter (related · x) := by
  obtain ⟨y, -, rfl⟩ := mem_cells.1 hcell
  exact (filter_related hsymm htrans (List.mem_filter.1 hx).2).symm

theorem pairwise_disjoint_cells : (cells related xs).Pairwise List.Disjoint := by
  refine (nodup_cells related xs).imp_of_mem fun {left right} hleft hright hne x hx hx' => hne ?_
  rw [eq_of_mem_cell hsymm htrans hleft hx, eq_of_mem_cell hsymm htrans hright hx']

theorem flatten_cells_perm (hrefl : ∀ x ∈ xs, related x x) : (cells related xs).flatten.Perm xs := by
  refine List.perm_iff_count.2 fun x => ?_
  by_cases hx : x ∈ xs
  · have hown : xs.filter (related · x) ∈ cells related xs := mem_cells.2 ⟨x, hx, rfl⟩
    have hother (cell : List α) (hne : cell ≠ xs.filter (related · x)) (hcell : cell ∈ cells related xs) :
        cell.count x = 0 :=
      List.count_eq_zero.2 fun hx => hne (eq_of_mem_cell hsymm htrans hcell hx)
    rw [List.count_flatten, sum_map_of_nodup (nodup_cells related xs) hown hother,
      List.count_filter (p := (related · x)) (hrefl x hx)]
  · have hnot : x ∉ (cells related xs).flatten := fun hflat => by
      obtain ⟨cell, hcell, hx'⟩ := List.mem_flatten.1 hflat
      exact hx (subset_of_mem_cells hcell hx')
    rw [List.count_eq_zero.2 hnot, List.count_eq_zero.2 hx]

end Cells

/-! Names of classes and of elements. -/

namespace Document
open Text
variable {d : Document} {l m n : NodeId} {list name a b : String} {siblings : List NodeId}

theorem listsClass_iff : listsClass list name ↔ ∃ x ∈ words list, lowercase x = lowercase name := by
  simp only [listsClass, List.any_eq_true, sameIgnoringCase_iff]

theorem listsClass_congr (list : String) (h : sameIgnoringCase a b) : listsClass list a = listsClass list b := by
  rw [Bool.eq_iff_iff, listsClass_iff, listsClass_iff, sameIgnoringCase_iff.1 h]

theorem sameTag_iff : d.sameTag m n ↔
    ∃ s, (d.tag? m).map lowercase = some s ∧ (d.tag? n).map lowercase = some s := by
  rw [sameTag]
  cases d.tag? m with
  | none => simp
  | some s =>
    cases d.tag? n with
    | none => simp
    | some t =>
      simp only [Option.map_some, Option.some.injEq, exists_eq_left', sameIgnoringCase_iff]
      exact eq_comm

theorem isElement_of_sameTag (h : d.sameTag m n) : d.isElement m := by
  obtain ⟨s, hm, -⟩ := sameTag_iff.1 h
  rw [tag?, Option.map_map] at hm
  obtain ⟨e, he, -⟩ := Option.map_eq_some_iff.1 hm
  exact Option.isSome_of_eq_some he

theorem sameTag_symm (h : d.sameTag m n) : d.sameTag n m := by
  obtain ⟨s, hm, hn⟩ := sameTag_iff.1 h
  exact sameTag_iff.2 ⟨s, hn, hm⟩

theorem sameTag_trans (h : d.sameTag l m) (h' : d.sameTag m n) : d.sameTag l n := by
  obtain ⟨s, hl, hm⟩ := sameTag_iff.1 h
  obtain ⟨t, hm', hn⟩ := sameTag_iff.1 h'
  exact sameTag_iff.2 ⟨s, hl, hn.trans (hm'.symm.trans hm)⟩

/-- The elements of a list by their types. -/
def types (d : Document) (siblings : List NodeId) : List (List NodeId) :=
  cells d.sameTag (siblings.filter d.isElement)

/-- The elements of a list are in types: each is in one, and two are in the same one if and only if their
tags differ at most in case. -/
structure InTypes (d : Document) (siblings : List NodeId) (types : List (List NodeId)) : Prop where
  perm : types.flatten.Perm (siblings.filter d.isElement)
  ne_nil : ∀ t ∈ types, t ≠ []
  disjoint : types.Pairwise List.Disjoint
  mem_iff : ∀ t ∈ types, ∀ n ∈ t, ∀ m ∈ siblings, m ∈ t ↔ d.sameTag m n

theorem inTypes_types (d : Document) (siblings : List NodeId) : d.InTypes siblings (d.types siblings) := by
  have hsymm (m n : NodeId) : d.sameTag m n → d.sameTag n m := sameTag_symm
  have htrans (l m n : NodeId) : d.sameTag l m → d.sameTag m n → d.sameTag l n := sameTag_trans
  have hrefl (n : NodeId) (hn : n ∈ siblings.filter d.isElement) : d.sameTag n n :=
    sameTag_self (List.mem_filter.1 hn).2
  refine ⟨flatten_cells_perm hsymm htrans hrefl, fun t ht hnil => ?_, pairwise_disjoint_cells hsymm htrans,
    fun t ht n hn m hm => ?_⟩
  · obtain ⟨n, hn, rfl⟩ := mem_cells.1 ht
    exact List.filter_eq_nil_iff.1 hnil n hn (hrefl n hn)
  · rw [eq_of_mem_cell hsymm htrans ht hn, List.mem_filter, List.mem_filter]
    refine ⟨And.right, fun h => ⟨⟨hm, ?_⟩, h⟩⟩
    exact isElement_of_sameTag h

theorem WellFormed.peers_mem_types (h : d.WellFormed) (hn : d.isElement n) :
    d.peers n .ofType ∈ d.types (d.row n) := by
  have hrow : (d.row n).filter d.isElement = d.row n :=
    List.filter_eq_self.2 fun m hm => ((h.mem_row_iff hn).1 hm).1
  rw [types, hrow]
  exact mem_cells.2 ⟨n, (h.mem_row_iff hn).2 ⟨hn, .inl rfl⟩, rfl⟩

/-- Two names are the same but for their case if and only if their lower-case forms are equal, whichever of
them are ASCII, so this is an equivalence. Names that differ in the case of ASCII letters only are among
those. A list of words names a class if and only if it names any of its case variants, and a list of siblings
is cut into types, those that positions are counted in. -/
theorem letterCase_ignored :
    (∀ a b, sameIgnoringCase a b ↔ lowercase a = lowercase b) ∧
    (Equivalence fun a b => sameIgnoringCase a b = true) ∧
    (∀ a b, asciiLowercase a = asciiLowercase b → sameIgnoringCase a b) ∧
    (∀ list a b, sameIgnoringCase a b → listsClass list a = listsClass list b) ∧
    (∀ (d : Document) (siblings : List NodeId), d.InTypes siblings (d.types siblings)) ∧
    ∀ (d : Document) (n : NodeId), d.WellFormed → d.isElement n → d.peers n .ofType ∈ d.types (d.row n) :=
  ⟨fun _ _ => sameIgnoringCase_iff, equivalence_sameIgnoringCase,
    fun _ _ => sameIgnoringCase_of_asciiLowercase_eq, fun list _ _ => listsClass_congr list, inTypes_types,
    fun _ _ h hn => h.peers_mem_types hn⟩

/-- The Kelvin sign is a letter k that is not ASCII. -/
theorem letterCase_ignored_kelvin :
    let d : Document := { slots := #[
      some { kind := .element { tag := "ul" }, children := [1, 2, 3, 4] },
      some { kind := .element { tag := "\u212a" }, parent := some 0 },
      some { kind := .text "t", parent := some 0 },
      some { kind := .element { tag := "p" }, parent := some 0 },
      some { kind := .element { tag := "k" }, parent := some 0 }] }
    asciiLowercase "Σ\u212aB" = asciiLowercase "Σ\u212ab" ∧ sameIgnoringCase "Σ\u212aB" "Σ\u212ab" ∧
      sameIgnoringCase "\u212a" "K" ∧ listsClass "a k" "\u212a" = listsClass "a k" "K" ∧
      [1, 4] ∈ d.types [1, 2, 3, 4] ∧ (4 ∈ [1, 4] ↔ d.sameTag 4 1) ∧
      d.WellFormed ∧ d.isElement 4 ∧ d.peers 4 .ofType ∈ d.types (d.row 4) := by
  intro d
  obtain ⟨hsame, -, hascii, hclass, htypes, hpeers⟩ := letterCase_ignored
  have hletters : asciiLowercase "Σ\u212aB" = asciiLowercase "Σ\u212ab" := by decide +kernel
  have hkelvin : sameIgnoringCase "\u212a" "K" := (hsame _ _).2 (by decide +kernel)
  have htype : [1, 4] ∈ d.types [1, 2, 3, 4] := by decide +kernel
  have h : d.WellFormed := by decide +kernel
  have hn : d.isElement 4 := by decide +kernel
  exact ⟨hletters, hascii _ _ hletters, hkelvin, hclass _ _ _ hkelvin, htype,
    (htypes d [1, 2, 3, 4]).mem_iff _ htype 1 (by decide) 4 (by decide), h, hn, hpeers d 4 h hn⟩

end Document
end DomQuery
