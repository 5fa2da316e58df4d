import DomQuery.Collection.Traversal
import DomQuery.Proofs.Distinct
import Mathlib

/-!
Indices. A slice lies between two bounds, each given by an index that may be negative or too large, and a
single node is found by an index of the same kind. The two are computed on machine words in different ways.
Nothing overflows in either, no position is out of range, and they agree. A collection lists no node twice,
however it is made (`nodup_distinct`), and its length is a word: no more is asked of it.
-/
namespace DomQuery.Collection
variable {c : Collection} {nodes : List NodeId} {length lo hi w : Nat} {i : Int}

/-- The bound that an index stands for: a negative one counts from the end, and no end is passed. -/
def bound (length i : Int) : Int := if i < 0 then max (length + i) 0 else min i length

/-- The nodes at the positions from `lo` up to the one before `hi`, in order. -/
def between (nodes : List NodeId) (lo hi : Int) : List NodeId :=
  (nodes.zipIdx.filter fun entry => lo ≤ entry.2 ∧ entry.2 < hi).map (·.1)

def nodeAt (nodes : List NodeId) (position : Int) : List NodeId :=
  if position < 0 then [] else nodes[position.toNat]?.toList

/-! The computations on words. There is no answer where a sum is no word or a position is out of range. -/

def sum? (a b : BitVec w) : Option (BitVec w) := if a.saddOverflow b then none else some (a + b)

/-- The bound of a slice, an unsigned word. What is taken from the length is the index without its sign, and
the difference stops at zero. -/
def boundWord (length index : BitVec w) : BitVec w :=
  if index.slt 0#w then if index.abs ≤ length then length - index.abs else 0#w
  else if index ≤ length then index else length

def range? (nodes : List NodeId) (first last : Nat) : Option (List NodeId) :=
  if first ≤ last ∧ last ≤ nodes.length then some ((nodes.take last).drop first) else none

def sliceOnWords? (nodes : List NodeId) (start : BitVec w) (stop : Option (BitVec w)) :
    Option (List NodeId) :=
  let length := BitVec.ofNat w nodes.length
  let first := boundWord length start
  let last := (stop.map (boundWord length)).getD length
  if first < last then range? nodes first.toNat last.toNat else some []

/-- The index is a signed word throughout, and a test against the length goes before the access. -/
def eqOnWords? (nodes : List NodeId) (index : BitVec w) : Option (List NodeId) := do
  let length := BitVec.ofNat w nodes.length
  let index ← if index.slt 0#w then sum? length index else some index
  if BitVec.sle 0#w index && index.slt length then (nodes[index.toNat]?).map ([·]) else some []

/-! Bounds. -/

theorem resolveIndex_of_neg (h : i < 0) : resolveIndex length i = length - i.natAbs := if_pos h

theorem resolveIndex_of_nonneg (h : 0 ≤ i) : resolveIndex length i = min i.toNat length :=
  if_neg (Int.not_lt.2 h)

theorem resolveIndex_le (length : Nat) (i : Int) : resolveIndex length i ≤ length := by
  rcases Int.lt_or_le i 0 with h | h
  · rw [resolveIndex_of_neg h]
    exact Nat.sub_le ..
  · rw [resolveIndex_of_nonneg h]
    exact Nat.min_le_right ..

theorem resolveIndex_eq (length : Nat) (i : Int) : (resolveIndex length i : Int) = bound length i := by
  rcases Int.lt_or_le i 0 with h | h
  · rw [resolveIndex_of_neg h, bound, if_pos h]
    omega
  · rw [resolveIndex_of_nonneg h, bound, if_neg (Int.not_lt.2 h)]
    omega

theorem getD_resolveIndex_eq (length : Nat) (stop : Option Int) :
    (((stop.map (resolveIndex length)).getD length : Nat) : Int) = (stop.map (bound length)).getD length := by
  cases stop with
  | none => rfl
  | some i => exact resolveIndex_eq length i

/-! Slices. -/

theorem between_from (nodes : List NodeId) (first lo hi : Nat) :
    ((nodes.zipIdx first).filter fun entry => (lo : Int) ≤ entry.2 ∧ (entry.2 : Int) < hi).map (·.1) =
      (nodes.take (hi - first)).drop (lo - first) := by
  induction nodes generalizing first with
  | nil => simp
  | cons n rest ih =>
    rw [List.zipIdx_cons]
    by_cases hhi : first < hi
    · have hmore : hi - first = hi - (first + 1) + 1 := by omega
      rw [hmore, List.take_succ_cons]
      by_cases hlo : lo ≤ first
      · -- the first node is in the slice
        have hnone : lo - first = 0 ∧ lo - (first + 1) = 0 := by omega
        rw [List.filter_cons_of_pos (by simp [hlo, hhi]), List.map_cons, ih, hnone.1, hnone.2]
        rfl
      · have hskip : lo - first = lo - (first + 1) + 1 := by omega
        rw [List.filter_cons_of_neg (by simp [hlo]), ih, hskip, List.drop_succ_cons]
    · have hnone : hi - first = 0 ∧ hi - (first + 1) = 0 := by omega
      rw [List.filter_cons_of_neg (by simp [hhi]), ih, hnone.1, hnone.2]
      simp

theorem between_eq (nodes : List NodeId) (lo hi : Nat) :
    between nodes lo hi = (nodes.take hi).drop lo := between_from nodes 0 lo hi

theorem nodes_slice (h : c.nodes.Nodup) (start : Int) (stop : Option Int) :
    (c.slice start stop).nodes =
      (c.nodes.take ((stop.map (resolveIndex c.nodes.length)).getD c.nodes.length)).drop
        (resolveIndex c.nodes.length start) :=
  distinct_of_nodup (h.sublist ((List.drop_sublist ..).trans (List.take_sublist ..)))

theorem nodes_slice_eq_between (h : c.nodes.Nodup) (start : Int) (stop : Option Int) :
    (c.slice start stop).nodes = between c.nodes (bound c.nodes.length start)
      ((stop.map (bound c.nodes.length)).getD c.nodes.length) := by
  rw [nodes_slice h, ← between_eq, resolveIndex_eq, getD_resolveIndex_eq]

theorem slice_append_slice (h : c.nodes.Nodup) (i : Int) :
    (c.slice 0 (some i)).nodes ++ (c.slice i none).nodes = c.nodes := by
  have hstart : resolveIndex c.nodes.length 0 = 0 := resolveIndex_of_nonneg (Int.le_refl 0)
  rw [nodes_slice h, nodes_slice h, hstart]
  simp

/-! Single nodes. -/

theorem distinct_nodeAt (nodes : List NodeId) (position : Int) :
    distinct (nodeAt nodes position) = nodeAt nodes position := by
  rw [nodeAt]
  split
  · rfl
  · cases nodes[position.toNat]? <;> rfl

theorem eq_of_neg (h : i < 0) : c.eq i = c.derive (nodeAt c.nodes (c.nodes.length + i)) := by
  rw [eq, if_pos h]
  rfl

theorem eq_of_nonneg (h : 0 ≤ i) : c.eq i = c.derive (nodeAt c.nodes i) := by
  rw [eq, if_neg (Int.not_lt.2 h)]
  rfl

theorem drop_take_succ (nodes : List NodeId) (n : Nat) :
    (nodes.take (n + 1)).drop n = nodes[n]?.toList := by
  rw [List.drop_take, Nat.add_sub_cancel_left, List.take_one, List.head?_drop]

theorem nodeAt_eq_drop_take {index : Int} (h : (index < 0 ∨ nodes.length ≤ index) ∧ hi ≤ lo ∨
    index = lo ∧ hi = lo + 1) :
    nodeAt nodes index = (nodes.take hi).drop lo := by
  rw [nodeAt]
  rcases h with ⟨hout, hempty⟩ | ⟨rfl, rfl⟩
  · have hnone : (nodes.take hi).drop lo = [] := by
      rw [List.drop_take, Nat.sub_eq_zero_of_le hempty, List.take_zero]
    rw [hnone]
    split
    · rfl
    · rw [List.getElem?_eq_none (by omega)]
      rfl
  · rw [if_neg (by omega), Int.toNat_natCast, drop_take_succ]

theorem eq_eq_slice {stop : Option Int} (hstop : stop = some (i + 1) ∧ i ≠ -1 ∨ stop = none ∧ i = -1) :
    c.eq i = c.slice i stop := by
  rcases hstop with ⟨rfl, hlast⟩ | ⟨rfl, rfl⟩
  · rcases Int.lt_or_le i 0 with h | h
    · rw [eq_of_neg h, slice, nodeAt_eq_drop_take]
      rw [Option.map_some, Option.getD_some, resolveIndex_of_neg h, resolveIndex_of_neg (by omega)]
      omega
    · rw [eq_of_nonneg h, slice, nodeAt_eq_drop_take]
      rw [Option.map_some, Option.getD_some, resolveIndex_of_nonneg h, resolveIndex_of_nonneg (by omega)]
      omega
  · rw [eq_of_neg (by decide), slice, nodeAt_eq_drop_take]
    rw [Option.map_none, Option.getD_none, resolveIndex_of_neg (by decide)]
    omega

/-! The computations on words. -/

section Words
variable {index : BitVec w}

theorem toNat_ofNat (h : 2 * length < 2 ^ w) : (BitVec.ofNat w length).toNat = length := by
  rw [BitVec.toNat_ofNat, Nat.mod_eq_of_lt (by omega)]

theorem toInt_ofNat (h : 2 * length < 2 ^ w) : (BitVec.ofNat w length).toInt = length := by
  rw [BitVec.toInt_eq_toNat_of_lt (by rwa [toNat_ofNat h]), toNat_ofNat h]

/-- The least word has no opposite that is signed, but it has one that is unsigned. -/
theorem toNat_abs_of_neg (h : index.toInt < 0) : index.abs.toNat = index.toInt.natAbs := by
  have hlt := index.isLt
  rw [BitVec.toInt_eq_msb_cond] at h ⊢
  rw [BitVec.toNat_abs]
  split at h <;> split <;> omega

theorem toNat_of_nonneg (h : 0 ≤ index.toInt) : index.toNat = index.toInt.toNat := by
  have hle : BitVec.sle 0#w index := BitVec.sle_iff_toInt_le.2 (by rwa [BitVec.toInt_zero])
  exact (BitVec.toNat_toInt_of_sle hle).symm

theorem slt_zero_iff : index.slt 0#w ↔ index.toInt < 0 := by
  rw [BitVec.slt_iff_toInt_lt, BitVec.toInt_zero]

theorem toNat_boundWord (h : 2 * length < 2 ^ w) (index : BitVec w) :
    (boundWord (BitVec.ofNat w length) index).toNat = resolveIndex length index.toInt := by
  rcases Int.lt_or_le index.toInt 0 with hneg | hpos
  · have habs := toNat_abs_of_neg hneg
    rw [boundWord, if_pos (slt_zero_iff.2 hneg), resolveIndex_of_neg hneg]
    split
    · rename_i hle
      rw [BitVec.toNat_sub_of_le hle, toNat_ofNat h, habs]
    · rename_i hgt
      rw [BitVec.le_def, toNat_ofNat h, habs] at hgt
      rw [BitVec.toNat_zero]
      omega
  · have hindex := toNat_of_nonneg hpos
    rw [boundWord, if_neg (slt_zero_iff.not.2 (Int.not_lt.2 hpos)), resolveIndex_of_nonneg hpos]
    split
    · rename_i hle
      rw [BitVec.le_def, toNat_ofNat h, hindex] at hle
      omega
    · rename_i hgt
      rw [BitVec.le_def, toNat_ofNat h, hindex] at hgt
      rw [toNat_ofNat h]
      omega

theorem toNat_getD_boundWord (h : 2 * length < 2 ^ w) (stop : Option (BitVec w)) :
    ((stop.map (boundWord (BitVec.ofNat w length))).getD (BitVec.ofNat w length)).toNat =
      ((stop.map BitVec.toInt).map (resolveIndex length)).getD length := by
  cases stop with
  | none => exact toNat_ofNat h
  | some index => exact toNat_boundWord h index

theorem sliceOnWords?_eq (hnodes : c.nodes.Nodup) (h : 2 * c.nodes.length < 2 ^ w) (start : BitVec w)
    (stop : Option (BitVec w)) :
    sliceOnWords? c.nodes start stop = some (c.slice start.toInt (stop.map BitVec.toInt)).nodes := by
  have hlast : ((stop.map BitVec.toInt).map (resolveIndex c.nodes.length)).getD c.nodes.length ≤
      c.nodes.length := by
    cases stop with
    | none => exact Nat.le_refl _
    | some index => exact resolveIndex_le ..
  rw [nodes_slice hnodes, sliceOnWords?]
  simp only [BitVec.lt_def, toNat_boundWord h, toNat_getD_boundWord h]
  split
  · rename_i hlt
    exact if_pos ⟨Nat.le_of_lt hlt, hlast⟩
  · rename_i hge
    rw [List.drop_take, Nat.sub_eq_zero_of_le (Nat.le_of_not_lt hge), List.take_zero]

theorem sum?_eq_some {length : BitVec w} (hlength : 0 ≤ length.toInt) (h : index.toInt < 0) :
    ∃ sum, sum? length index = some sum ∧ sum.toInt = length.toInt + index.toInt := by
  have hsum : ¬ length.saddOverflow index := by
    have hhigh := length.toInt_lt
    have hlow := index.le_toInt
    simp only [BitVec.saddOverflow, Bool.or_eq_true, decide_eq_true_eq]
    omega
  exact ⟨_, if_neg hsum, BitVec.toInt_add_of_not_saddOverflow hsum⟩

theorem nodeAt_eq_getElem? (h : 2 * nodes.length < 2 ^ w) (index : BitVec w) :
    (if BitVec.sle 0#w index && index.slt (BitVec.ofNat w nodes.length) then
      (nodes[index.toNat]?).map ([·]) else some []) =
      some (nodeAt nodes index.toInt) := by
  rw [BitVec.sle_eq_decide, BitVec.slt_eq_decide, BitVec.toInt_zero, toInt_ofNat h]
  rcases Int.lt_or_le index.toInt 0 with hneg | hpos
  · have hout : ¬ 0 ≤ index.toInt := Int.not_le.2 hneg
    rw [nodeAt, if_pos hneg, if_neg (by simp [hout])]
  · rw [nodeAt, if_neg (Int.not_lt.2 hpos), toNat_of_nonneg hpos]
    split
    · rename_i hin
      have hlt : index.toInt.toNat < nodes.length := by
        simp only [Bool.and_eq_true, decide_eq_true_eq] at hin
        omega
      rw [List.getElem?_eq_getElem hlt]
      rfl
    · rename_i hout
      rw [List.getElem?_eq_none]
      · rfl
      · simp only [Bool.and_eq_true, decide_eq_true_eq, hpos, true_and] at hout
        omega

theorem eqOnWords?_eq (h : 2 * c.nodes.length < 2 ^ w) (index : BitVec w) :
    eqOnWords? c.nodes index = some (c.eq index.toInt).nodes := by
  rcases Int.lt_or_le index.toInt 0 with hneg | hpos
  · have hlength := toInt_ofNat h
    obtain ⟨sum, hsum, hvalue⟩ := sum?_eq_some (hlength ▸ Int.natCast_nonneg _) hneg
    rw [eqOnWords?, if_pos (slt_zero_iff.2 hneg), hsum]
    refine (nodeAt_eq_getElem? h sum).trans ?_
    rw [eq_of_neg hneg, nodes_derive, distinct_nodeAt, hvalue, hlength]
  · rw [eqOnWords?, if_neg (slt_zero_iff.not.2 (Int.not_lt.2 hpos))]
    refine (nodeAt_eq_getElem? h index).trans ?_
    rw [eq_of_nonneg hpos, nodes_derive, distinct_nodeAt]

theorem toInt_add_one (hmax : index ≠ BitVec.intMax w) : (index + 1#w).toInt = index.toInt + 1 := by
  have hne : index.toInt ≠ 2 ^ (w - 1) - 1 := fun heq =>
    hmax (BitVec.toInt_inj.1 (heq.trans BitVec.toInt_intMax.symm))
  have hhigh := index.toInt_lt
  have hlow := index.le_toInt
  have hpos : 0 < w := by
    refine Nat.pos_of_ne_zero fun hzero => hne ?_
    subst hzero
    rw [BitVec.toInt_of_zero_length rfl]
    rfl
  have hnext : index + 1#w = BitVec.ofInt w (index.toInt + 1) := by
    rw [BitVec.ofInt_add, BitVec.ofInt_toInt]
    rfl
  rw [hnext, BitVec.toInt_ofInt_eq_self hpos (by omega) (by omega)]

end Words

/-- Slices and single nodes follow their indices. On words of any size that can hold the length, a slice and
a single node are what the computations on words say, which have an answer throughout; a slice holds the
nodes between its two bounds, in order; any index cuts a collection in two; and the node at an index is
the slice from there to the next index, or to the end behind the last node. -/
theorem indices_agree (c : Collection) (w : Nat) (hnodes : c.nodes.Nodup)
    (hlength : 2 * c.nodes.length < 2 ^ w) :
    (∀ (start : BitVec w) (stop : Option (BitVec w)),
      sliceOnWords? c.nodes start stop = some (c.slice start.toInt (stop.map BitVec.toInt)).nodes ∧
      (c.slice start.toInt (stop.map BitVec.toInt)).nodes =
        between c.nodes (bound c.nodes.length start.toInt)
          ((stop.map fun index => bound c.nodes.length index.toInt).getD c.nodes.length)) ∧
    (∀ index : BitVec w,
      (c.slice 0 (some index.toInt)).nodes ++ (c.slice index.toInt none).nodes = c.nodes) ∧
    (∀ index : BitVec w, eqOnWords? c.nodes index = some (c.eq index.toInt).nodes ∧
      (index.toInt ≠ -1 → index ≠ BitVec.intMax w →
        c.eq index.toInt = c.slice index.toInt (some (index + 1#w).toInt))) ∧
    c.eq (-1) = c.slice (-1) none := by
  refine ⟨fun start stop => ⟨sliceOnWords?_eq hnodes hlength start stop, ?_⟩,
    fun index => slice_append_slice hnodes index.toInt,
    fun index => ⟨eqOnWords?_eq hlength index, fun hlast hmax => ?_⟩, eq_eq_slice (.inr ⟨rfl, rfl⟩)⟩
  · rw [nodes_slice_eq_between hnodes, Option.map_map]
    rfl
  · rw [toInt_add_one hmax]
    exact eq_eq_slice (.inl ⟨rfl, hlast⟩)

/-- The least and the greatest word of 64 bits. -/
theorem indices_agree_extremes :
    let c := ofNodes 0 [4, 2, 7, 4]
    let least := BitVec.intMin 64
    let greatest := BitVec.intMax 64
    c.nodes.Nodup ∧ 2 * c.nodes.length < 2 ^ 64 ∧
      sliceOnWords? c.nodes least (some greatest) = some [4, 2, 7] ∧
      (c.slice greatest.toInt (some least.toInt)).nodes = [] ∧
      eqOnWords? c.nodes least = some [] ∧ eqOnWords? c.nodes (-3#64) = some [4] ∧
      c.eq least.toInt = c.slice least.toInt (some (least + 1).toInt) := by
  intro c least greatest
  have hnodes : c.nodes.Nodup := nodup_distinct
  have hlength : 2 * c.nodes.length < 2 ^ 64 := by decide
  obtain ⟨hslice, -, heq, -⟩ := indices_agree c 64 hnodes hlength
  refine ⟨hnodes, hlength, ?_, ?_, ?_, ?_, (heq least).2 (by decide) (by decide)⟩
  · rw [(hslice least (some greatest)).1]
    decide
  · exact ((hslice greatest (some least)).2).trans (by decide)
  · rw [(heq least).1]
    decide
  · rw [(heq (-3#64)).1]
    decide

end DomQuery.Collection
