import DomQuery.Proofs.Selector.Lexing

/-!
Reading a text asks for the selectors in shorter texts only, so the bound on the depth of `:not` can
be forgotten: the reader calls itself.
-/
namespace DomQuery.Selector
open Text

variable {inner inner' : List Char → Except Fault Selector} {fresh doubleColon bareSigil : Bool}
  {cs more name text argument piece : List Char} {l : Lexeme} {ls : List Lexeme}
  {parts : Compound} {n : Nesting} {depth depth' : Nat}

/-! Arguments are shorter than the text they stand in. -/

theorem length_argument_lt (doubleColon : Bool) (name argument : List Char) :
    argument.length < (pseudoText doubleColon name (some argument)).length := by
  simp only [pseudoText, List.length_append, List.length_cons]
  omega

theorem Takes.length_argument (h : Takes fresh text (.pseudo doubleColon name (some argument)) more) :
    argument.length < text.length := by
  cases h with
  | call => exact length_argument_lt doubleColon name argument

theorem length_argument_lexemes (h : .pseudo doubleColon name (some argument) ∈ lexemes fresh cs) :
    argument.length < cs.length := by
  induction hlength : cs.length using Nat.strongRecOn generalizing cs fresh with
  | ind k ih =>
    by_cases hcs : cs = []
    · rw [hcs, lexemes] at h
      exact absurd h List.not_mem_nil
    obtain ⟨text, l, more, rfl, hlt, htakes, hlexemes⟩ := exists_takes_lexemes fresh hcs
    rw [hlexemes] at h
    cases List.mem_cons.1 h with
    | inl heq =>
      subst heq
      have hargument := htakes.length_argument
      rw [List.length_append] at hlength
      omega
    | inr h =>
      have hargument := ih more.length (hlength ▸ hlt) h rfl
      omega

theorem length_trim_le (cs : List Char) : (trim cs).length ≤ cs.length := by
  have hleft := (List.dropWhile_sublist isBlank (l := cs)).length_le
  have hright := (List.dropWhile_sublist isBlank (l := (trimLeft cs).reverse)).length_le
  simp only [List.length_reverse] at hright
  simp only [trim, trimRight, List.length_reverse]
  exact Nat.le_trans hright hleft

theorem length_le_of_mem_addToFirst {pieces : List (List Char)} {bound : Nat}
    (hpieces : ∀ piece ∈ pieces, piece.length ≤ bound) (h : piece ∈ addToFirst text pieces) :
    piece.length ≤ text.length + bound := by
  cases pieces with
  | nil =>
    rw [addToFirst, List.mem_singleton] at h
    rw [h]
    omega
  | cons first pieces =>
    rw [addToFirst] at h
    cases List.mem_cons.1 h with
    | inl heq =>
      subst heq
      have hfirst := hpieces first List.mem_cons_self
      rw [List.length_append]
      omega
    | inr h =>
      have hpiece := hpieces piece (List.mem_cons_of_mem _ h)
      omega

theorem length_le_of_mem_splitOuter (h : piece ∈ splitOuter n cs) : piece.length ≤ cs.length := by
  fun_induction splitOuter n cs generalizing piece with
  | case1 => simp_all
  | case2 => simp_all
  | case3 n c rest ih =>
    have hlength := length_le_of_mem_addToFirst (fun piece => ih) h
    simp only [List.length_cons, List.length_nil] at hlength ⊢
    omega
  | case4 n c rest _ _ _ ih =>
    cases List.mem_cons.1 h with
    | inl heq =>
      subst heq
      exact Nat.zero_le _
    | inr h => exact Nat.le_succ_of_le (ih h)
  | case5 n c rest _ _ _ ih =>
    have hlength := length_le_of_mem_addToFirst (fun piece => ih) h
    simp only [List.length_cons, List.length_nil] at hlength ⊢
    omega

/-! Two readers of arguments that agree on shorter texts. -/

theorem pseudoPart_congr {argument : Option (List Char)}
    (h : ∀ text, argument = some text → inner text = inner' text) :
    pseudoPart inner doubleColon name argument = pseudoPart inner' doubleColon name argument := by
  cases argument with
  | none => rfl
  | some text => simp only [pseudoPart, withArgument?, h text rfl]

theorem items_congr (h : ∀ doubleColon name argument,
      .pseudo doubleColon name (some argument) ∈ ls → inner argument = inner' argument) :
    items inner parts bareSigil ls = items inner' parts bareSigil ls := by
  induction ls generalizing parts bareSigil with
  | nil => rfl
  | cons l ls ih =>
    have htail (parts : Compound) (bareSigil : Bool) :
        items inner parts bareSigil ls = items inner' parts bareSigil ls :=
      ih fun doubleColon name argument hmem =>
        h doubleColon name argument (List.mem_cons_of_mem l hmem)
    cases l with
    | pseudo doubleColon name argument =>
      have hpart : pseudoPart inner doubleColon name argument =
          pseudoPart inner' doubleColon name argument := by
        apply pseudoPart_congr
        rintro text rfl
        exact h doubleColon name text List.mem_cons_self
      simp only [items, hpart, htail]
    | _ => simp only [items, htail]

theorem readChain_congr (h : ∀ argument, argument.length < cs.length → inner argument = inner' argument) :
    readChain inner cs = readChain inner' cs := by
  have hitems : items inner [] false (lexemes true cs) = items inner' [] false (lexemes true cs) :=
    items_congr fun _ _ argument hmem => h argument (length_argument_lexemes hmem)
  rw [readChain, readChain, hitems]

/-- The texts of the chains: what stands between the outer commas, unless it is blank. -/
def chainTexts (text : List Char) : List (List Char) :=
  ((splitOuter {} text).map trim).filter (!·.isEmpty)

theorem length_le_of_mem_chainTexts (h : piece ∈ chainTexts text) : piece.length ≤ text.length := by
  obtain ⟨piece, hpiece, rfl⟩ := List.mem_map.1 (List.mem_filter.1 h).1
  exact Nat.le_trans (length_trim_le piece) (length_le_of_mem_splitOuter hpiece)

theorem readWith_congr
    (h : ∀ argument, argument.length < text.length → inner argument = inner' argument) :
    readWith inner text = readWith inner' text := by
  have hchain : ∀ piece ∈ chainTexts text, readChain inner piece = readChain inner' piece := by
    intro piece hpiece
    apply readChain_congr
    intro argument hlength
    exact h argument (Nat.lt_of_lt_of_le hlength (length_le_of_mem_chainTexts hpiece))
  have hmapM (pieces : List (List Char))
      (hpieces : ∀ piece ∈ pieces, readChain inner piece = readChain inner' piece) :
      pieces.mapM (readChain inner) = pieces.mapM (readChain inner') := by
    induction pieces with
    | nil => rfl
    | cons piece pieces ih =>
      rw [List.mapM_cons, List.mapM_cons, hpieces piece List.mem_cons_self,
        ih fun piece hpiece => hpieces piece (List.mem_cons_of_mem _ hpiece)]
  exact hmapM _ hchain

/-- All depths that are large enough give the same result. -/
theorem readWithin_eq_readWithin (h : text.length < depth) (h' : text.length < depth') :
    readWithin depth text = readWithin depth' text := by
  induction depth generalizing text depth' with
  | zero => exact absurd h (Nat.not_lt_zero _)
  | succ depth ih =>
    cases depth' with
    | zero => exact absurd h' (Nat.not_lt_zero _)
    | succ depth' =>
      apply readWith_congr
      intro argument hlength
      exact ih (Nat.lt_of_lt_of_le hlength (Nat.le_of_lt_succ h))
        (Nat.lt_of_lt_of_le hlength (Nat.le_of_lt_succ h'))

theorem read_eq_readWith (text : List Char) : read text = readWith read text := by
  apply readWith_congr
  intro argument hlength
  exact readWithin_eq_readWithin hlength (Nat.lt_succ_self _)

theorem read_eq (text : List Char) : read text = (chainTexts text).mapM (readChain read) :=
  read_eq_readWith text

end DomQuery.Selector
