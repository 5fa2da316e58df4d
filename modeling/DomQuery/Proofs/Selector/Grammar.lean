import Mathlib.Data.List.Forall2
import DomQuery.Proofs.Result
import DomQuery.Proofs.Selector.Reading
import DomQuery.Proofs.Selector.Tree

/-!
The grammar of chains: how the lexemes of a text become compounds and combinators. A derivation of
it is a successful reading.
-/
namespace DomQuery.Selector
open Text

variable {fresh bareSigil : Bool} {cs text more : List Char} {l : Lexeme} {part : Part}
  {parts : Compound} {its : List Item} {chain : Chain}

def Lexeme.Yields : Lexeme → Part → Prop
  | .part part, part' => part = part'
  | .pseudo doubleColon name argument, part => pseudoPart read doubleColon name argument = .ok part
  | _, _ => False

/-- Reading a text to its end, after the parts that the open compound already holds. -/
inductive Scans : (fresh : Bool) → (parts : Compound) → (bareSigil : Bool) → List Char →
    List Item → Prop
  | done {fresh bareSigil : Bool} {parts : Compound} {its : List Item}
    (hend : endCompound parts bareSigil = .ok its) : Scans fresh parts bareSigil [] its
  | blank {fresh bareSigil : Bool} {parts : Compound} {text more : List Char}
    {before its : List Item} (htakes : Takes fresh text .blank more)
    (hend : endCompound parts bareSigil = .ok before) (h : Scans true [] false more its) :
    Scans fresh parts bareSigil (text ++ more) (before ++ its)
  | combinator {fresh bareSigil : Bool} {parts : Compound} {text more : List Char} {k : Combinator}
    {before its : List Item} (htakes : Takes fresh text (.combinator k) more)
    (hend : endCompound parts bareSigil = .ok before) (h : Scans true [] false more its) :
    Scans fresh parts bareSigil (text ++ more) (before ++ .combinator k :: its)
  | bareSigil {fresh bareSigil : Bool} {parts : Compound} {text more : List Char} {its : List Item}
    (htakes : Takes fresh text .bareSigil more) (h : Scans false parts true more its) :
    Scans fresh parts bareSigil (text ++ more) its
  | part {fresh bareSigil : Bool} {parts : Compound} {text more : List Char} {l : Lexeme}
    {part : Part} {its : List Item} (htakes : Takes fresh text l more) (hyields : l.Yields part)
    (h : Scans false (parts ++ [part]) bareSigil more its) :
    Scans fresh parts bareSigil (text ++ more) its

theorem items_of_scans (h : Scans fresh parts bareSigil cs its) :
    items read parts bareSigil (lexemes fresh cs) = .ok its := by
  induction h with
  | done hend => rwa [lexemes, items]
  | blank htakes hend _ ih =>
    rw [htakes.lexemes_append]
    exact bind_eq_ok.2 ⟨_, hend, bind_eq_ok.2 ⟨_, ih, rfl⟩⟩
  | combinator htakes hend _ ih =>
    rw [htakes.lexemes_append]
    exact bind_eq_ok.2 ⟨_, hend, bind_eq_ok.2 ⟨_, ih, rfl⟩⟩
  | bareSigil htakes _ ih =>
    rw [htakes.lexemes_append, items]
    exact ih
  | @part _ _ _ _ _ l _ _ htakes hyields _ ih =>
    rw [htakes.lexemes_append]
    cases l with
    | part part =>
      obtain rfl := hyields
      exact ih
    | pseudo doubleColon name argument =>
      rw [items, show pseudoPart read doubleColon name argument = _ from hyields]
      exact ih
    | _ => exact hyields.elim

theorem scans_of_items (h : items read parts bareSigil (lexemes fresh cs) = .ok its) :
    Scans fresh parts bareSigil cs its := by
  induction hlength : cs.length using Nat.strongRecOn generalizing cs fresh parts bareSigil its with
  | ind k ih =>
    by_cases hcs : cs = []
    · subst hcs
      rw [lexemes, items] at h
      exact .done h
    obtain ⟨text, l, more, rfl, hlt, htakes, hlexemes⟩ := exists_takes_lexemes fresh hcs
    have hrest {parts : Compound} {bareSigil : Bool} {its : List Item}
        (h : items read parts bareSigil (lexemes l.separates more) = .ok its) :
        Scans l.separates parts bareSigil more its := ih more.length (hlength ▸ hlt) h rfl
    rw [hlexemes] at h
    cases l with
    | blank =>
      obtain ⟨before, hend, h'⟩ := bind_eq_ok.1 h
      obtain ⟨after, hafter, hits⟩ := bind_eq_ok.1 h'
      obtain rfl := Except.ok.inj hits
      exact .blank htakes hend (hrest hafter)
    | combinator k =>
      obtain ⟨before, hend, h'⟩ := bind_eq_ok.1 h
      obtain ⟨after, hafter, hits⟩ := bind_eq_ok.1 h'
      obtain rfl := Except.ok.inj hits
      exact .combinator htakes hend (hrest hafter)
    | comma =>
      obtain ⟨before, hend, h⟩ := bind_eq_ok.1 h
      cases h
    | bareSigil => exact .bareSigil htakes (hrest h)
    | part part => exact .part htakes rfl (hrest h)
    | pseudo doubleColon name argument =>
      obtain ⟨part, hpart, h⟩ := bind_eq_ok.1 h
      exact .part htakes hpart (hrest h)
    | fault f => cases h

theorem scans_iff : Scans fresh parts bareSigil cs its ↔
    items read parts bareSigil (lexemes fresh cs) = .ok its :=
  ⟨items_of_scans, scans_of_items⟩

theorem readChain_eq_ok_iff : readChain read text = .ok chain ↔
    ∃ its, Scans true [] false text its ∧
      chain = (chain? its).getD (.unmatchable (String.ofList text)) := by
  rw [readChain]
  constructor
  · intro h
    obtain ⟨its, hits, hchain⟩ := bind_eq_ok.1 h
    exact ⟨its, scans_of_items hits, (Except.ok.inj hchain).symm⟩
  · rintro ⟨its, hits, rfl⟩
    exact bind_eq_ok.2 ⟨its, items_of_scans hits, rfl⟩

/-! From chains to items and back. -/

def stepItems : Combinator → Compound → List Item
  | .descendant, parts => [.compound parts]
  | k, parts => [.combinator k, .compound parts]

def chainItems : Chain → List Item
  | .compound parts => [.compound parts]
  | .step left k parts => chainItems left ++ stepItems k parts

theorem extend?_stepItems (left : Chain) (k : Combinator) (parts : Compound) (its : List Item) :
    extend? left (stepItems k parts ++ its) = extend? (.step left k parts) its := by
  cases k <;> rfl

theorem chain?_chainItems_append (chain : Chain) (its : List Item) :
    chain? (chainItems chain ++ its) = extend? chain its := by
  induction chain generalizing its with
  | compound parts => rfl
  | step left k parts ih => rw [chainItems, List.append_assoc, ih, extend?_stepItems]

theorem chain?_chainItems (chain : Chain) : chain? (chainItems chain) = some chain := by
  have h := chain?_chainItems_append chain []
  rwa [List.append_nil] at h

def IsWritten (its : List Item) : Prop := .combinator .descendant ∉ its

theorem endCompound_eq_ok_iff {before : List Item} : endCompound parts bareSigil = .ok before ↔
    before = [.compound parts] ∧ parts ≠ [] ∨ before = [] ∧ parts = [] ∧ bareSigil = false := by
  unfold endCompound
  cases parts with
  | nil => cases bareSigil <;> simp [eq_comm]
  | cons part parts => simp [eq_comm]

theorem isWritten_of_scans (h : Scans fresh parts bareSigil cs its) : IsWritten its := by
  have hbefore {parts : Compound} {bareSigil : Bool} {before : List Item}
      (h : endCompound parts bareSigil = .ok before) : IsWritten before := by
    rcases endCompound_eq_ok_iff.1 h with ⟨rfl, -⟩ | ⟨rfl, -⟩
    · simp [IsWritten]
    · simp [IsWritten]
  induction h with
  | done hend => exact hbefore hend
  | blank _ hend _ ih =>
    intro hmem
    cases List.mem_append.1 hmem with
    | inl hmem => exact hbefore hend hmem
    | inr hmem => exact ih hmem
  | combinator htakes hend _ ih =>
    intro hmem
    rcases List.mem_append.1 hmem with hmem | hmem
    · exact hbefore hend hmem
    cases List.mem_cons.1 hmem with
    | inl heq =>
      cases htakes with
      | combinator hc =>
        obtain rfl := Item.combinator.inj heq
        unfold explicitCombinator? at hc
        split at hc <;> exact absurd hc nofun
    | inr hmem => exact ih hmem
  | bareSigil _ _ ih => exact ih
  | part _ _ _ ih => exact ih

theorem chainItems_of_extend? {left : Chain} (hwritten : IsWritten its)
    (h : extend? left its = some chain) : chainItems chain = chainItems left ++ its := by
  fun_induction extend? left its with
  | case1 left =>
    obtain rfl := Option.some.inj h
    exact (List.append_nil _).symm
  | case2 left parts rest ih =>
    rw [ih (fun hmem => hwritten (List.mem_cons_of_mem _ hmem)) h, chainItems]
    simp [stepItems]
  | case3 left k parts rest ih =>
    have hk : k ≠ .descendant := by
      rintro rfl
      exact hwritten List.mem_cons_self
    rw [ih (fun hmem => hwritten (List.mem_cons_of_mem _ (List.mem_cons_of_mem _ hmem))) h,
      chainItems]
    cases k with
    | descendant => exact absurd rfl hk
    | _ => simp [stepItems]
  | case4 => exact absurd h nofun

theorem chainItems_of_chain? (hwritten : IsWritten its) (h : chain? its = some chain) :
    chainItems chain = its := by
  unfold chain? at h
  split at h
  · rename_i parts rest
    exact chainItems_of_extend? (fun hmem => hwritten (List.mem_cons_of_mem _ hmem)) h
  · exact absurd h nofun

/-- A chain that is read is what its text says, or it stands for a text that says nothing. -/
theorem readChain_cases (h : readChain read text = .ok chain) :
    Scans true [] false text (chainItems chain) ∨ chain = .unmatchable (String.ofList text) := by
  obtain ⟨its, hits, rfl⟩ := readChain_eq_ok_iff.1 h
  cases hchain : chain? its with
  | none => exact .inr rfl
  | some chain =>
    left
    rw [Option.getD_some, chainItems_of_chain? (isWritten_of_scans hits) hchain]
    exact hits

theorem readChain_of_scans (h : Scans true [] false text (chainItems chain)) :
    readChain read text = .ok chain :=
  readChain_eq_ok_iff.2 ⟨_, h, by rw [chain?_chainItems, Option.getD_some]⟩

theorem mapM_eq_ok_iff {α β : Type} {f : α → Except Fault β} {xs : List α} {ys : List β} :
    xs.mapM f = .ok ys ↔ List.Forall₂ (fun x y => f x = .ok y) xs ys := by
  induction xs generalizing ys with
  | nil =>
    rw [List.mapM_nil, List.forall₂_nil_left_iff]
    exact ⟨fun h => (Except.ok.inj h).symm, fun h => congrArg Except.ok h.symm⟩
  | cons x xs ih =>
    rw [List.mapM_cons]
    constructor
    · intro h
      obtain ⟨y, hy, h'⟩ := bind_eq_ok.1 h
      obtain ⟨zs, hzs, hys⟩ := bind_eq_ok.1 h'
      obtain rfl := Except.ok.inj hys
      exact .cons hy (ih.1 hzs)
    · rintro (⟨⟩ | ⟨hy, hys⟩)
      exact bind_eq_ok.2 ⟨_, hy, bind_eq_ok.2 ⟨_, ih.2 hys, rfl⟩⟩

theorem read_eq_ok_iff {selector : Selector} : read text = .ok selector ↔
    List.Forall₂ (fun piece chain => readChain read piece = .ok chain) (chainTexts text)
      selector := by
  rw [read_eq, mapM_eq_ok_iff]

end DomQuery.Selector
