import DomQuery.Proofs.Document.Refusals
import DomQuery.Proofs.Workspace.Runs

/-!
Failed operations. A change fails when the tree forbids it, and anything else when it was given a text
that is no selector; whatever fails leaves all documents as they were.
-/
namespace DomQuery
variable {ws : Workspace} {op : Operation} {e : SelectorError}

/-! Texts that are read as selectors. -/

def Target.selectors : Target → List String
  | .selector text => [text]
  | _ => []

def Derivation.selectors : Derivation → List String
  | .find selector => [selector]
  | .filter selector => [selector]
  | .without selector => [selector]
  | .has selector => [selector]
  | .closest selector => [selector]
  | .children kept => kept.toList
  | .parent kept => kept.toList
  | .parents kept => kept.toList
  | .parentsUntil stop kept => stop.selectors ++ kept.toList
  | .siblings kept => kept.toList
  | .next kept => kept.toList
  | .nextAll kept => kept.toList
  | .nextUntil stop kept => stop.selectors ++ kept.toList
  | .prev kept => kept.toList
  | .prevAll kept => kept.toList
  | .prevUntil stop kept => stop.selectors ++ kept.toList
  | _ => []

/-- The texts that an operation reads as selectors, in this order. -/
def Operation.selectors : Operation → List String
  | .query input => if Workspace.looksLikeMarkup (Text.trim input.toList) then [] else [input]
  | .select _ selector => [selector]
  | .derive _ step => step.selectors
  | .add _ target => target.selectors
  | .rework _ (.remove filter) => filter.toList
  | .insertAt _ target _ => target.selectors
  | _ => []

/-- Reading the texts comes to an error. -/
def Unreadable (texts : List String) (e : SelectorError) : Prop :=
  texts.mapM Selector.parse = .error e

theorem not_unreadable_nil : ¬ Unreadable [] e := nofun

theorem ok_eq_error_iff {ε α : Type} {a : α} {failure : ε} :
    Except.ok a = .error failure ↔ Unreadable [] e := iff_of_false nofun not_unreadable_nil

theorem unreadable_cons {text : String} {texts : List String} : Unreadable (text :: texts) e ↔
    Selector.parse text = .error e ∨ (∃ s, Selector.parse text = .ok s) ∧ Unreadable texts e := by
  rw [Unreadable, List.mapM_cons, bind_eq_error, Unreadable, ← exists_and_right]
  refine or_congr_right (exists_congr fun s => and_congr_right fun _ => ?_)
  rw [bind_eq_error]
  exact or_iff_left (by rintro ⟨_, -, ⟨⟩⟩)

theorem unreadable_singleton {text : String} : Unreadable [text] e ↔ Selector.parse text = .error e :=
  unreadable_cons.trans (or_iff_left fun h => not_unreadable_nil h.2)

theorem bind_pure_eq_error {α β : Type} {x : Except SelectorError α} {f : α → β} :
    (x >>= fun a => pure (f a)) = .error e ↔ x = .error e :=
  bind_eq_error.trans (or_iff_left (by rintro ⟨_, -, ⟨⟩⟩))

theorem parse_bind_eq_error {text : String} {β : Type} {f : Selector → β} :
    (Selector.parse text >>= fun s => pure (f s)) = .error e ↔ Unreadable [text] e :=
  bind_pure_eq_error.trans unreadable_singleton.symm

theorem parseFilter_eq_error {filter : Option String} :
    parseFilter filter = .error e ↔ Unreadable filter.toList e := by
  cases filter with
  | none => exact ok_eq_error_iff
  | some text => exact map_eq_error.trans unreadable_singleton.symm

namespace Collection
variable {c : Collection} {d : Document} {filter : Option String} {related : NodeId → List NodeId}

theorem gather_eq_error : c.gather d filter related = .error e ↔ Unreadable filter.toList e :=
  bind_pure_eq_error.trans parseFilter_eq_error

theorem gatherUntil_eq_error {stop : Target} : c.gatherUntil d stop filter related = .error e ↔
    Unreadable (stop.selectors ++ filter.toList) e := by
  rw [gatherUntil, bind_eq_error]
  simp only [gather_eq_error]
  cases stop with
  | selector text =>
    rw [Target.selectors, List.singleton_append, unreadable_cons, Target.matcher, map_eq_error]
    simp only [map_eq_ok]
    refine or_congr_right ⟨?_, ?_⟩
    · rintro ⟨_, ⟨s, hs, -⟩, h⟩
      exact ⟨⟨s, hs⟩, h⟩
    · rintro ⟨⟨s, hs⟩, h⟩
      exact ⟨_, ⟨s, hs, rfl⟩, h⟩
  | nodes nodes => simp [Target.matcher, Target.selectors]
  | collection other => simp [Target.matcher, Target.selectors]

end Collection

theorem Derivation.run_eq_error {c : Collection} {d : Document} (step : Derivation) :
    step.run d c = .error e ↔ Unreadable step.selectors e := by
  cases step with
  | find selector => exact parse_bind_eq_error
  | filter selector => exact parse_bind_eq_error
  | without selector => exact parse_bind_eq_error
  | has selector => exact parse_bind_eq_error
  | closest selector => exact parse_bind_eq_error
  | children kept => exact Collection.gather_eq_error
  | parent kept => exact Collection.gather_eq_error
  | parents kept => exact Collection.gather_eq_error
  | parentsUntil stop kept => exact Collection.gatherUntil_eq_error
  | siblings kept => exact Collection.gather_eq_error
  | next kept => exact Collection.gather_eq_error
  | nextAll kept => exact Collection.gather_eq_error
  | nextUntil stop kept => exact Collection.gatherUntil_eq_error
  | prev kept => exact Collection.gather_eq_error
  | prevAll kept => exact Collection.gather_eq_error
  | prevUntil stop kept => exact Collection.gatherUntil_eq_error
  | _ => exact ok_eq_error_iff

namespace Workspace

theorem select_eq_error {dom : DomId} {text : String} :
    ws.select dom text = .error e ↔ Unreadable [text] e := parse_bind_eq_error

theorem resolve_eq_error {dom : DomId} {target : Target} :
    ws.resolve dom target = .error e ↔ Unreadable target.selectors e := by
  cases target with
  | selector text => exact map_eq_error.trans select_eq_error
  | nodes nodes => exact ok_eq_error_iff
  | collection c => exact ok_eq_error_iff

theorem selector_error_iff {α : Type} {x : Except SelectorError α} :
    x.mapError Failure.selector = .error (.selector e) ↔ x = .error e := by
  rw [mapError_eq_error]
  constructor
  · rintro ⟨_, h, ⟨⟩⟩
    exact h
  · exact fun h => ⟨e, h, rfl⟩

/-- An operation fails for a selector when one of its texts is none, and for the first of these. -/
theorem perform_eq_selector_error (ws : Workspace) (op : Operation) :
    ws.perform op = .error (.selector e) ↔ Unreadable op.selectors e := by
  cases op with
  | query input =>
    rw [perform, selector_error_iff, query, Operation.selectors]
    split
    · exact ok_eq_error_iff
    · exact map_eq_error.trans select_eq_error
  | select dom selector => exact selector_error_iff.trans (map_eq_error.trans select_eq_error)
  | derive c step => exact selector_error_iff.trans (map_eq_error.trans step.run_eq_error)
  | add c target =>
    exact selector_error_iff.trans (map_eq_error.trans (bind_pure_eq_error.trans resolve_eq_error))
  | rework c rework =>
    refine selector_error_iff.trans (map_eq_error.trans ?_)
    cases rework with
    | remove filter => exact bind_pure_eq_error.trans parseFilter_eq_error
    | _ => exact ok_eq_error_iff
  | insertAt c target place =>
    exact selector_error_iff.trans (bind_pure_eq_error.trans resolve_eq_error)
  | change dom change =>
    refine iff_of_false (fun h => ?_) not_unreadable_nil
    obtain ⟨_, -, ⟨⟩⟩ := mapError_eq_error.1 h
  | _ => exact ok_eq_error_iff

/-! Step by step. -/

/-- The workspace that an operation leaves behind, and the nodes that the caller gets. Operations other than
changes read all their selectors before they write anything. -/
def inSteps (refuses : Document → Spot → NodeId → Bool) (ws : Workspace) :
    Operation → Workspace × Except Failure Collection
  | .change dom change =>
    let (d, answer) := change.inSteps refuses (ws.document dom)
    (ws.setDocument dom d, (answer.map fun nodes => { dom, nodes }).mapError .move)
  | op => settle ws (ws.perform op)

theorem setDocument_document (ws : Workspace) (dom : DomId) : ws.setDocument dom (ws.document dom) = ws := by
  rw [setDocument, update, document]
  congr 1
  refine Array.ext (by simp) fun i hi hi' => ?_
  rw [Array.getElem_modify]
  split
  · rename_i heq
    subst heq
    rw [Array.getD_eq_getD_getElem?, Array.getElem?_eq_getElem hi']
    rfl
  · rfl

section Steps
variable {refuses : Document → Spot → NodeId → Bool}
  (hrefuses : ∀ d spot n, refuses d spot n → Document.Unlinkable d spot n) (hop : op.Admissible ws)
include hrefuses hop

theorem inSteps_eq : ws.inSteps refuses op = settle ws (ws.perform op) := by
  cases op with
  | change dom change =>
    rw [inSteps, Change.inSteps_eq hrefuses hop.2, perform]
    cases change.run (ws.document dom) with
    | error e => exact congrArg (·, _) (setDocument_document ws dom)
    | ok result => rfl
  | _ => rfl

end Steps

/-- A change fails exactly when the tree forbids it, and an operation fails over a selector exactly when one
of the texts that it reads is none. Whatever fails leaves the whole workspace as it was; also when a move
takes a node out of its place before it links it anew, and the store checks that link once more. -/
theorem failures_change_nothing (h : ∀ dom, (ws.document dom).WellFormed) (hop : op.Admissible ws)
    {refuses : Document → Spot → NodeId → Bool}
    (hrefuses : ∀ d spot n, refuses d spot n → Document.Unlinkable d spot n) :
    (∀ dom change, op = .change dom change →
      ((∃ failure, ws.perform op = .error failure) ↔ change.Refused (ws.document dom))) ∧
    (∀ e, ws.perform op = .error (.selector e) ↔ Unreadable op.selectors e) ∧
    (ws.inSteps refuses op).2 = (ws.perform op).map (·.2) ∧ (ws.inSteps refuses op).1 = ws.after op ∧
    ∀ failure, ws.perform op = .error failure → (ws.inSteps refuses op).1 = ws := by
  have hsettled := inSteps_eq hrefuses hop
  refine ⟨?_, fun e => perform_eq_selector_error ws op, ?_, ?_, fun failure hfail => ?_⟩
  · rintro dom change rfl
    rw [← change.exists_run_eq_error (h dom), perform]
    simp only [mapError_eq_error, map_eq_error]
    constructor
    · rintro ⟨_, e, he, -⟩
      exact ⟨e, he⟩
    · rintro ⟨e, he⟩
      exact ⟨_, e, he, rfl⟩
  · rw [hsettled]
    cases ws.perform op <;> rfl
  · rw [hsettled, after]
    cases ws.perform op <;> rfl
  · rw [hsettled, hfail]
    rfl

/-- A `div` is not put into the paragraph that it holds, and keeps its place. The store refuses all that it
may refuse. -/
theorem failures_change_nothing_cycle :
    let ws := ({} : Workspace).run [
      .change 0 (.create (.element { tag := "body" }) .html),
      .change 0 (.create (.element { tag := "div" }) .html),
      .change 0 (.create (.element { tag := "p" }) .html),
      .change 0 (.move (.lastIn 0) 1),
      .change 0 (.move (.lastIn 1) 2)]
    let op : Operation := .change 0 (.move (.lastIn 2) 1)
    (ws.document 0).WellFormed ∧ op.Admissible ws ∧ (ws.document 0).children 0 = [1] ∧
      (∃ failure, ws.perform op = .error failure) ∧
      (ws.inSteps (fun d spot n => decide (d.Unlinkable spot n)) op).1 = ws := by
  intro ws op
  have h (dom : DomId) : (ws.document dom).WellFormed :=
    ((sound_empty.run (by decide +kernel)).document dom).toWellFormed
  have hop : op.Admissible ws := by decide +kernel
  obtain ⟨hfails, -, -, -, hkept⟩ := @failures_change_nothing ws op h hop
    (fun d spot n => decide (d.Unlinkable spot n)) fun _ _ _ => of_decide_eq_true
  obtain ⟨failure, hfailure⟩ := (hfails 0 _ rfl).2 (.inr (.inr (by decide +kernel)))
  exact ⟨h 0, hop, by decide +kernel, ⟨failure, hfailure⟩, hkept failure hfailure⟩

end Workspace
end DomQuery
