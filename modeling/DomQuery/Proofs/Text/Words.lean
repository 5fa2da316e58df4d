import DomQuery.Text.Blank

/-!
Words of a text. They are what stands between ASCII blanks, and words that are written with single spaces
between them are read back as they are.
-/
namespace DomQuery.Text
variable {separates : Char → Bool} {w rest cs : List Char} {pieces : List (List Char)} {s : String}
  {ws : List String}

/-- Not empty, and without a character that separates words. -/
structure IsWord (s : String) : Prop where
  ne_empty : s ≠ ""
  not_blank : ∀ c ∈ s.toList, isAsciiBlank c = false

instance (s : String) : Decidable (IsWord s) :=
  decidable_of_iff (s ≠ "" ∧ s.toList.all (!isAsciiBlank ·) = true)
    ⟨fun h => ⟨h.1, by simpa using h.2⟩, fun h => ⟨h.ne_empty, by simpa using h.not_blank⟩⟩

/-! Runs. -/

theorem runs_cons_of_separates {c : Char} (hc : separates c) :
    runs separates (c :: rest) = runs separates rest := by
  cases rest <;> simp [runs, hc]

theorem runs_append (hne : w ≠ []) (hw : ∀ c ∈ w, separates c = false)
    (hrest : ∀ c ∈ rest.head?, separates c) :
    runs separates (w ++ rest) = w :: runs separates rest := by
  induction w with
  | nil => exact absurd rfl hne
  | cons c w ih =>
    have hc : ¬ separates c := by simp [hw c List.mem_cons_self]
    cases w with
    | nil =>
      -- the last character of the run
      cases rest with
      | nil => simp [runs, hc]
      | cons d rest => simp [runs, hc, hrest d rfl]
    | cons d w =>
      have hd : separates d = false := hw d (by simp)
      have hrun := ih (List.cons_ne_nil d w) fun c hc => hw c (List.mem_cons_of_mem _ hc)
      rw [List.cons_append] at hrun ⊢
      simp [runs, hc, hd, hrun]

theorem of_mem_runs : ∀ run ∈ runs separates cs, run ≠ [] ∧ ∀ c ∈ run, separates c = false := by
  fun_induction runs separates cs <;> grind

theorem runs_intercalate {blank : Char} (hblank : separates blank)
    (hpieces : ∀ w ∈ pieces, w ≠ [] ∧ ∀ c ∈ w, separates c = false) :
    runs separates ([blank].intercalate pieces) = pieces := by
  induction pieces with
  | nil => rfl
  | cons w pieces ih =>
    obtain ⟨hne, hw⟩ := hpieces w List.mem_cons_self
    have hread := ih fun w hw => hpieces w (List.mem_cons_of_mem _ hw)
    cases pieces with
    | nil =>
      have hrun : runs separates (w ++ []) = w :: runs separates [] := runs_append hne hw (by simp)
      simpa [runs] using hrun
    | cons v pieces =>
      rw [List.intercalate_cons_cons, List.append_assoc, List.singleton_append,
        runs_append hne hw (by simp [hblank]), runs_cons_of_separates hblank, hread]

/-! Words. -/

theorem isWord_of_mem_words {word : String} (h : word ∈ words s) : IsWord word := by
  obtain ⟨run, hrun, rfl⟩ := List.mem_map.1 h
  obtain ⟨hne, hblank⟩ := of_mem_runs run hrun
  exact ⟨fun hempty => hne (String.ofList_eq_empty_iff.1 hempty), by rwa [String.toList_ofList]⟩

theorem words_intercalate (hws : ∀ word ∈ ws, IsWord word) : words (" ".intercalate ws) = ws := by
  have hpieces : ∀ w ∈ ws.map String.toList, w ≠ [] ∧ ∀ c ∈ w, isAsciiBlank c = false := by
    intro w hw
    obtain ⟨word, hword, rfl⟩ := List.mem_map.1 hw
    have hne : word.toList ≠ [] := fun hnil => (hws word hword).ne_empty (String.toList_eq_nil_iff.1 hnil)
    exact ⟨hne, (hws word hword).not_blank⟩
  have hruns : runs isAsciiBlank ([' '].intercalate (ws.map String.toList)) = ws.map String.toList :=
    runs_intercalate rfl hpieces
  have hspace : " ".toList = [' '] := rfl
  rw [words, String.toList_intercalate, hspace, hruns, List.map_map]
  simp

theorem words_of_isWord (h : IsWord s) : words s = [s] := by
  have hread : words (" ".intercalate [s]) = [s] := words_intercalate (by simpa using h)
  rwa [String.intercalate_singleton] at hread

end DomQuery.Text
