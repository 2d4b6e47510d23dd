import Chatline.Text.Basic
import Mathlib.Data.List.Basic
import Mathlib.Data.List.DropRight

/-! The words of a text as the only way to read it as words with blanks around them, and the text
between the blanks at its ends. -/
namespace Chatline.Text

/-- No character of the list is blank. -/
def Clean (cs : List Char) : Prop := ∀ c ∈ cs, isBlank c = false

/-- The text is these words with blanks around them, and some between any two. -/
inductive Spread : List (List Char) → List Char → Prop
  | blank {gap : List Char} (hgap : ∀ c ∈ gap, isBlank c = true) : Spread [] gap
  | word {gap run rest : List Char} {ws : List (List Char)} (hgap : ∀ c ∈ gap, isBlank c = true)
      (hne : run ≠ []) (hrun : Clean run) (hsep : ∀ c ∈ rest.head?, isBlank c = true)
      (hrest : Spread ws rest) : Spread (run :: ws) (gap ++ (run ++ rest))

section
variable {c : Char} {cs run rest gap : List Char} {ws : List (List Char)}

theorem Spread.cons_blank (h : Spread ws cs) (hc : isBlank c = true) : Spread ws (c :: cs) := by
  cases h with
  | blank hgap => exact .blank (List.forall_mem_cons.2 ⟨hc, hgap⟩)
  | word hgap hne hrun hsep hrest =>
    rw [← List.cons_append]
    exact .word (List.forall_mem_cons.2 ⟨hc, hgap⟩) hne hrun hsep hrest

theorem leadingRun_blank (hc : isBlank c = true) :
    leadingRun (c :: cs) = ([], closeRun (leadingRun cs).1 (leadingRun cs).2) := by
  simp [leadingRun, hc]

theorem leadingRun_cons (hc : isBlank c = false) :
    leadingRun (c :: cs) = (c :: (leadingRun cs).1, (leadingRun cs).2) := by
  simp [leadingRun, hc]

theorem wordRuns_blank (hc : isBlank c = true) : wordRuns (c :: cs) = wordRuns cs := by
  unfold wordRuns
  rw [leadingRun_blank hc]
  rfl

theorem spread_closeRun (hrun : Clean run) (hsep : ∀ c ∈ rest.head?, isBlank c = true)
    (hrest : Spread ws rest) : Spread (closeRun run ws) (run ++ rest) := by
  unfold closeRun
  cases run with
  | nil => exact hrest
  | cons c run =>
    have hgap : ∀ c ∈ ([] : List Char), isBlank c = true := by simp
    exact .word hgap (List.cons_ne_nil c run) hrun hsep hrest

/-- The leading run stands at the start, and the words are spread over what follows it. -/
theorem leadingRun_split (cs : List Char) : ∃ rest, cs = (leadingRun cs).1 ++ rest ∧
    Clean (leadingRun cs).1 ∧ (∀ c ∈ rest.head?, isBlank c = true) ∧
      Spread (leadingRun cs).2 rest := by
  induction cs with
  | nil => exact ⟨[], rfl, by simp [leadingRun, Clean], by simp, .blank (by simp)⟩
  | cons c cs ih =>
    obtain ⟨rest, hcs, hrun, hsep, hrest⟩ := ih
    cases hc : isBlank c with
    | true =>
      have hspread := (spread_closeRun hrun hsep hrest).cons_blank hc
      rw [← hcs] at hspread
      rw [leadingRun_blank hc]
      exact ⟨c :: cs, rfl, by simp [Clean], by simpa using hc, hspread⟩
    | false =>
      rw [leadingRun_cons hc]
      exact ⟨rest, congrArg (c :: ·) hcs, List.forall_mem_cons.2 ⟨hc, hrun⟩, hsep, hrest⟩

theorem spread_wordRuns (cs : List Char) : Spread (wordRuns cs) cs := by
  obtain ⟨rest, hcs, hrun, hsep, hrest⟩ := leadingRun_split cs
  have hspread := spread_closeRun hrun hsep hrest
  rw [← hcs] at hspread
  exact hspread

theorem wordRuns_gap_append (hgap : ∀ c ∈ gap, isBlank c = true) :
    wordRuns (gap ++ cs) = wordRuns cs := by
  induction gap with
  | nil => rfl
  | cons c gap ih =>
    obtain ⟨hc, hgap⟩ := List.forall_mem_cons.1 hgap
    rw [List.cons_append, wordRuns_blank hc, ih hgap]

theorem leadingRun_clean_append (hrun : Clean run) :
    leadingRun (run ++ rest) = (run ++ (leadingRun rest).1, (leadingRun rest).2) := by
  induction run with
  | nil => rfl
  | cons c run ih =>
    obtain ⟨hc, hrun⟩ := List.forall_mem_cons.1 hrun
    rw [List.cons_append, leadingRun_cons hc, ih hrun]
    rfl

theorem leadingRun_fst_of_sep (hsep : ∀ c ∈ rest.head?, isBlank c = true) :
    (leadingRun rest).1 = [] := by
  cases rest with
  | nil => rfl
  | cons c rest => rw [leadingRun_blank (hsep c rfl)]

theorem wordRuns_run_append (hne : run ≠ []) (hrun : Clean run)
    (hsep : ∀ c ∈ rest.head?, isBlank c = true) :
    wordRuns (run ++ rest) = run :: wordRuns rest := by
  have hfst := leadingRun_fst_of_sep hsep
  unfold wordRuns
  rw [leadingRun_clean_append hrun, hfst, List.append_nil]
  unfold closeRun
  rw [if_neg (by simpa using hne)]
  rfl

/-- A text is spread words in one way only. -/
theorem wordRuns_of_spread (h : Spread ws cs) : wordRuns cs = ws := by
  induction h with
  | @blank gap hgap =>
    have happ : wordRuns (gap ++ []) = wordRuns [] := wordRuns_gap_append hgap
    rw [List.append_nil] at happ
    exact happ
  | word hgap hne hrun hsep _ ih =>
    rw [wordRuns_gap_append hgap, wordRuns_run_append hne hrun hsep, ih]

theorem wordRuns_eq_iff : wordRuns cs = ws ↔ Spread ws cs :=
  ⟨fun h => h ▸ spread_wordRuns cs, wordRuns_of_spread⟩

theorem Spread.mem (h : Spread ws cs) (hrun : run ∈ ws) : run ≠ [] ∧ Clean run := by
  induction h with
  | blank hgap => cases hrun
  | word hgap hne hclean hsep _ ih =>
    rcases List.mem_cons.1 hrun with rfl | hrun
    · exact ⟨hne, hclean⟩
    · exact ih hrun

/-- The words stay the same when blanks are put behind them. -/
theorem Spread.append_gap (h : Spread ws cs) (hgap : ∀ c ∈ gap, isBlank c = true) :
    Spread ws (cs ++ gap) := by
  induction h with
  | blank hgap' => exact .blank (List.forall_mem_append.2 ⟨hgap', hgap⟩)
  | @word _ _ rest _ hgap' hne hrun hsep _ ih =>
    rw [List.append_assoc, List.append_assoc]
    refine .word hgap' hne hrun (fun c hc => ?_) ih
    cases rest with
    | nil => exact hgap c (List.mem_of_mem_head? hc)
    | cons d rest => exact hsep c hc

theorem wordRuns_of_clean (hne : cs ≠ []) (hcs : Clean cs) : wordRuns cs = [cs] := by
  have happ : wordRuns (cs ++ []) = cs :: wordRuns [] := wordRuns_run_append hne hcs (by simp)
  rw [List.append_nil] at happ
  exact happ

theorem Spread.of_singleton (h : Spread [run] cs) : ∃ gap gap', cs = gap ++ (run ++ gap') ∧
    (∀ c ∈ gap, isBlank c = true) ∧ (∀ c ∈ gap', isBlank c = true) ∧ run ≠ [] ∧ Clean run := by
  cases h with
  | word hgap hne hrun hsep hrest =>
    cases hrest with
    | blank hgap' => exact ⟨_, _, rfl, hgap, hgap', hne, hrun⟩

theorem dropWhile_clean_append (hne : run ≠ []) (hrun : Clean run) :
    (run ++ rest).dropWhile isBlank = run ++ rest := by
  cases run with
  | nil => exact absurd rfl hne
  | cons c run =>
    have hc : isBlank c = false := hrun c List.mem_cons_self
    rw [List.cons_append, List.dropWhile_cons_of_neg (by simp [hc])]

theorem dropWhile_gap_append (hgap : ∀ c ∈ gap, isBlank c = true) (hne : run ≠ [])
    (hrun : Clean run) : (gap ++ (run ++ rest)).dropWhile isBlank = run ++ rest := by
  rw [List.dropWhile_append_of_pos hgap, dropWhile_clean_append hne hrun]

theorem Clean.reverse (hrun : Clean run) : Clean run.reverse :=
  fun c hc => hrun c (List.mem_reverse.1 hc)

end

section
variable {s w : String}

theorem clean_toList_iff : Clean s.toList ↔ hasBlank s = false := by
  simp [Clean, hasBlank]

theorem words_eq_iff_spread {ws : List String} :
    words s = ws ↔ Spread (ws.map String.toList) s.toList := by
  rw [← wordRuns_eq_iff, words]
  constructor
  · rintro rfl
    simp
  · intro h
    simp [h]

theorem words_eq_singleton_iff : words s = [w] ↔ Spread [w.toList] s.toList := words_eq_iff_spread

/-- The words of a message are not empty and hold no blanks. -/
theorem ne_empty_and_clean_of_mem_words (h : w ∈ words s) : w ≠ "" ∧ hasBlank w = false := by
  obtain ⟨run, hrun, rfl⟩ := List.mem_map.1 h
  obtain ⟨hne, hclean⟩ := (spread_wordRuns s.toList).mem hrun
  rw [← clean_toList_iff, String.toList_ofList]
  refine ⟨fun he => hne ?_, hclean⟩
  simpa using congrArg String.toList he

/-- A text is its own only word exactly if it is not empty and holds no blanks. -/
theorem words_eq_self_iff : words s = [s] ↔ s ≠ "" ∧ hasBlank s = false := by
  constructor
  · intro h
    exact ne_empty_and_clean_of_mem_words (h ▸ List.mem_singleton_self s)
  · rintro ⟨hne, hblank⟩
    have hruns := wordRuns_of_clean (by simpa using hne) (clean_toList_iff.2 hblank)
    rw [words, hruns, List.map_singleton, String.ofList_toList]

/-- A text with one word is that word once the blanks at its ends are gone. -/
theorem trim_of_words_eq_singleton (h : words s = [w]) : trim s = w := by
  obtain ⟨gap, gap', hs, hgap, hgap', hne, hclean⟩ := (words_eq_singleton_iff.1 h).of_singleton
  have hgaprev : ∀ c ∈ gap'.reverse, isBlank c = true := fun c hc => hgap' c (List.mem_reverse.1 hc)
  have htail : (w.toList ++ gap').reverse = gap'.reverse ++ (w.toList.reverse ++ []) := by simp
  unfold trim
  rw [hs, dropWhile_gap_append hgap hne hclean, htail,
    dropWhile_gap_append hgaprev (by simpa using hne) hclean.reverse]
  simp

/-- Blanks at the end of a text are in none of its words. -/
theorem wordRuns_rdropWhile (cs : List Char) : wordRuns (cs.rdropWhile isBlank) = wordRuns cs := by
  induction cs using List.reverseRecOn with
  | nil => rfl
  | append_singleton cs c ih =>
    by_cases hc : isBlank c = true
    · have hgap : ∀ d ∈ [c], isBlank d = true := by simpa using hc
      rw [List.rdropWhile_concat_pos _ _ _ hc, ih,
        wordRuns_of_spread ((spread_wordRuns cs).append_gap hgap)]
    · rw [List.rdropWhile_concat_neg _ _ _ hc]

theorem words_rdropWhile (s : String) :
    words (.ofList (s.toList.rdropWhile isBlank)) = words s := by
  unfold words
  rw [String.toList_ofList, wordRuns_rdropWhile]

/-- A beginning that is not empty and holds no blanks stays where it is when the blanks at the ends
go. -/
theorem toList_trim_of_clean {run rest : List Char} (hs : s.toList = run ++ rest) (hne : run ≠ [])
    (hrun : Clean run) : (trim s).toList = run ++ rest.rdropWhile isBlank := by
  have hrev : run.reverse.dropWhile isBlank = run.reverse := by
    have happ : (run.reverse ++ []).dropWhile isBlank = run.reverse ++ [] :=
      dropWhile_clean_append (by simpa using hne) hrun.reverse
    rwa [List.append_nil] at happ
  unfold trim List.rdropWhile
  rw [hs, dropWhile_clean_append hne hrun, List.reverse_append, List.dropWhile_append,
    String.toList_ofList, hrev]
  split
  · rename_i hnil
    rw [List.isEmpty_iff.1 hnil, List.reverse_nil, List.append_nil, List.reverse_reverse]
  · rw [List.reverse_append, List.reverse_reverse]

end
end Chatline.Text
