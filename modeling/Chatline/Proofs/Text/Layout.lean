import Chatline.Proofs.Text.Words

/-! The words of a text as the only words that it can be laid out from, with blanks around them and
between them. Any blanks do between two words, so words that are put together come back. -/
namespace Chatline.Text

/-- Words with gaps: the gap in front of the first word, and each word with the gap behind it. -/
structure Layout where
  indent : String
  pieces : List (String × String)

namespace Layout

def words (l : Layout) : List String := l.pieces.map Prod.fst

def text (l : Layout) : String := l.indent ++ String.join (l.pieces.map fun p => p.1 ++ p.2)

/-- The words are not empty and have no blanks, the gaps have nothing else, and there is a gap
between any two words. -/
structure Proper (l : Layout) : Prop where
  indent : allBlank l.indent = true
  words : ∀ p ∈ l.pieces, p.1 ≠ "" ∧ hasBlank p.1 = false
  gaps : ∀ p ∈ l.pieces, allBlank p.2 = true
  apart : ∀ p ∈ l.pieces.dropLast, p.2 ≠ ""

theorem text_nil (indent : String) : text ⟨indent, []⟩ = indent := by simp [text]

theorem text_cons (indent w gap : String) (pieces : List (String × String)) :
    text ⟨indent, (w, gap) :: pieces⟩ = indent ++ (w ++ text ⟨gap, pieces⟩) := by
  simp [text, String.append_assoc]

end Layout

theorem allBlank_iff {s : String} : allBlank s = true ↔ ∀ c ∈ s.toList, isBlank c = true := by
  simp [allBlank]

theorem toList_ne_nil {s : String} (h : s ≠ "") : s.toList ≠ [] := by simpa using h

/-- A text that begins with blanks, and with at least one if anything follows them, does not begin
with a word. -/
theorem isBlank_head?_append {gap rest : List Char} (hgap : ∀ c ∈ gap, isBlank c = true)
    (hne : rest ≠ [] → gap ≠ []) : ∀ c ∈ (gap ++ rest).head?, isBlank c = true := by
  intro c hc
  cases gap with
  | nil =>
    have hrest : rest = [] := by
      by_contra h
      exact hne h rfl
    simp [hrest] at hc
  | cons d gap =>
    have hd : d = c := by simpa using hc
    exact hgap c (hd ▸ List.mem_cons_self)

/-- A proper layout spreads its words over its text. -/
theorem Layout.Proper.spread {l : Layout} (h : l.Proper) :
    Spread (l.words.map String.toList) l.text.toList := by
  obtain ⟨indent, pieces⟩ := l
  induction pieces generalizing indent with
  | nil =>
    have hgap := allBlank_iff.1 h.indent
    rw [text_nil]
    exact .blank hgap
  | cons p pieces ih =>
    obtain ⟨w, gap⟩ := p
    obtain ⟨hne, hclean⟩ := h.words (w, gap) List.mem_cons_self
    have hgap : allBlank gap = true := h.gaps (w, gap) List.mem_cons_self
    have hrest : Layout.Proper ⟨gap, pieces⟩ :=
      { indent := hgap
        words := fun p hp => h.words p (List.mem_cons_of_mem _ hp)
        gaps := fun p hp => h.gaps p (List.mem_cons_of_mem _ hp)
        apart := fun p hp => h.apart p (by
          cases pieces with
          | nil => simp at hp
          | cons q pieces => exact List.mem_cons_of_mem _ hp) }
    -- behind the last word there may be nothing, behind any other there is a gap
    have hsep : ∀ c ∈ (text ⟨gap, pieces⟩).toList.head?, isBlank c = true := by
      unfold text
      rw [String.toList_append]
      apply isBlank_head?_append (allBlank_iff.1 hgap)
      intro hmore
      have hpieces : pieces ≠ [] := by
        rintro rfl
        exact hmore (by simp)
      have hapart := h.apart (w, gap) (by
        rw [List.dropLast_cons_of_ne_nil hpieces]
        exact List.mem_cons_self)
      exact toList_ne_nil hapart
    rw [text_cons, String.toList_append, String.toList_append]
    exact .word (allBlank_iff.1 h.indent) (toList_ne_nil hne) (clean_toList_iff.2 hclean) hsep
      (ih gap hrest)

/-- A text that does not begin with a word has a gap in front of its first word. -/
theorem Layout.Proper.indent_ne_empty {l : Layout} (h : l.Proper) (hpieces : l.pieces ≠ [])
    (hblank : ∀ c ∈ l.text.toList.head?, isBlank c = true) : l.indent ≠ "" := by
  obtain ⟨indent, pieces⟩ := l
  obtain ⟨⟨w, gap⟩, pieces, rfl⟩ := List.exists_cons_of_ne_nil hpieces
  obtain ⟨hne, hclean⟩ := h.words (w, gap) List.mem_cons_self
  rintro rfl
  obtain ⟨c, w', hw⟩ := List.exists_cons_of_ne_nil (toList_ne_nil hne)
  have hhead : c ∈ (text ⟨"", (w, gap) :: pieces⟩).toList.head? := by
    rw [text_cons, String.toList_append, String.toList_append, hw]
    simp
  have hc : isBlank c = false := clean_toList_iff.2 hclean c (hw ▸ List.mem_cons_self)
  rw [hblank c hhead] at hc
  cases hc

/-- Words that are spread over a text have a proper layout with that text. -/
theorem Spread.exists_layout {ws : List (List Char)} {cs : List Char} (h : Spread ws cs) :
    ∃ l : Layout, l.Proper ∧ l.words = ws.map String.ofList ∧ l.text = String.ofList cs := by
  induction h with
  | @blank gap hgap =>
    refine ⟨⟨String.ofList gap, []⟩, ?_, rfl, Layout.text_nil _⟩
    exact {
      indent := allBlank_iff.2 (by simpa using hgap)
      words := by simp
      gaps := by simp
      apart := by simp }
  | @word gap run rest ws hgap hne hrun hsep _ ih =>
    obtain ⟨⟨indent, pieces⟩, hproper, hwords, htext⟩ := ih
    have hblank : ∀ c ∈ (Layout.text ⟨indent, pieces⟩).toList.head?, isBlank c = true := by
      rw [htext, String.toList_ofList]
      exact hsep
    refine ⟨⟨String.ofList gap, (String.ofList run, indent) :: pieces⟩, ?_, ?_, ?_⟩
    · refine {
        indent := allBlank_iff.2 (by simpa using hgap)
        words := List.forall_mem_cons.2 ⟨⟨?_, ?_⟩, hproper.words⟩
        gaps := List.forall_mem_cons.2 ⟨hproper.indent, hproper.gaps⟩
        apart := ?_ }
      · intro hempty
        exact hne (String.ofList_eq_empty_iff.1 hempty)
      · rw [← clean_toList_iff, String.toList_ofList]
        exact hrun
      · intro p hp
        by_cases hpieces : pieces = []
        · simp [hpieces] at hp
        · rw [List.dropLast_cons_of_ne_nil hpieces] at hp
          rcases List.mem_cons.1 hp with rfl | hp
          · exact hproper.indent_ne_empty hpieces hblank
          · exact hproper.apart p hp
    · exact congrArg (String.ofList run :: ·) hwords
    · rw [Layout.text_cons, htext, ← String.ofList_append, ← String.ofList_append]

/-- The words of a text are those of its proper layouts, of which there is one. -/
theorem words_eq_iff_layout {s : String} {ws : List String} :
    words s = ws ↔ ∃ l : Layout, l.Proper ∧ l.words = ws ∧ l.text = s := by
  rw [words_eq_iff_spread]
  constructor
  · intro h
    obtain ⟨l, hproper, hwords, htext⟩ := h.exists_layout
    exact ⟨l, hproper, by simpa using hwords, by simpa using htext⟩
  · rintro ⟨l, hproper, rfl, rfl⟩
    exact hproper.spread

/-- The words, with a separator of its own between each two neighbours. -/
def joined (sep : ℕ → String) : List String → String
  | [] => ""
  | [w] => w
  | w :: v :: ws => w ++ (sep 0 ++ joined (fun i => sep (i + 1)) (v :: ws))

theorem joined_const (sep : String) (ws : List String) :
    joined (fun _ => sep) ws = sep.intercalate ws := by
  induction ws with
  | nil => simp [joined]
  | cons w ws ih =>
    cases ws with
    | nil => simp [joined]
    | cons v ws => rw [joined, ih, String.intercalate_cons_cons, String.append_assoc]

/-- Whatever blanks stand between words, the words of the whole are the same. -/
theorem words_joined {ws : List String} (hws : ∀ w ∈ ws, w ≠ "" ∧ hasBlank w = false)
    {sep : ℕ → String} (hsep : ∀ i, sep i ≠ "" ∧ allBlank (sep i) = true) :
    words (joined sep ws) = ws := by
  rw [words_eq_iff_spread, ← wordRuns_eq_iff]
  induction ws generalizing sep with
  | nil => rfl
  | cons w ws ih =>
    obtain ⟨⟨hne, hclean⟩, hws⟩ := List.forall_mem_cons.1 hws
    have hrun : Clean w.toList := clean_toList_iff.2 hclean
    cases ws with
    | nil => exact wordRuns_of_clean (toList_ne_nil hne) hrun
    | cons v ws =>
      obtain ⟨hsome, hblank⟩ := hsep 0
      have hgap := allBlank_iff.1 hblank
      have hmore := ih hws fun i => hsep (i + 1)
      have hapart : ∀ c ∈ ((sep 0).toList ++
          (joined (fun i => sep (i + 1)) (v :: ws)).toList).head?, isBlank c = true :=
        isBlank_head?_append hgap fun _ => toList_ne_nil hsome
      rw [joined, String.toList_append, String.toList_append,
        wordRuns_run_append (toList_ne_nil hne) hrun hapart, wordRuns_gap_append hgap, hmore]
      rfl

/-- The words, put together without anything between them, are what is not blank. -/
theorem Spread.flatten_eq {ws : List (List Char)} {cs : List Char} (h : Spread ws cs) :
    ws.flatten = cs.filter fun c => !isBlank c := by
  induction h with
  | @blank gap hgap =>
    have hnone : gap.filter (fun c => !isBlank c) = [] := by simpa using hgap
    rw [hnone, List.flatten_nil]
  | @word gap run rest ws hgap _ hrun _ _ ih =>
    have hnone : gap.filter (fun c => !isBlank c) = [] := by simpa using hgap
    have hall : run.filter (fun c => !isBlank c) = run := by
      rw [List.filter_eq_self]
      intro c hc
      simp [hrun c hc]
    rw [List.filter_append, List.filter_append, hnone, hall, List.nil_append, List.flatten_cons, ih]

theorem join_words (s : String) :
    String.join (words s) = String.ofList (s.toList.filter fun c => !isBlank c) := by
  have hflat := (spread_wordRuns s.toList).flatten_eq
  rw [← String.toList_inj, String.toList_join, String.toList_ofList, ← hflat, words,
    List.flatMap_map]
  simp [List.flatMap]

/-- The words of a text are the only words that can be laid out to the text. Words with blanks of any
kind between them come back, and so do those of a text with single spaces between them; put
together without blanks they are the text without its blanks. -/
theorem words_are_laid_out (s : String) :
    (∀ ws, ws = words s ↔ ∃ l : Layout, l.Proper ∧ l.words = ws ∧ l.text = s) ∧
    (∀ (ws : List String) (sep : ℕ → String), (∀ w ∈ ws, w ≠ "" ∧ hasBlank w = false) →
      (∀ i, sep i ≠ "" ∧ allBlank (sep i) = true) → words (joined sep ws) = ws) ∧
    words (spaced (words s)) = words s ∧
    String.join (words s) = String.ofList (s.toList.filter fun c => !isBlank c) := by
  refine ⟨fun ws => ?_, fun ws sep hws hsep => words_joined hws hsep, ?_, join_words s⟩
  · rw [eq_comm]
    exact words_eq_iff_layout
  · have hspace : ∀ _ : ℕ, " " ≠ "" ∧ allBlank " " = true := fun _ => by decide
    have hwords : ∀ w ∈ words s, w ≠ "" ∧ hasBlank w = false :=
      fun w hw => ne_empty_and_clean_of_mem_words hw
    have hjoined := words_joined hwords hspace
    rw [joined_const] at hjoined
    exact hjoined

/-- The layout of a roll, with a tab, a line end and an ideographic space in its gaps. -/
def rollLayout : Layout :=
  { indent := "  ", pieces := [("roll", " \t "), ("2", "\n "), ("d", "\u3000"), ("6", "")] }

theorem rollLayout_proper : rollLayout.Proper where
  indent := by decide
  words := by decide
  gaps := by decide
  apart := by decide

theorem roll_is_laid_out_with_any_blanks :
    words "  roll \t 2\n d\u30006" = ["roll", "2", "d", "6"] ∧
    words (joined (fun i => if i = 0 then "\u00A0" else " \n") ["roll", "2", "d", "6"]) =
      ["roll", "2", "d", "6"] := by
  obtain ⟨hlayout, hjoined, -, -⟩ := words_are_laid_out "  roll \t 2\n d\u30006"
  constructor
  · exact ((hlayout _).2 ⟨rollLayout, rollLayout_proper, by decide, by decide⟩).symm
  · apply hjoined
    · decide
    · intro i
      by_cases hi : i = 0
      · rw [if_pos hi]
        decide
      · rw [if_neg hi]
        decide

end Chatline.Text
