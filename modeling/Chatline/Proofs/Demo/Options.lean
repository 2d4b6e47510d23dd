import Chatline.Demo.Basic
import Chatline.Proofs.Scan.Absorption

/-! The options of a choice: phrases with the word `or` between them are read back one by one, as
many as the choice allows. -/
namespace Chatline.Demo

/-- The additional options of a choice, at least and at most so many. -/
def moreOptionsUpTo (r : Repetition) : Group :=
  { shape := { optional := true, repetition := some r }
    children := [.leaf (.word "or"), .leaf (.text "option")] }

/-- The options of a choice with at most so many additional ones. -/
def optionsUpTo (r : Repetition) : Group :=
  { children :=
      [.leaf (.text "option"), .leaf (.word "or"), .leaf (.text "option"),
        (moreOptionsUpTo r).toNode] }

theorem optionsUpTo_eq_options {r : Repetition} (hmin : r.min = 1)
    (hmax : r.max = maxExtraOptions.toNat) : optionsUpTo r = options := by
  obtain ⟨min, max, hpos, hle, hlt⟩ := r
  dsimp only at hmin hmax
  subst hmin hmax
  rfl

/-- Words that can make up an option. -/
structure IsPhrase (ws : List String) : Prop where
  ne_nil : ws ≠ []
  ne_empty : ∀ w ∈ ws, w ≠ ""
  ne_or : ∀ w ∈ ws, w ≠ "or"

theorem isPhrase_iff {ws : List String} :
    IsPhrase ws ↔ ws ≠ [] ∧ (∀ w ∈ ws, w ≠ "") ∧ ∀ w ∈ ws, w ≠ "or" :=
  ⟨fun h => ⟨h.ne_nil, h.ne_empty, h.ne_or⟩, fun h => ⟨h.1, h.2.1, h.2.2⟩⟩

instance (ws : List String) : Decidable (IsPhrase ws) := decidable_of_iff _ isPhrase_iff.symm

/-- Phrases with the word `or` before each of them. -/
def orPhrases (phrases : List (List String)) : List String := phrases.flatMap ("or" :: ·)

theorem intercalate_or (ws : List String) (phrases : List (List String)) :
    ["or"].intercalate (ws :: phrases) = ws ++ orPhrases phrases := by
  induction phrases generalizing ws with
  | nil => simp [orPhrases]
  | cons next phrases ih =>
    rw [List.intercalate_cons_cons, ih]
    simp [orPhrases]

/-- What is read of phrases that are taken as options. -/
def optionYield (phrases : List (List String)) : Yield :=
  phrases.map fun ws => ("option", .ofWords ws)

open Scan

def orSlot : Slot := (Node.leaf (.word "or")).slot

def optionSlot : Slot := (Node.leaf (.text "option")).slot

theorem attempt_orSlot (ts : List String) :
    orSlot.attempt ts = if ts.head? = some "or" then .matched { args := ∅, consumed := 1 }
      else .noMatch := by
  cases ts with
  | nil => rfl
  | cons t ts =>
    change Leaf.attempt (.word "or") (t :: ts) = _
    by_cases h : t = "or" <;> simp [Leaf.attempt, Leaf.read, Leaf.word, h, Verdict.map]

theorem takesAnyText_option : (Leaf.text "option").TakesAnyText := ⟨rfl, rfl⟩

section
variable {f : Frame} {ts : List String} {s : State} {later : List Slot}

/-- Accepting the word `or` reads nothing. -/
theorem accept_or (htodo : s.todo = orSlot :: later) (hlater : later ≠ []) :
    accept f orSlot { args := ∅, consumed := 1 } s =
      { s with pos := s.pos + 1, done := orSlot :: s.done, todo := later } := by
  rw [accept_of_none rfl, Args.merge_empty]
  exact advance_of_ne_nil htodo hlater

theorem IsPhrase.head_ne_or {ws : List String} (h : IsPhrase ws) {front back : List String}
    (hsplit : ws = front ++ back) (hback : back ≠ []) (rest : List String) :
    (back ++ rest).head? ≠ some "or" := by
  obtain ⟨w, back, rfl⟩ := List.exists_cons_of_ne_nil hback
  have hw : w ≠ "or" := h.ne_or w (by simp [hsplit])
  simpa using hw

/-- An option that the word `or` may end takes all words of a phrase. -/
theorem run_option (htodo : s.todo = optionSlot :: later) (hidle : s.absorbing = none)
    {ws rest : List String} (hws : IsPhrase ws) (hts : ts.drop s.pos = ws ++ rest)
    (hrival : rival? f { leaf := .text "option", start := s.pos } later = some orSlot) :
    run f ts s = run f ts (s.taking (.text "option") ws) := by
  refine run_text htodo hidle hws.ne_nil hts (takesAnyText_option.takes hws.ne_empty) ?_
  intro front back hsplit _ hback rival hmem
  obtain rfl : orSlot = rival := Option.some_inj.1 (hrival.symm.trans hmem)
  rw [attempt_orSlot, if_neg (hws.head_ne_or hsplit hback rest)]
  exact not_false

/-- The word `or` ends an option. -/
theorem run_taking_or (htodo : s.todo = optionSlot :: later) {ws rest : List String}
    (hts : ts.drop s.pos = ws ++ "or" :: rest)
    (hrival : rival? f { leaf := .text "option", start := s.pos } later = some orSlot) :
    run f ts (s.taking (.text "option") ws) =
      run f ts (takeOver f orSlot { args := ∅, consumed := 1 } (s.taking (.text "option") ws)) := by
  have hor : orSlot.attempt ("or" :: rest) = .matched { args := ∅, consumed := 1 } := by
    rw [attempt_orSlot]
    rfl
  rw [run_takeOver htodo (List.cons_ne_nil "or" rest) hts hrival (by rw [hor]; exact Nat.one_pos),
    hor]
  rfl

end

section
variable {r : Repetition} {ts ws : List String} {phrases : List (List String)} {s : State}

/-- The word `or` before an additional option has just been taken. -/
structure AfterOr (r : Repetition) (s : State) : Prop where
  todo : s.todo = [optionSlot]
  idle : s.absorbing = none
  room : s.passes < r.max
  begun : s.passStart < s.pos

/-- The state after an option that is not the last one allowed and the word `or` behind it. -/
def again (r : Repetition) (ws : List String) (s : State) : State :=
  { s.anew (moreOptionsUpTo r).frame (.text "option") ws with
    pos := s.pos + ws.length + 1
    done := [orSlot]
    todo := [optionSlot] }

theorem AfterOr.again (hmore : s.passes + 1 < r.max) : AfterOr r (again r ws s) :=
  ⟨rfl, rfl, hmore, Nat.lt_succ_self _⟩

theorem drop_again {rest : List String} (hts : ts.drop s.pos = ws ++ "or" :: rest) :
    ts.drop (again r ws s).pos = rest := by
  have hor := drop_taking (.text "option") hts
  change ts.drop (s.pos + ws.length + 1) = _
  rw [← List.drop_drop]
  exact congrArg (List.drop 1) hor

theorem AfterOr.takeOver_eq (hs : AfterOr r s) (hmore : s.passes + 1 < r.max) :
    takeOver (moreOptionsUpTo r).frame orSlot { args := ∅, consumed := 1 }
      (s.taking (.text "option") ws) = Demo.again r ws s := by
  have hslots : (moreOptionsUpTo r).frame.slots = [orSlot, optionSlot] := rfl
  have hmax : s.passes + 1 < (moreOptionsUpTo r).frame.shape.maxPasses := hmore
  have hbegun : s.passStart < s.pos + ws.length := Nat.lt_add_right _ hs.begun
  rw [takeOver_anew hs.todo hmax hbegun (by simp [hslots])]
  exact accept_or hslots (by simp)

/-- From an additional option on, as many phrases are read as there are passes left. -/
theorem run_moreOptions (hmin : r.min = 1) (hs : AfterOr r s) (hws : IsPhrase ws)
    (hphrases : ∀ p ∈ phrases, IsPhrase p) (hts : ts.drop s.pos = ws ++ orPhrases phrases) :
    run (moreOptionsUpTo r).frame ts s = .matched
      { args := s.args.record (optionYield (ws :: phrases.take (r.max - s.passes - 1)))
        consumed := s.pos + (ws ++ orPhrases (phrases.take (r.max - s.passes - 1))).length } := by
  have hrival : ∀ start, rival? (moreOptionsUpTo r).frame { leaf := .text "option", start } [] =
      some orSlot := fun _ => rfl
  have henough : ∀ passes, (moreOptionsUpTo r).frame.shape.minPasses ≤ passes + 1 := by
    intro passes
    change r.min ≤ passes + 1
    omega
  induction phrases generalizing s ws with
  | nil =>
    have hall : ts.drop s.pos = ws := by simpa [orPhrases] using hts
    rw [run_option hs.todo hs.idle hws hts (hrival _), run_taking_last hs.todo hall (henough _)]
    simp [optionYield, orPhrases, Args.record, Leaf.text, Leaf.ofMatcher]
  | cons next phrases ih =>
    obtain ⟨hnext, hlater⟩ := List.forall_mem_cons.1 hphrases
    have hor : ts.drop s.pos = ws ++ "or" :: (next ++ orPhrases phrases) := hts
    rw [run_option hs.todo hs.idle hws hts (hrival _), run_taking_or hs.todo hor (hrival _)]
    by_cases hlast : r.max ≤ s.passes + 1
    · have hnone : r.max - s.passes - 1 = 0 := by omega
      have hmax : (moreOptionsUpTo r).frame.shape.maxPasses ≤ s.passes + 1 := hlast
      rw [run_takeOver_last hs.todo hmax (henough _), hnone]
      simp [optionYield, orPhrases, Args.record, Leaf.text, Leaf.ofMatcher]
    · have hmore : s.passes + 1 < r.max := Nat.lt_of_not_le hlast
      have hroom : r.max - s.passes - 1 = r.max - (s.passes + 1) - 1 + 1 := by omega
      have hpasses : (again r ws s).passes = s.passes + 1 := rfl
      rw [hs.takeOver_eq hmore, ih (AfterOr.again hmore) hnext hlater (drop_again hor), hpasses,
        hroom, List.take_succ_cons]
      refine congrArg Verdict.matched (congrArg (Found.mk _) ?_)
      simp only [again, orPhrases, List.flatMap_cons, List.length_append, List.length_cons]
      omega

/-- The state after the first word `or`. -/
def begun (r : Repetition) : State :=
  { start (moreOptionsUpTo r).frame with pos := 1, done := [orSlot], todo := [optionSlot] }

theorem afterOr_begun (r : Repetition) : AfterOr r (begun r) :=
  ⟨rfl, rfl, r.max_pos, Nat.one_pos⟩

/-- Of phrases behind the word `or`, as many are read as the choice allows. -/
theorem matchPrefix_moreOptions (hmin : r.min = 1) (hws : IsPhrase ws)
    (hphrases : ∀ p ∈ phrases, IsPhrase p) :
    (moreOptionsUpTo r).matchPrefix (orPhrases (ws :: phrases)) = .matched
      { args := (moreOptionsUpTo r).seed.record (optionYield ((ws :: phrases).take r.max))
        consumed := (orPhrases ((ws :: phrases).take r.max)).length } := by
  have htodo : (start (moreOptionsUpTo r).frame).todo = [orSlot, optionSlot] := rfl
  have hor : orSlot.attempt (orPhrases (ws :: phrases)) =
      .matched { args := ∅, consumed := 1 } := by
    rw [attempt_orSlot]
    rfl
  have hstep : step (moreOptionsUpTo r).frame (orPhrases (ws :: phrases))
      (start (moreOptionsUpTo r).frame) = .matched (begun r) := by
    have htake : step (moreOptionsUpTo r).frame (orPhrases (ws :: phrases))
        (start (moreOptionsUpTo r).frame) = .matched (accept _ orSlot _ _) :=
      step_of_matched htodo rfl hor
    rw [htake, accept_or htodo (by simp)]
    rfl
  have hfirst : (ws :: phrases).take r.max = ws :: phrases.take (r.max - (begun r).passes - 1) :=
    List.take_cons r.max_pos
  rw [Group.matchPrefix_of_children_ne_nil (by simp [moreOptionsUpTo]),
    run_of_lt (Nat.succ_pos _), hstep]
  dsimp only
  rw [run_moreOptions hmin (afterOr_begun r) hws hphrases rfl, hfirst]
  refine congrArg Verdict.matched (congrArg (Found.mk _) ?_)
  simp only [begun, orPhrases, List.flatMap_cons, List.length_append, List.length_cons]
  omega

/-- Without the word `or` there are no additional options. -/
theorem matchPrefix_moreOptions_of_ne (hmin : r.min = 1) (hts : ts.head? ≠ some "or") :
    (moreOptionsUpTo r).matchPrefix ts = .noMatch := by
  have htodo : (start (moreOptionsUpTo r).frame).todo = [orSlot, optionSlot] := rfl
  have hsettle : settle (moreOptionsUpTo r).frame (start (moreOptionsUpTo r).frame) = .noMatch := by
    refine if_neg ?_
    change ¬ r.min ≤ 0
    omega
  rw [Group.matchPrefix_of_children_ne_nil (by simp [moreOptionsUpTo])]
  cases ts with
  | nil =>
    have hdrain : drain (moreOptionsUpTo r).frame (start (moreOptionsUpTo r).frame) =
        .matched (start (moreOptionsUpTo r).frame) := rfl
    rw [run_of_le (Nat.zero_le _), hdrain]
    exact hsettle
  | cons t ts =>
    have hor : orSlot.attempt (t :: ts) = .noMatch := by
      rw [attempt_orSlot, if_neg hts]
    have hstep : step (moreOptionsUpTo r).frame (t :: ts) (start (moreOptionsUpTo r).frame) =
        .noMatch :=
      step_of_noMatch htodo rfl hor
    rw [run_of_lt (Nat.succ_pos _), hstep]
    exact hsettle

def moreSlot (r : Repetition) : Slot := (moreOptionsUpTo r).toNode.slot

theorem attempt_moreSlot (ts : List String) :
    (moreSlot r).attempt ts = (moreOptionsUpTo r).matchPrefix ts :=
  (moreOptionsUpTo r).attempt_toNode ts

/-- No word of a phrase is seized for additional options. -/
theorem IsPhrase.not_seizes_more (hmin : r.min = 1) (h : IsPhrase ws) {front back : List String}
    (hsplit : ws = front ++ back) (hback : back ≠ []) (rest : List String) :
    ¬ Seizes ((moreSlot r).attempt (back ++ rest)) := by
  rw [attempt_moreSlot, matchPrefix_moreOptions_of_ne hmin (h.head_ne_or hsplit hback rest)]
  exact not_false

/-- The state after the first option and the word `or` behind it. -/
def second (r : Repetition) (ws : List String) : State :=
  { (start (optionsUpTo r).frame).taken (.text "option") ws with
    pos := 0 + ws.length + 1
    done := [orSlot, optionSlot]
    todo := [optionSlot, moreSlot r] }

theorem beforeLast_second (r : Repetition) (ws : List String) :
    BeforeLast (optionsUpTo r).frame (.text "option") (moreSlot r) (second r ws) :=
  ⟨rfl, rfl, Nat.le_refl 1, Nat.le_refl 1⟩

theorem matchPrefix_one_option (hws : IsPhrase ws) : (optionsUpTo r).matchPrefix ws = .noMatch := by
  have htodo : (start (optionsUpTo r).frame).todo =
      [optionSlot, orSlot, optionSlot, moreSlot r] := rfl
  have hall : ws.drop (start (optionsUpTo r).frame).pos = ws := rfl
  rw [Group.matchPrefix_of_children_ne_nil (by simp [optionsUpTo]),
    run_option htodo rfl hws (hall.trans (List.append_nil ws).symm) rfl, run_taking_all hall,
    drain_past htodo (by simp)]
  rfl

theorem run_second {rest : List String} (hws : IsPhrase ws) :
    run (optionsUpTo r).frame (ws ++ "or" :: rest) (start (optionsUpTo r).frame) =
      run (optionsUpTo r).frame (ws ++ "or" :: rest) (second r ws) := by
  have htodo : (start (optionsUpTo r).frame).todo =
      [optionSlot, orSlot, optionSlot, moreSlot r] := rfl
  have hts : (ws ++ "or" :: rest).drop (start (optionsUpTo r).frame).pos = ws ++ "or" :: rest := rfl
  rw [run_option htodo rfl hws hts rfl, run_taking_or htodo hts rfl, takeOver_past htodo (by simp),
    accept_or rfl (by simp)]
  rfl

/-- The second option takes all words of the last phrase. -/
theorem run_second_last (hmin : r.min = 1) {next : List String} (hnext : IsPhrase next)
    (hts : ts.drop (second r ws).pos = next) : run (optionsUpTo r).frame ts (second r ws) = .matched
      { args := (second r ws).args.push "option" (.ofWords next)
        consumed := (second r ws).pos + next.length } := by
  have hfree : ∀ front back, next = front ++ back → front ≠ [] → back ≠ [] →
      ¬ Seizes ((moreSlot r).attempt back) := by
    intro front back hsplit _ hback
    rw [← List.append_nil back]
    exact hnext.not_seizes_more hmin hsplit hback []
  have hblank : (moreSlot r).attempt [] = .noMatch := by
    rw [attempt_moreSlot]
    exact matchPrefix_moreOptions_of_ne hmin (by simp)
  rw [(beforeLast_second r ws).run_keeps takesAnyText_option hts hnext.ne_nil hnext.ne_empty
    (.inr hfree), hblank]
  rfl

/-- The second option ends at the next word `or`, where the additional options begin. -/
theorem run_second_more (hmin : r.min = 1) {next p : List String} (hnext : IsPhrase next)
    (hphrases : ∀ q ∈ p :: phrases, IsPhrase q)
    (hts : ts.drop (second r ws).pos = next ++ orPhrases (p :: phrases)) :
    run (optionsUpTo r).frame ts (second r ws) = .matched
      { args := ((second r ws).args.push "option" (.ofWords next)).record
          (optionYield ((p :: phrases).take r.max))
        consumed := (second r ws).pos + next.length +
          (orPhrases ((p :: phrases).take r.max)).length } := by
  obtain ⟨hp, hlater⟩ := List.forall_mem_cons.1 hphrases
  have hfree : ∀ front back, next = front ++ back → front ≠ [] → back ≠ [] →
      ¬ Seizes ((moreSlot r).attempt (back ++ orPhrases (p :: phrases))) :=
    fun _ _ hsplit _ hback => hnext.not_seizes_more hmin hsplit hback _
  have hmore : (moreSlot r).attempt (orPhrases (p :: phrases)) = _ :=
    (attempt_moreSlot _).trans (matchPrefix_moreOptions hmin hp hlater)
  have hseizes : Seizes ((moreSlot r).attempt (orPhrases (p :: phrases))) := by
    rw [hmore, List.take_cons r.max_pos]
    exact Nat.succ_pos _
  have hseed : (moreOptionsUpTo r).seed = Args.ofNames ["option"] := rfl
  rw [(beforeLast_second r ws).run_yields takesAnyText_option rfl (Int.le_refl 0) hts hnext.ne_nil
    hnext.ne_empty (List.cons_ne_nil "or" _) hseizes hfree, hmore, hseed]
  dsimp only [Verdict.map]
  rw [Args.merge_record (by simp [Leaf.text, Leaf.ofMatcher])]
  rfl

theorem matchPrefix_options (hmin : r.min = 1) (hws : IsPhrase ws) {next : List String}
    (hnext : IsPhrase next) (hphrases : ∀ p ∈ phrases, IsPhrase p) :
    (optionsUpTo r).matchPrefix (ws ++ orPhrases (next :: phrases)) = .matched
      { args := (optionsUpTo r).seed.record (optionYield (ws :: next :: phrases.take r.max))
        consumed := (ws ++ orPhrases (next :: phrases.take r.max)).length } := by
  have hts : (ws ++ "or" :: (next ++ orPhrases phrases)).drop (second r ws).pos =
      next ++ orPhrases phrases := by
    rw [List.append_cons]
    exact List.drop_left' (by simp [second])
  change (optionsUpTo r).matchPrefix (ws ++ "or" :: (next ++ orPhrases phrases)) = _
  rw [Group.matchPrefix_of_children_ne_nil (by simp [optionsUpTo]), run_second hws]
  cases phrases with
  | nil =>
    rw [run_second_last hmin hnext (hts.trans (List.append_nil next)), List.take_nil]
    refine congrArg Verdict.matched (congrArg (Found.mk _) ?_)
    simp only [second, orPhrases, List.flatMap_cons, List.flatMap_nil, List.length_append,
      List.length_cons, List.length_nil]
    omega
  | cons p phrases =>
    rw [run_second_more hmin hnext hphrases hts]
    refine congrArg Verdict.matched (congrArg (Found.mk _) ?_)
    simp only [second, orPhrases, List.flatMap_cons, List.length_append, List.length_cons]
    omega

theorem length_orPhrases_take {n : Nat} (hn : n < phrases.length) :
    (orPhrases (phrases.take n)).length < (orPhrases phrases).length := by
  have hne : phrases.drop n ≠ [] := fun hnil => Nat.not_le_of_lt hn (List.drop_eq_nil_iff.1 hnil)
  obtain ⟨p, rest, hrest⟩ := List.exists_cons_of_ne_nil hne
  have hsplit : orPhrases phrases = orPhrases (phrases.take n) ++ orPhrases (p :: rest) := by
    unfold orPhrases
    rw [← hrest, ← List.flatMap_append, List.take_append_drop]
  rw [hsplit, List.length_append]
  exact Nat.lt_add_of_pos_right (Nat.succ_pos _)

theorem matchTokens_options (hmin : r.min = 1) {next : List String}
    (hphrases : ∀ p ∈ ws :: next :: phrases, IsPhrase p) :
    (optionsUpTo r).matchTokens (["or"].intercalate (ws :: next :: phrases)) =
      if r.max < phrases.length then .noMatch
      else .matched ((optionsUpTo r).seed.record (optionYield (ws :: next :: phrases))) := by
  obtain ⟨hws, hrest⟩ := List.forall_mem_cons.1 hphrases
  obtain ⟨hnext, hlater⟩ := List.forall_mem_cons.1 hrest
  unfold Group.matchTokens
  rw [intercalate_or, matchPrefix_options hmin hws hnext hlater]
  dsimp only [Verdict.bind]
  by_cases hmany : r.max < phrases.length
  · have hshort := length_orPhrases_take hmany
    rw [if_pos hmany, if_pos]
    simp only [orPhrases, List.flatMap_cons, List.length_append] at hshort ⊢
    omega
  · rw [if_neg hmany, List.take_of_length_le (Nat.le_of_not_lt hmany), if_neg (Nat.lt_irrefl _)]
    rfl

theorem valuesOf_options : ((optionsUpTo r).seed.record (optionYield phrases)).valuesOf "option" =
    phrases.map fun ws => .text (Text.spaced ws) := by
  have hunder : Yield.under "option" (optionYield phrases) = phrases.map Reading.ofWords := by
    simp [Yield.under, optionYield, List.filter_map, Function.comp_def]
  unfold Args.valuesOf
  rw [Args.readings_record, hunder]
  simp [Group.seed, Reading.ofWords]

/-- Phrases with the word `or` between them are read as these phrases, in their order, if there
are at least two of them and at most two more than the additional options that are allowed. A
single phrase does not match, and neither do more phrases. With twenty additional options these
are the options of the choice. -/
theorem options_round_trip (hmin : r.min = 1) (hphrases : ∀ ws ∈ phrases, IsPhrase ws) :
    (2 ≤ phrases.length ∧ phrases.length ≤ r.max + 2 →
      ∃ args, (optionsUpTo r).matchTokens (["or"].intercalate phrases) = .matched args ∧
        args.valuesOf "option" = phrases.map fun ws => .text (Text.spaced ws)) ∧
    (phrases.length = 1 ∨ r.max + 2 < phrases.length →
      (optionsUpTo r).matchTokens (["or"].intercalate phrases) = .noMatch) ∧
    (r.max = maxExtraOptions.toNat → optionsUpTo r = options) := by
  refine ⟨fun ⟨hfew, hmany⟩ => ?_, fun hlength => ?_, optionsUpTo_eq_options hmin⟩
  · match phrases, hphrases with
    | [], _ => simp at hfew
    | [_], _ => simp at hfew
    | ws :: next :: phrases, hphrases =>
      have hle : ¬ r.max < phrases.length := by
        simp only [List.length_cons] at hmany
        omega
      have hmatched := matchTokens_options hmin hphrases
      rw [if_neg hle] at hmatched
      exact ⟨_, hmatched, valuesOf_options⟩
  · match phrases, hphrases with
    | [], _ => simp at hlength
    | [ws], hphrases =>
      have hone : ["or"].intercalate [ws] = ws := List.append_nil ws
      unfold Group.matchTokens
      rw [hone, matchPrefix_one_option (hphrases ws List.mem_cons_self)]
      rfl
    | ws :: next :: phrases, hphrases =>
      have hlt : r.max < phrases.length := by
        simp only [List.length_cons] at hlength
        omega
      rw [matchTokens_options hmin hphrases, if_pos hlt]

end

/-- One additional option. -/
def oneMore : Repetition :=
  { min := 1
    max := 1
    max_pos := Nat.one_pos
    min_le_max := by decide
    max_lt := (by decide : 1 < 2 ^ 32) }

theorem three_options_fit_and_four_do_not :
    (∃ args, (optionsUpTo oneMore).matchTokens ["go", "out", "or", "stay", "or", "sleep"] =
        .matched args ∧
      args.valuesOf "option" = [.text "go out", .text "stay", .text "sleep"]) ∧
    (optionsUpTo oneMore).matchTokens ["go", "out", "or", "stay", "or", "sleep", "or", "eat"] =
      .noMatch := by
  have hthree : ∀ ws ∈ [["go", "out"], ["stay"], ["sleep"]], IsPhrase ws := by decide
  have hfour : ∀ ws ∈ [["go", "out"], ["stay"], ["sleep"], ["eat"]], IsPhrase ws := by decide
  obtain ⟨hfit, -, -⟩ := options_round_trip (r := oneMore) rfl hthree
  obtain ⟨-, hrefused, -⟩ := options_round_trip (r := oneMore) rfl hfour
  exact ⟨hfit ⟨by decide, by decide⟩, hrefused (.inr (by decide))⟩

end Chatline.Demo
