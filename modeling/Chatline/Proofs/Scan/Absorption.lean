import Chatline.Proofs.Grammar.Soundness

/-! A leaf that takes any text, in a scan: it takes one token after the other, until the slot that
comes next seizes one or the tokens are used up. -/
namespace Chatline

theorem Text.spaced_ne_empty {ws : List String} (hne : ws ≠ []) (hws : ∀ w ∈ ws, w ≠ "") :
    Text.spaced ws ≠ "" := by
  cases ws with
  | nil => exact absurd rfl hne
  | cons w ws =>
    have hw : w ≠ "" := hws w List.mem_cons_self
    by_cases hnil : ws = []
    · rw [hnil]
      exact hw
    · unfold spaced
      rw [String.intercalate_cons_of_ne_nil hnil]
      simp [hw]

/-- What a leaf reads that takes tokens as a text. -/
def Reading.ofWords (ws : List String) : Reading := ⟨.text (Text.spaced ws), .text⟩

/-- The leaf reads these words as a text, and every beginning of them. -/
structure Leaf.Takes (l : Leaf) (ws : List String) : Prop where
  greedy : l.isGreedy = true
  read : ∀ front, front <+: ws → front ≠ [] →
    l.read (Text.spaced front) = .matched (.ofWords front)

namespace Leaf.Takes

variable {leaf : Leaf} {ws front : List String}

theorem of_prefix (hleaf : leaf.Takes ws) (hfront : front <+: ws) : leaf.Takes front :=
  ⟨hleaf.greedy, fun start hstart => hleaf.read start (hstart.trans hfront)⟩

theorem attempt_cons {w : String} (hleaf : leaf.Takes [w]) (ts : List String) :
    leaf.attempt (w :: ts) =
      .matched { args := Args.single leaf.name (.ofWords [w]), consumed := 1 } := by
  have hread := hleaf.read [w] List.prefix_rfl (List.cons_ne_nil w [])
  rw [Text.spaced_singleton] at hread
  unfold Leaf.attempt
  dsimp only
  rw [hread, literal_of_isGreedy hleaf.greedy]
  rfl

theorem greedyLeaf? (hleaf : leaf.Takes ws) : (Node.leaf leaf).greedyLeaf? = some leaf :=
  if_pos hleaf.greedy

end Leaf.Takes

/-- The leaf reads every span that is not empty as a text, however long it is. -/
structure Leaf.TakesAnyText (l : Leaf) : Prop where
  not_literal : l.literal = false
  first_matcher : l.matchers.head? = some .anyText

theorem Leaf.TakesAnyText.takes {leaf : Leaf} (hleaf : leaf.TakesAnyText) {ws : List String}
    (hws : ∀ w ∈ ws, w ≠ "") : leaf.Takes ws := by
  obtain ⟨ms, hms⟩ := List.head?_eq_some_iff.1 hleaf.first_matcher
  constructor
  · simp [isGreedy, hleaf.not_literal, hms, Matcher.anyText, Matcher.isGreedy]
  · intro front hfront hne
    have hspan : (Text.spaced front).isEmpty = false := by
      simpa using Text.spaced_ne_empty hne fun w hw => hws w (hfront.subset hw)
    unfold Leaf.read
    rw [if_neg (by simp [hleaf.not_literal]), hms]
    simp [readFirst, Matcher.anyText, Matcher.read, Matcher.readText, hspan, Verdict.map,
      Verdict.mapInvalid, Verdict.orElse, Reading.ofWords, Matcher.kind]

namespace Scan

/-- The answer takes the token at hand: it is a failure, or a match of one token or more. -/
def Seizes : Verdict Failure Found → Prop
  | .matched found => 0 < found.consumed
  | .noMatch => False
  | .invalid _ => True

instance : DecidablePred Seizes
  | .matched found => inferInstanceAs (Decidable (0 < found.consumed))
  | .noMatch => inferInstanceAs (Decidable False)
  | .invalid _ => inferInstanceAs (Decidable True)

/-- The state in which a leaf has taken these words. -/
def State.taken (leaf : Leaf) (ws : List String) (s : State) : State :=
  { s with
    args := s.args.push leaf.name (.ofWords ws)
    pos := s.pos + ws.length
    absorbing := none }

/-- The state in which a leaf has taken these words and may take more. -/
def State.taking (leaf : Leaf) (ws : List String) (s : State) : State :=
  { s.taken leaf ws with absorbing := some { leaf, start := s.pos } }

variable {f : Frame} {ts : List String} {s : State} {slot : Slot} {later : List Slot}

theorem pos_lt_of_drop {rest : List String} (hts : ts.drop s.pos = rest) (hne : rest ≠ []) :
    s.pos < ts.length := by
  refine Nat.lt_of_not_le fun hle => hne ?_
  rw [← hts, List.drop_eq_nil_iff]
  exact hle

theorem drop_taking (leaf : Leaf) {ws rest : List String} (hts : ts.drop s.pos = ws ++ rest) :
    ts.drop (s.taking leaf ws).pos = rest := by
  change ts.drop (s.pos + ws.length) = _
  rw [← List.drop_drop, hts, List.drop_left]

theorem step_of_matched (htodo : s.todo = slot :: later) (hidle : s.absorbing = none)
    {found : Found} (hfound : slot.attempt (ts.drop s.pos) = .matched found) :
    step f ts s = .matched (accept f slot found s) := by
  unfold step
  simp only [htodo, hidle, hfound]

theorem step_of_noMatch (htodo : s.todo = slot :: later) (hidle : s.absorbing = none)
    (hno : slot.attempt (ts.drop s.pos) = .noMatch) : step f ts s = recover f ts slot later s := by
  unfold step
  simp only [htodo, hidle, hno]

theorem step_of_invalid (htodo : s.todo = slot :: later) (hidle : s.absorbing = none) {e : Failure}
    (hbad : slot.attempt (ts.drop s.pos) = .invalid e) : step f ts s = .invalid e := by
  unfold step
  simp only [htodo, hidle, hbad]

theorem step_taking (leaf : Leaf) (htodo : s.todo = slot :: later) (ws : List String) :
    step f ts (s.taking leaf ws) =
      absorb f ts { leaf, start := s.pos } later (s.taking leaf ws) := by
  unfold step State.taking State.taken
  simp only [htodo]

theorem absorb_of_seizes {a : Absorbing} {rival : Slot} (hrival : rival? f a later = some rival)
    (hseizes : Seizes (rival.attempt (ts.drop s.pos))) : absorb f ts a later s =
      (rival.attempt (ts.drop s.pos)).map fun found => takeOver f rival found s := by
  unfold absorb
  rw [hrival]
  dsimp only
  cases hanswer : rival.attempt (ts.drop s.pos) with
  | matched found =>
    rw [hanswer] at hseizes
    exact if_neg (Nat.ne_of_gt hseizes)
  | noMatch =>
    rw [hanswer] at hseizes
    exact hseizes.elim
  | invalid e => rfl

theorem absorb_of_not_seizes {a : Absorbing}
    (hfree : ∀ rival ∈ rival? f a later, ¬ Seizes (rival.attempt (ts.drop s.pos))) :
    absorb f ts a later s = widen f ts a s := by
  unfold absorb
  cases hrival : rival? f a later with
  | none => rfl
  | some rival =>
    have hno := hfree rival hrival
    dsimp only
    cases hanswer : rival.attempt (ts.drop s.pos) with
    | matched found =>
      rw [hanswer] at hno
      exact if_pos (Nat.eq_zero_of_not_pos hno)
    | noMatch => rfl
    | invalid e =>
      rw [hanswer] at hno
      exact absurd trivial hno

theorem absorb_of_unrivalled {a : Absorbing} (hrival : Unrivalled f ts a later s) :
    absorb f ts a later s = widen f ts a s := by
  refine absorb_of_not_seizes fun rival hr hseizes => ?_
  rcases hrival rival hr with hno | ⟨found, hfound, hzero⟩
  · rw [hno] at hseizes
    exact hseizes
  · rw [hfound] at hseizes
    exact Nat.ne_of_gt hseizes hzero

/-- Every move is a step. -/
theorem step_of_move {s' : State} (hm : Move f ts s s') : step f ts s = .matched s' := by
  have hheld : ∀ {slot later a}, s.todo = slot :: later → s.absorbing = some a →
      step f ts s = absorb f ts a later s := by
    intro slot later a htodo habs
    unfold step
    simp only [htodo, habs]
  cases hm with
  | take htodo hidle hfound => exact step_of_matched htodo hidle hfound
  | promote htodo hidle hflex hno hpick =>
    rw [step_of_noMatch htodo hidle hno]
    unfold recover
    rw [if_pos hflex, hpick]
  | @skip slot later htodo hidle hno hstay hskip =>
    have hleft : skip f slot s = .matched (advance f s) := if_pos hskip
    rw [step_of_noMatch htodo hidle hno]
    unfold recover
    split
    · rename_i hflex
      rw [hstay hflex]
      exact hleft
    · exact hleft
  | widen htodo habs hrival hread =>
    rw [hheld htodo habs, absorb_of_unrivalled hrival]
    unfold Scan.widen
    rw [hread]
  | close htodo habs hrival hread =>
    rw [hheld htodo habs, absorb_of_unrivalled hrival]
    unfold Scan.widen
    rw [hread]
  | yield htodo habs hrival hfound hsome =>
    have hseizes : Seizes (Verdict.matched _) := Nat.pos_of_ne_zero hsome
    rw [hheld htodo habs, absorb_of_seizes hrival (hfound ▸ hseizes), hfound]
    rfl

theorem release_of_idle {f : Frame} {s : State} (h : s.absorbing = none) : release f s = s := by
  simp [release, h]

theorem drain_of_idle (hidle : s.absorbing = none) :
    drain f s = if underWay s then drainSlots f s.todo s else .matched s := by
  unfold drain
  rw [release_of_idle hidle]

theorem drain_finished (htodo : s.todo = []) (hidle : s.absorbing = none) :
    drain f s = .matched s := by
  rw [drain_of_idle hidle, htodo]
  exact ite_self _

theorem run_finished (htodo : s.todo = []) (hidle : s.absorbing = none) :
    run f ts s = settle f s := by
  by_cases hpos : s.pos < ts.length
  · have hstep : step f ts s = .noMatch := by
      unfold step
      rw [htodo]
    rw [run_of_lt hpos, hstep]
  · rw [run_of_le (Nat.le_of_not_lt hpos), drain_finished htodo hidle]
    rfl

section
variable {leaf : Leaf}

theorem step_text (htodo : s.todo = (Node.leaf leaf).slot :: later) (hidle : s.absorbing = none)
    {w : String} (hleaf : leaf.Takes [w]) {rest : List String} (hts : ts.drop s.pos = w :: rest) :
    step f ts s = .matched (s.taking leaf [w]) := by
  have hattempt : (Node.leaf leaf).slot.attempt (ts.drop s.pos) =
      .matched { args := Args.single leaf.name (.ofWords [w]), consumed := 1 } := by
    rw [hts]
    exact hleaf.attempt_cons rest
  rw [step_of_matched htodo hidle hattempt, accept_greedy hleaf.greedyLeaf?, Args.merge_single]
  rfl

theorem widened_taking {ws : List String} {w : String} {rest : List String}
    (hts : ts.drop s.pos = ws ++ w :: rest) :
    widened ts { leaf, start := s.pos } (s.taking leaf ws) = Text.spaced (ws ++ [w]) := by
  have hlength : s.pos + ws.length + 1 - s.pos = (ws ++ [w]).length := by
    rw [List.length_append, List.length_singleton]
    omega
  unfold widened State.taking State.taken
  dsimp only
  rw [hts, hlength, List.append_cons ws w rest, List.take_left]

theorem widen_taking {ws : List String} {w : String} {rest : List String}
    (hts : ts.drop s.pos = ws ++ w :: rest) (hleaf : leaf.Takes (ws ++ [w])) :
    widen f ts { leaf, start := s.pos } (s.taking leaf ws) =
      .matched (s.taking leaf (ws ++ [w])) := by
  have hread := hleaf.read (ws ++ [w]) List.prefix_rfl (by simp)
  unfold widen
  rw [widened_taking hts, hread]
  simp only [State.taking, State.taken, Args.replaceLast_push, List.length_append,
    List.length_singleton, Nat.add_assoc]

/-- A leaf that has words takes those that follow them, as long as its rival seizes none. -/
theorem run_taking (htodo : s.todo = slot :: later) {ws more rest : List String}
    (hts : ts.drop s.pos = ws ++ (more ++ rest)) (hleaf : leaf.Takes (ws ++ more))
    (hfree : ∀ front back, more = front ++ back → back ≠ [] →
      ∀ rival ∈ rival? f { leaf, start := s.pos } later, ¬ Seizes (rival.attempt (back ++ rest))) :
    run f ts (s.taking leaf ws) = run f ts (s.taking leaf (ws ++ more)) := by
  induction more generalizing ws with
  | nil => rw [List.append_nil]
  | cons w more ih =>
    have hdrop := drop_taking leaf hts
    have hall : leaf.Takes (ws ++ [w] ++ more) := by simpa using hleaf
    have hfirst : leaf.Takes (ws ++ [w]) := hall.of_prefix (List.prefix_append _ _)
    have habsorb : absorb f ts { leaf, start := s.pos } later (s.taking leaf ws) =
        widen f ts { leaf, start := s.pos } (s.taking leaf ws) := by
      refine absorb_of_not_seizes fun rival hrival => ?_
      rw [hdrop]
      exact hfree [] (w :: more) rfl (List.cons_ne_nil w more) rival hrival
    have hmore : run f ts (s.taking leaf (ws ++ [w])) =
        run f ts (s.taking leaf (ws ++ [w] ++ more)) :=
      ih (by rw [hts]; simp) hall
        fun front back hsplit => hfree (w :: front) back (by rw [hsplit]; rfl)
    rw [run_of_lt (pos_lt_of_drop hdrop (by simp)), step_taking leaf htodo, habsorb,
      widen_taking hts hfirst]
    dsimp only
    rw [hmore, List.append_assoc, List.singleton_append]

/-- A leaf takes all words up to the first one that its rival seizes. -/
theorem run_text (htodo : s.todo = (Node.leaf leaf).slot :: later) (hidle : s.absorbing = none)
    {ws rest : List String} (hne : ws ≠ []) (hts : ts.drop s.pos = ws ++ rest)
    (hleaf : leaf.Takes ws)
    (hfree : ∀ front back, ws = front ++ back → front ≠ [] → back ≠ [] →
      ∀ rival ∈ rival? f { leaf, start := s.pos } later, ¬ Seizes (rival.attempt (back ++ rest))) :
    run f ts s = run f ts (s.taking leaf ws) := by
  obtain ⟨w, ws, rfl⟩ := List.exists_cons_of_ne_nil hne
  have hstep : step f ts s = .matched (s.taking leaf [w]) :=
    step_text htodo hidle (hleaf.of_prefix (by simp)) hts
  have hmore : run f ts (s.taking leaf [w]) = run f ts (s.taking leaf ([w] ++ ws)) :=
    run_taking htodo hts hleaf
      fun front back hws => hfree (w :: front) back (by rw [hws]; rfl) (List.cons_ne_nil w front)
  rw [run_of_lt (pos_lt_of_drop hts (by simp)), hstep]
  exact hmore

end

section
variable {leaf : Leaf} {ws : List String}

/-- The first word that the rival of a leaf seizes ends the leaf. -/
theorem run_takeOver (htodo : s.todo = slot :: later) {rest : List String} (hne : rest ≠ [])
    (hts : ts.drop s.pos = ws ++ rest) {rival : Slot}
    (hrival : rival? f { leaf, start := s.pos } later = some rival)
    (hseizes : Seizes (rival.attempt rest)) :
    run f ts (s.taking leaf ws) = (rival.attempt rest).bind fun found =>
      run f ts (takeOver f rival found (s.taking leaf ws)) := by
  have hdrop := drop_taking leaf hts
  rw [run_of_lt (pos_lt_of_drop hdrop hne), step_taking leaf htodo,
    absorb_of_seizes hrival (by rwa [hdrop]), hdrop]
  cases hanswer : rival.attempt rest with
  | matched found => rfl
  | noMatch =>
    rw [hanswer] at hseizes
    exact hseizes.elim
  | invalid e => rfl

/-- Where the tokens end, a leaf ends with them. -/
theorem run_taking_all (hts : ts.drop s.pos = ws) :
    run f ts (s.taking leaf ws) = (drain f (s.taking leaf ws)).bind (settle f) := by
  refine run_of_le ?_
  have hall : ts.drop s.pos = ws ++ [] := hts.trans (List.append_nil ws).symm
  have hdrop : ts.drop (s.taking leaf ws).pos = [] := drop_taking leaf hall
  exact List.drop_eq_nil_iff.1 hdrop

theorem takeOver_of_finished {found : Found} {rival : Slot}
    (hdone : (advance f (s.taken leaf ws)).todo = []) :
    takeOver f rival found (s.taking leaf ws) = advance f (s.taken leaf ws) := by
  refine if_pos ?_
  rw [List.isEmpty_iff]
  exact hdone

theorem takeOver_of_unfinished {found : Found} {rival : Slot}
    (hmore : (advance f (s.taken leaf ws)).todo ≠ []) :
    takeOver f rival found (s.taking leaf ws) =
      accept f rival found (advance f (s.taken leaf ws)) := by
  refine if_neg ?_
  rw [List.isEmpty_iff]
  exact hmore

/-- The state behind a leaf that has taken these words and is not the last of its pass. -/
def State.past (slot : Slot) (later : List Slot) (leaf : Leaf) (ws : List String) (s : State) :
    State :=
  { s.taken leaf ws with done := slot :: s.done, todo := later }

theorem advance_taken (htodo : s.todo = slot :: later) (hlater : later ≠ []) :
    advance f (s.taken leaf ws) = s.past slot later leaf ws :=
  advance_of_ne_nil htodo hlater

theorem takeOver_past {found : Found} {rival : Slot} (htodo : s.todo = slot :: later)
    (hlater : later ≠ []) :
    takeOver f rival found (s.taking leaf ws) =
      accept f rival found (s.past slot later leaf ws) := by
  have hpast : advance f (s.taken leaf ws) = s.past slot later leaf ws := advance_taken htodo hlater
  rw [takeOver_of_unfinished (by rw [hpast]; exact hlater), hpast]

theorem drain_past (htodo : s.todo = slot :: later) (hlater : later ≠ []) :
    drain f (s.taking leaf ws) = drainSlots f later (s.past slot later leaf ws) := by
  have hrelease : release f (s.taking leaf ws) = s.past slot later leaf ws :=
    advance_taken htodo hlater
  unfold drain
  rw [hrelease]
  simp [underWay, State.past]

/-- After the last slot of the last pass there is nothing to do but to settle. -/
theorem settle_advance_last (htodo : s.todo = [slot]) (hlast : f.shape.maxPasses ≤ s.passes + 1)
    (hmin : f.shape.minPasses ≤ s.passes + 1) :
    settle f (advance f s) = .matched { args := s.args, consumed := s.pos } := by
  rw [advance_last htodo (.inl hlast)]
  exact if_pos hmin

theorem run_advance_last (htodo : s.todo = [slot]) (hidle : s.absorbing = none)
    (hlast : f.shape.maxPasses ≤ s.passes + 1) (hmin : f.shape.minPasses ≤ s.passes + 1) :
    run f ts (advance f s) = .matched { args := s.args, consumed := s.pos } := by
  have hfinished : (advance f s).todo = [] := by rw [advance_last htodo (.inl hlast)]
  rw [run_finished hfinished (by rw [absorbing_advance]; exact hidle),
    settle_advance_last htodo hlast hmin]

/-- A leaf that is the last of its pass ends the pass where the tokens end. -/
theorem run_taking_last (htodo : s.todo = [slot]) (hts : ts.drop s.pos = ws)
    (hmin : f.shape.minPasses ≤ s.passes + 1) : run f ts (s.taking leaf ws) =
      .matched { args := s.args.push leaf.name (.ofWords ws), consumed := s.pos + ws.length } := by
  have hrelease : release f (s.taking leaf ws) = advance f (s.taken leaf ws) := rfl
  have htaken : (s.taken leaf ws).todo = [slot] := htodo
  rw [run_taking_all hts]
  unfold drain
  rw [hrelease]
  -- whether the scan is finished or would begin again, nothing of a pass is under way
  obtain ⟨hne, -⟩ | ⟨-, -, hend⟩ | ⟨-, -, hend⟩ := advance_cases f htaken
  · exact absurd rfl hne
  · rw [hend]
    exact if_pos hmin
  · rw [hend]
    exact if_pos hmin

/-- After the last pass the token that the rival seizes is left to the caller. -/
theorem run_takeOver_last {found : Found} {rival : Slot} (htodo : s.todo = [slot])
    (hlast : f.shape.maxPasses ≤ s.passes + 1) (hmin : f.shape.minPasses ≤ s.passes + 1) :
    run f ts (takeOver f rival found (s.taking leaf ws)) =
      .matched { args := s.args.push leaf.name (.ofWords ws), consumed := s.pos + ws.length } := by
  have htaken : (s.taken leaf ws).todo = [slot] := htodo
  rw [takeOver_of_finished (by rw [advance_last htaken (.inl hlast)])]
  exact run_advance_last htaken rfl hlast hmin

/-- The state at the start of another pass, after one that ended with these words. -/
def State.anew (f : Frame) (leaf : Leaf) (ws : List String) (s : State) : State :=
  { s.taken leaf ws with
    passes := s.passes + 1
    done := []
    todo := f.slots
    passStart := s.pos + ws.length
    mark := (s.taken leaf ws).endOfPass }

theorem takeOver_anew {found : Found} {rival : Slot} (htodo : s.todo = [slot])
    (hmore : s.passes + 1 < f.shape.maxPasses) (hbegun : s.passStart < s.pos + ws.length)
    (hslots : f.slots ≠ []) :
    takeOver f rival found (s.taking leaf ws) = accept f rival found (s.anew f leaf ws) := by
  have htaken : (s.taken leaf ws).todo = [slot] := htodo
  have hopen : ¬ (f.shape.maxPasses ≤ (s.taken leaf ws).passes + 1 ∨
      (s.taken leaf ws).pos = (s.taken leaf ws).passStart) := by
    rintro (hmax | hsame)
    · exact Nat.not_le_of_lt hmore hmax
    · exact Nat.ne_of_gt hbegun hsame
  have hanew : advance f (s.taken leaf ws) = s.anew f leaf ws := advance_again htaken hopen
  rw [takeOver_of_unfinished (by rw [hanew]; exact hslots), hanew]

end

/-- A leaf and one other slot are left to do in the last pass, and that pass is enough. -/
structure BeforeLast (f : Frame) (leaf : Leaf) (next : Slot) (s : State) : Prop where
  todo : s.todo = [(Node.leaf leaf).slot, next]
  idle : s.absorbing = none
  last : f.shape.maxPasses ≤ s.passes + 1
  enough : f.shape.minPasses ≤ s.passes + 1

namespace BeforeLast

variable {leaf : Leaf} {next : Slot} {ws : List String}

theorem rival?_eq (a : Absorbing) : rival? f a [next] =
    if a.leaf.priority ≤ next.node.priority then some next else none := by
  simp [rival?, Option.filter]

/-- The first word that the last slot seizes goes to it. -/
theorem run_yields (hs : BeforeLast f leaf next s) (hleaf : leaf.TakesAnyText)
    (hnext : next.node.greedyLeaf? = none) (hpriority : leaf.priority ≤ next.node.priority)
    {rest : List String} (hts : ts.drop s.pos = ws ++ rest) (hne : ws ≠ [])
    (hwords : ∀ v ∈ ws, v ≠ "") (hrest : rest ≠ []) (hseizes : Seizes (next.attempt rest))
    (hfree : ∀ front back, ws = front ++ back → front ≠ [] → back ≠ [] →
      ¬ Seizes (next.attempt (back ++ rest))) :
    run f ts s = (next.attempt rest).map fun found =>
      { args := (s.args.push leaf.name (.ofWords ws)).merge found.args
        consumed := s.pos + ws.length + found.consumed } := by
  have hrival : rival? f { leaf, start := s.pos } [next] = some next := by
    rw [rival?_eq, if_pos hpriority]
  have htext : run f ts s = run f ts (s.taking leaf ws) := by
    refine run_text hs.todo hs.idle hne hts (hleaf.takes hwords) ?_
    intro front back hws hfront hback other hother
    obtain rfl : next = other := Option.some_inj.1 (hrival.symm.trans hother)
    exact hfree front back hws hfront hback
  rw [htext, run_takeOver hs.todo hrest hts hrival hseizes]
  cases next.attempt rest with
  | matched found =>
    dsimp only [Verdict.bind, Verdict.map]
    rw [takeOver_past hs.todo (by simp), accept_of_none hnext]
    exact run_advance_last rfl rfl hs.last hs.enough
  | noMatch => rfl
  | invalid e => rfl

/-- A leaf whose words the last slot seizes none of takes all of them. -/
theorem run_keeps (hs : BeforeLast f leaf next s) (hleaf : leaf.TakesAnyText)
    (hts : ts.drop s.pos = ws) (hne : ws ≠ []) (hwords : ∀ v ∈ ws, v ≠ "")
    (hfree : next.node.priority < leaf.priority ∨
      ∀ front back, ws = front ++ back → front ≠ [] → back ≠ [] → ¬ Seizes (next.attempt back)) :
    run f ts s = match next.attempt [] with
      | .matched found => .matched
        { args := (s.args.push leaf.name (.ofWords ws)).merge found.args
          consumed := s.pos + ws.length }
      | .noMatch =>
        if f.shape.skips next.node then
          .matched { args := s.args.push leaf.name (.ofWords ws), consumed := s.pos + ws.length }
        else settle f s
      | .invalid e => .invalid e := by
  have htext : run f ts s = run f ts (s.taking leaf ws) := by
    have hall : ts.drop s.pos = ws ++ [] := by rw [hts, List.append_nil]
    refine run_text hs.todo hs.idle hne hall (hleaf.takes hwords) ?_
    intro front back hws hfront hback rival hrival
    rw [rival?_eq] at hrival
    split at hrival
    · rename_i hpriority
      obtain rfl : next = rival := Option.some_inj.1 hrival
      rw [List.append_nil]
      exact hfree.resolve_left (Int.not_lt.2 hpriority) front back hws hfront hback
    · cases hrival
  rw [htext, run_taking_all hts, drain_past hs.todo (by simp), drainSlots]
  have hfinal : ∀ args, settle f (advance f
      { s.past (Node.leaf leaf).slot [next] leaf ws with args }) =
        .matched { args, consumed := s.pos + ws.length } := fun args =>
    settle_advance_last rfl hs.last hs.enough
  cases next.attempt [] with
  | matched found => exact hfinal _
  | noMatch =>
    dsimp only
    split
    · exact hfinal _
    · rfl
  | invalid e => rfl

end BeforeLast

end Scan
end Chatline
