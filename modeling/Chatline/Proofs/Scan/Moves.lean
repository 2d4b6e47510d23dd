import Chatline.Grammar.Match

/-! What a scan does, read off once: where a slot is found, what leaving a slot and accepting one
come to, every way in which a step can answer, and the run as its steps. -/
namespace Chatline.Scan

section
variable {ts : List String}

/-- The slot that was picked stands behind slots that did not match. -/
theorem pick_eq_matched {slots : List Slot} {p : Pick} (h : pick ts slots = .matched p) :
    ∃ front back, slots = front ++ p.slot :: back ∧ p.others = front ++ back ∧
      p.slot.attempt ts = .matched p.found := by
  induction slots generalizing p with
  | nil => simp [pick] at h
  | cons slot slots ih =>
    unfold pick at h
    split at h
    · rename_i found hfound
      cases h
      exact ⟨[], slots, rfl, rfl, hfound⟩
    · cases h
    · cases hq : pick ts slots with
      | matched q =>
        rw [hq] at h
        cases h
        obtain ⟨front, back, rfl, hothers, hfound⟩ := ih hq
        exact ⟨slot :: front, back, rfl, by simp [hothers], hfound⟩
      | noMatch => rw [hq] at h; cases h
      | invalid e => rw [hq] at h; cases h

/-- A search for a later slot fails where one of the slots does. -/
theorem pick_eq_invalid {slots : List Slot} {e : Failure} (h : pick ts slots = .invalid e) :
    ∃ slot ∈ slots, slot.attempt ts = .invalid e := by
  induction slots with
  | nil => simp [pick] at h
  | cons slot slots ih =>
    unfold pick at h
    split at h
    · cases h
    · rename_i e' hslot
      cases h
      exact ⟨slot, List.mem_cons_self, hslot⟩
    · cases hq : pick ts slots with
      | matched q => rw [hq] at h; cases h
      | noMatch => rw [hq] at h; cases h
      | invalid e' =>
        rw [hq] at h
        cases h
        obtain ⟨bad, hbad, hattempt⟩ := ih hq
        exact ⟨bad, List.mem_cons_of_mem _ hbad, hattempt⟩

end

section
variable {f : Frame} {s : State} {slot : Slot} {later : List Slot}

/-- The mark that the state leaves if its pass ends here. -/
def State.endOfPass (s : State) : Mark :=
  { args := s.args, pos := s.pos, passes := s.passes + 1 }

theorem advance_of_ne_nil (h : s.todo = slot :: later) (hl : later ≠ []) :
    advance f s = { s with done := slot :: s.done, todo := later } := by
  unfold advance
  rw [h]
  simp [hl]

/-- After the last slot of the last pass the scan is finished. -/
theorem advance_last (h : s.todo = [slot])
    (hlast : f.shape.maxPasses ≤ s.passes + 1 ∨ s.pos = s.passStart) :
    advance f s = { s with
      done := slot :: s.done, todo := [], passes := s.passes + 1, mark := s.endOfPass } := by
  unfold advance
  rw [h]
  simp only [List.isEmpty_nil, if_true]
  unfold completePass
  rw [if_pos hlast]
  rfl

/-- After the last slot of any other pass the slots are to be done again. -/
theorem advance_again (h : s.todo = [slot])
    (hmore : ¬ (f.shape.maxPasses ≤ s.passes + 1 ∨ s.pos = s.passStart)) :
    advance f s = { s with
      done := [], todo := f.slots, passes := s.passes + 1, passStart := s.pos,
      mark := s.endOfPass } := by
  unfold advance
  rw [h]
  simp only [List.isEmpty_nil, if_true]
  unfold completePass
  rw [if_neg hmore]
  rfl

theorem advance_cases (f : Frame) (h : s.todo = slot :: later) :
    (later ≠ [] ∧ advance f s = { s with done := slot :: s.done, todo := later }) ∨
    (later = [] ∧ (f.shape.maxPasses ≤ s.passes + 1 ∨ s.pos = s.passStart) ∧
      advance f s = { s with
        done := slot :: s.done, todo := [], passes := s.passes + 1, mark := s.endOfPass }) ∨
    (later = [] ∧ ¬ (f.shape.maxPasses ≤ s.passes + 1 ∨ s.pos = s.passStart) ∧
      advance f s = { s with
        done := [], todo := f.slots, passes := s.passes + 1, passStart := s.pos,
        mark := s.endOfPass }) := by
  by_cases hl : later = []
  · subst hl
    by_cases hlast : f.shape.maxPasses ≤ s.passes + 1 ∨ s.pos = s.passStart
    · exact .inr (.inl ⟨rfl, hlast, advance_last h hlast⟩)
    · exact .inr (.inr ⟨rfl, hlast, advance_again h hlast⟩)
  · exact .inl ⟨hl, advance_of_ne_nil h hl⟩

theorem accept_greedy {leaf : Leaf} {found : Found} (h : slot.node.greedyLeaf? = some leaf) :
    accept f slot found s = { s with
      args := s.args.merge found.args, pos := s.pos + 1
      absorbing := some { leaf, start := s.pos } } := by
  unfold accept
  rw [h]

theorem accept_of_none {found : Found} (h : slot.node.greedyLeaf? = none) :
    accept f slot found s =
      advance f { s with args := s.args.merge found.args, pos := s.pos + found.consumed } := by
  unfold accept
  rw [h]

end

/-- The rival of an absorbing leaf, if there is one, does not take the current token. -/
def Unrivalled (f : Frame) (ts : List String) (a : Absorbing) (later : List Slot) (s : State) :
    Prop :=
  ∀ rival ∈ rival? f a later, rival.attempt (ts.drop s.pos) = .noMatch ∨
    ∃ found, rival.attempt (ts.drop s.pos) = .matched found ∧ found.consumed = 0

/-- No later slot may be taken in place of the current one. -/
def Unmoved (f : Frame) (ts : List String) (later : List Slot) (s : State) : Prop :=
  f.shape.flexible = true → pick (ts.drop s.pos) later = .noMatch

/-- Everything that a step can do to a state. -/
inductive Move (f : Frame) (ts : List String) (s : State) : State → Prop
  -- the current slot takes what comes next
  | take {slot later found} (htodo : s.todo = slot :: later) (hidle : s.absorbing = none)
      (hfound : slot.attempt (ts.drop s.pos) = .matched found) :
      Move f ts s (accept f slot found s)
  -- a later slot of a flexible group takes it
  | promote {slot later p} (htodo : s.todo = slot :: later) (hidle : s.absorbing = none)
      (hflex : f.shape.flexible = true) (hno : slot.attempt (ts.drop s.pos) = .noMatch)
      (hpick : pick (ts.drop s.pos) later = .matched p) :
      Move f ts s (accept f p.slot p.found { s with todo := p.slot :: slot :: p.others })
  -- the current slot is left out
  | skip {slot later} (htodo : s.todo = slot :: later) (hidle : s.absorbing = none)
      (hno : slot.attempt (ts.drop s.pos) = .noMatch) (hstay : Unmoved f ts later s)
      (hskip : f.shape.skips slot.node = true) :
      Move f ts s (advance f s)
  -- the absorbing leaf takes the current token too
  | widen {slot later a r} (htodo : s.todo = slot :: later) (habs : s.absorbing = some a)
      (hrival : Unrivalled f ts a later s) (hread : a.leaf.read (widened ts a s) = .matched r) :
      Move f ts s { s with args := s.args.replaceLast a.leaf.name r, pos := s.pos + 1 }
  -- the absorbing leaf cannot take the current token
  | close {slot later a} (htodo : s.todo = slot :: later) (habs : s.absorbing = some a)
      (hrival : Unrivalled f ts a later s) (hread : a.leaf.read (widened ts a s) = .noMatch) :
      Move f ts s (advance f { s with absorbing := none })
  -- the rival of the absorbing leaf takes over
  | yield {slot later a rival found} (htodo : s.todo = slot :: later)
      (habs : s.absorbing = some a) (hrival : rival? f a later = some rival)
      (hfound : rival.attempt (ts.drop s.pos) = .matched found) (hsome : found.consumed ≠ 0) :
      Move f ts s (takeOver f rival found s)

section
variable {f : Frame} {ts : List String} {s s' : State} {slot : Slot} {later : List Slot}

theorem move_of_widen {a : Absorbing} (htodo : s.todo = slot :: later)
    (habs : s.absorbing = some a) (hrival : Unrivalled f ts a later s)
    (h : widen f ts a s = .matched s') : Move f ts s s' := by
  unfold widen at h
  split at h
  · rename_i r hread
    cases h
    exact .widen htodo habs hrival hread
  · cases h
  · rename_i hread
    cases h
    exact .close htodo habs hrival hread

theorem move_of_absorb {a : Absorbing} (htodo : s.todo = slot :: later)
    (habs : s.absorbing = some a) (h : absorb f ts a later s = .matched s') : Move f ts s s' := by
  unfold absorb at h
  split at h
  · rename_i hnone
    have hrival : Unrivalled f ts a later s := fun rival hr => by simp [hnone] at hr
    exact move_of_widen htodo habs hrival h
  · rename_i rival hsome
    split at h
    · rename_i found hfound
      split at h
      · rename_i hzero
        have hrival : Unrivalled f ts a later s := fun rival' hr => by
          obtain rfl : rival = rival' := by simpa [hsome] using hr
          exact .inr ⟨found, hfound, hzero⟩
        exact move_of_widen htodo habs hrival h
      · rename_i hne
        cases h
        exact .yield htodo habs hsome hfound hne
    · cases h
    · rename_i hno
      have hrival : Unrivalled f ts a later s := fun rival' hr => by
        obtain rfl : rival = rival' := by simpa [hsome] using hr
        exact .inl hno
      exact move_of_widen htodo habs hrival h

theorem move_of_skip (htodo : s.todo = slot :: later) (hidle : s.absorbing = none)
    (hno : slot.attempt (ts.drop s.pos) = .noMatch) (hstay : Unmoved f ts later s)
    (h : skip f slot s = .matched s') : Move f ts s s' := by
  unfold skip at h
  split at h
  · rename_i hskip
    cases h
    exact .skip htodo hidle hno hstay hskip
  · cases h

theorem move_of_recover (htodo : s.todo = slot :: later) (hidle : s.absorbing = none)
    (hno : slot.attempt (ts.drop s.pos) = .noMatch)
    (h : recover f ts slot later s = .matched s') : Move f ts s s' := by
  unfold recover at h
  split at h
  · rename_i hflex
    split at h
    · rename_i p hpick
      cases h
      exact .promote htodo hidle hflex hno hpick
    · cases h
    · rename_i hpick
      exact move_of_skip htodo hidle hno (fun _ => hpick) h
  · rename_i hflex
    exact move_of_skip htodo hidle hno (fun hf => absurd hf hflex) h

/-- A step that goes on makes one of the moves. -/
theorem move_of_step (h : step f ts s = .matched s') : Move f ts s s' := by
  unfold step at h
  split at h
  · cases h
  · rename_i slot later htodo
    split at h
    · rename_i a habs
      exact move_of_absorb htodo habs h
    · rename_i hidle
      split at h
      · rename_i found hfound
        cases h
        exact .take htodo hidle hfound
      · cases h
      · rename_i hno
        exact move_of_recover htodo hidle hno h

theorem widen_ne_noMatch (a : Absorbing) : widen f ts a s ≠ .noMatch := by
  unfold widen
  split <;> simp

theorem absorb_ne_noMatch (a : Absorbing) : absorb f ts a later s ≠ .noMatch := by
  unfold absorb
  split
  · exact widen_ne_noMatch a
  · split
    · split
      · exact widen_ne_noMatch a
      · simp
    · simp
    · exact widen_ne_noMatch a

/-- A pass fails only at a current slot that does not match and may not be left out. -/
theorem step_eq_noMatch (htodo : s.todo = slot :: later) (h : step f ts s = .noMatch) :
    s.absorbing = none ∧ slot.attempt (ts.drop s.pos) = .noMatch ∧
      f.shape.skips slot.node = false := by
  have hskip : skip f slot s = .noMatch → f.shape.skips slot.node = false := by
    intro hs
    unfold skip at hs
    split at hs
    · cases hs
    · rename_i hskips
      simpa using hskips
  unfold step at h
  rw [htodo] at h
  cases habs : s.absorbing with
  | some a =>
    simp only [habs] at h
    exact absurd h (absorb_ne_noMatch a)
  | none =>
    simp only [habs] at h
    split at h
    · cases h
    · cases h
    · rename_i hno
      refine ⟨rfl, hno, ?_⟩
      unfold recover at h
      split at h
      · split at h
        · cases h
        · cases h
        · exact hskip h
      · exact hskip h

theorem mem_of_rival? {a : Absorbing} {rival : Slot} (h : rival? f a later = some rival) :
    rival ∈ later ∨ rival ∈ f.slots := by
  unfold rival? at h
  obtain ⟨hnext, -⟩ := Option.filter_eq_some_iff.1 h
  cases later with
  | cons next rest =>
    obtain rfl : next = rival := by simpa using hnext
    exact .inl List.mem_cons_self
  | nil =>
    have hhead : f.slots.head? = some rival := by
      by_cases hrep : f.shape.repetition.isSome <;> simp_all
    exact .inr (List.mem_of_head? hhead)

theorem widen_eq_invalid {a : Absorbing} {e : Failure} (h : widen f ts a s = .invalid e) :
    a.leaf.read (widened ts a s) = .invalid e := by
  unfold widen at h
  split at h
  · cases h
  · rename_i e' hread
    cases h
    exact hread
  · cases h

theorem absorb_eq_invalid {a : Absorbing} {e : Failure} (h : absorb f ts a later s = .invalid e) :
    (∃ rival, rival? f a later = some rival ∧ rival.attempt (ts.drop s.pos) = .invalid e) ∨
      a.leaf.read (widened ts a s) = .invalid e := by
  unfold absorb at h
  split at h
  · exact .inr (widen_eq_invalid h)
  · rename_i rival hrival
    split at h
    · split at h
      · exact .inr (widen_eq_invalid h)
      · cases h
    · rename_i e' hattempt
      cases h
      exact .inl ⟨rival, hrival, hattempt⟩
    · exact .inr (widen_eq_invalid h)

theorem recover_eq_invalid {e : Failure} (h : recover f ts slot later s = .invalid e) :
    ∃ other ∈ later, other.attempt (ts.drop s.pos) = .invalid e := by
  have hskip : skip f slot s ≠ .invalid e := by
    unfold skip
    split <;> simp
  unfold recover at h
  split at h
  · split at h
    · cases h
    · rename_i e' hpick
      cases h
      exact pick_eq_invalid hpick
    · exact absurd h hskip
  · exact absurd h hskip

/-- A step fails where a slot fails at the current token, or the absorbing leaf at its span. -/
theorem step_eq_invalid {e : Failure} (h : step f ts s = .invalid e) :
    (∃ bad, (bad ∈ s.todo ∨ bad ∈ f.slots) ∧ bad.attempt (ts.drop s.pos) = .invalid e) ∨
      ∃ a, s.absorbing = some a ∧ a.leaf.read (widened ts a s) = .invalid e := by
  unfold step at h
  split at h
  · cases h
  · rename_i slot later htodo
    have hmem : ∀ other ∈ later, other ∈ s.todo := fun other ho => by simp [htodo, ho]
    split at h
    · rename_i a habs
      rcases absorb_eq_invalid h with ⟨rival, hrival, hattempt⟩ | hread
      · exact .inl ⟨rival, (mem_of_rival? hrival).imp_left (hmem rival), hattempt⟩
      · exact .inr ⟨a, habs, hread⟩
    · split at h
      · cases h
      · rename_i e' hattempt
        cases h
        exact .inl ⟨slot, .inl (by simp [htodo]), hattempt⟩
      · obtain ⟨other, hother, hattempt⟩ := recover_eq_invalid h
        exact .inl ⟨other, .inl (hmem other hother), hattempt⟩

end

theorem run_of_le {f : Frame} {ts : List String} {s : State} (h : ts.length ≤ s.pos) :
    run f ts s = (drain f s).bind (settle f) := by
  rw [run.eq_def, dif_neg (Nat.not_lt.2 h)]

theorem run_of_lt {f : Frame} {ts : List String} {s : State} (h : s.pos < ts.length) :
    run f ts s = match step f ts s with
      | .matched s' => run f ts s'
      | .noMatch => settle f s
      | .invalid e => .invalid e := by
  rw [run.eq_def, dif_pos h]
  split <;> simp_all

/-- How a run ends: an invariant of its steps holds of the state in which the pass fails, or of
the one in which the tokens are used up. -/
theorem run_cases {f : Frame} (ts : List String) {P : State → Prop}
    (hstep : ∀ s s', P s → s.pos < ts.length → Move f ts s s' → P s') {s : State} (hs : P s) :
    ∃ s', P s' ∧
      ((s'.pos < ts.length ∧ step f ts s' = .noMatch ∧ run f ts s = settle f s') ∨
       (∃ e, s'.pos < ts.length ∧ step f ts s' = .invalid e ∧ run f ts s = .invalid e) ∨
       (ts.length ≤ s'.pos ∧ run f ts s = (drain f s').bind (settle f))) := by
  induction s using run.induct f ts with
  | case1 s hpos s' h ih =>
    obtain ⟨s'', hs'', hend⟩ := ih (hstep s s' hs hpos (move_of_step h))
    refine ⟨s'', hs'', ?_⟩
    rw [run_of_lt hpos, h]
    exact hend
  | case2 s hpos h =>
    refine ⟨s, hs, .inl ⟨hpos, h, ?_⟩⟩
    rw [run_of_lt hpos, h]
  | case3 s hpos e h =>
    refine ⟨s, hs, .inr (.inl ⟨e, hpos, h, ?_⟩)⟩
    rw [run_of_lt hpos, h]
  | case4 s hpos =>
    have hle := Nat.le_of_not_lt hpos
    exact ⟨s, hs, .inr (.inr ⟨hle, run_of_le hle⟩)⟩

/-- What the end of the tokens can do to a state. -/
inductive Closing (f : Frame) (s : State) : State → Prop
  -- the absorbing leaf ends
  | release {a} (habs : s.absorbing = some a) :
      Closing f s (advance f { s with absorbing := none })
  -- the current slot matches nothing
  | blank {slot later found} (htodo : s.todo = slot :: later) (hidle : s.absorbing = none)
      (hfound : slot.attempt [] = .matched found) :
      Closing f s (advance f { s with args := s.args.merge found.args })
  -- the current slot is left out
  | absent {slot later} (htodo : s.todo = slot :: later) (hidle : s.absorbing = none)
      (hno : slot.attempt [] = .noMatch) (hskip : f.shape.skips slot.node = true) :
      Closing f s (advance f s)

theorem absorbing_advance (f : Frame) (s : State) : (advance f s).absorbing = s.absorbing := by
  unfold advance
  split
  · rfl
  · split
    · unfold completePass
      dsimp only
      split <;> rfl
    · rfl

theorem todo_advance {f : Frame} {s : State} {slot : Slot} {later : List Slot}
    (htodo : s.todo = slot :: later) : later = [] ∨ (advance f s).todo = later := by
  by_cases hlater : later = []
  · exact .inl hlater
  · rw [advance_of_ne_nil htodo hlater]
    exact .inr rfl

/-- The slots at hand are those to be done, unless the pass has just ended. -/
theorem drainSlots_cases {f : Frame} {P : State → Prop}
    (hstep : ∀ s s', P s → Closing f s s' → P s') {slots : List Slot} {s s' : State} (hs : P s)
    (htodo : slots = [] ∨ s.todo = slots) (hidle : s.absorbing = none)
    (h : drainSlots f slots s = .matched s') : P s' ∧ s'.absorbing = none := by
  induction slots generalizing s with
  | nil =>
    cases h
    exact ⟨hs, hidle⟩
  | cons slot later ih =>
    have htodo : s.todo = slot :: later := by simpa using htodo
    unfold drainSlots at h
    split at h
    · rename_i found hfound
      refine ih (hstep _ _ hs (.blank htodo hidle hfound)) ?_ ?_ h
      · exact todo_advance htodo
      · rw [absorbing_advance]
        exact hidle
    · cases h
    · rename_i hno
      split at h
      · rename_i hskip
        refine ih (hstep _ _ hs (.absent htodo hidle hno hskip)) (todo_advance htodo) ?_ h
        rw [absorbing_advance]
        exact hidle
      · cases h
        exact ⟨hs, hidle⟩

theorem absorbing_release (f : Frame) (s : State) : (release f s).absorbing = none := by
  unfold release
  split
  · rw [absorbing_advance]
  · rename_i h
    exact Option.not_isSome_iff_eq_none.1 h

/-- What every closing keeps holds once the tokens are used up. -/
theorem drain_cases {f : Frame} {P : State → Prop}
    (hstep : ∀ s s', P s → Closing f s s' → P s') {s s' : State} (hs : P s)
    (h : drain f s = .matched s') : P s' ∧ s'.absorbing = none := by
  have hrel : P (release f s) := by
    unfold release
    cases habs : s.absorbing with
    | none => exact hs
    | some a => exact hstep _ _ hs (.release habs)
  unfold drain at h
  dsimp only at h
  split at h
  · exact drainSlots_cases hstep hrel (.inr rfl) (absorbing_release f s) h
  · cases h
    exact ⟨hrel, absorbing_release f s⟩

theorem settle_eq_matched {f : Frame} {s : State} {found : Found} (h : settle f s = .matched found) :
    f.shape.minPasses ≤ s.mark.passes ∧ found = { args := s.mark.args, consumed := s.mark.pos } := by
  unfold settle at h
  split at h
  · rename_i hmin
    cases h
    exact ⟨hmin, rfl⟩
  · cases h

theorem settle_ne_noMatch {f : Frame} {s : State} (h : f.shape.minPasses ≤ s.mark.passes) :
    settle f s ≠ .noMatch := by
  unfold settle
  rw [if_pos h]
  simp

theorem settle_ne_invalid (f : Frame) (s : State) (e : Failure) : settle f s ≠ .invalid e := by
  unfold settle
  split <;> simp

/-- A run that matches settles in a state that its moves and closings lead to. -/
theorem run_eq_matched {f : Frame} {ts : List String} {P : State → Prop}
    (hmove : ∀ s s', P s → s.pos < ts.length → Move f ts s s' → P s')
    (hclosing : ∀ s s', P s → Closing f s s' → P s') {s : State} (hs : P s) {found : Found}
    (h : run f ts s = .matched found) : ∃ s', P s' ∧ settle f s' = .matched found := by
  obtain ⟨s', hs', hend⟩ := run_cases ts hmove hs
  rcases hend with ⟨-, -, hrun⟩ | ⟨e, -, -, hrun⟩ | ⟨-, hrun⟩
  · exact ⟨s', hs', hrun ▸ h⟩
  · rw [hrun] at h
    cases h
  · rw [hrun] at h
    cases hd : drain f s' with
    | matched s'' =>
      rw [hd] at h
      exact ⟨s'', (drain_cases hclosing hs' hd).1, h⟩
    | noMatch => rw [hd] at h; cases h
    | invalid e => rw [hd] at h; cases h

end Chatline.Scan
