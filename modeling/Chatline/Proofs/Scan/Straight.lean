import Chatline.Proofs.Scan.OnePass

/-! Straight scans: no slot changes its place and none is greedy. A pass of such a scan takes the
slots one after the other, whether there are tokens left or not, and the scan is a sequence of such
passes. -/
namespace Chatline

/-- The slots of the group keep their places, and none of them absorbs tokens. -/
structure Frame.Straight (f : Frame) : Prop where
  fixed : f.shape.flexible = false
  single : ∀ slot ∈ f.slots, slot.node.greedyLeaf? = none
  bounded : f.Bounded

namespace Scan

/-- What is recorded, and how many tokens are taken, when a pass has gone through these slots. -/
def through (shape : Shape) (ts : List String) : List Slot → Args → Nat → Verdict Failure Found
  | [], args, pos => .matched { args, consumed := pos }
  | slot :: later, args, pos =>
    match slot.attempt (ts.drop pos) with
    | .matched found => through shape ts later (args.merge found.args) (pos + found.consumed)
    | .invalid e => .invalid e
    | .noMatch => if shape.skips slot.node then through shape ts later args pos else .noMatch

def State.fresh (f : Frame) (m : Mark) : State :=
  { args := m.args
    pos := m.pos
    passes := m.passes
    todo := f.slots
    passStart := m.pos
    mark := m }

/-- The pass is to be gone through even if there are no tokens left, or there are tokens left. -/
def Ready (ts : List String) (s : State) : Prop := underWay s = true ∨ s.pos < ts.length

section
variable {f : Frame} {ts : List String} {s : State} {slot : Slot} {later : List Slot}

theorem advance_eq_fresh (htodo : s.todo = [slot]) (hidle : s.absorbing = none)
    (hmore : ¬ (f.shape.maxPasses ≤ s.passes + 1 ∨ s.pos = s.passStart)) :
    advance f s = .fresh f s.endOfPass := by
  rw [advance_again htodo hmore, hidle]
  rfl

theorem run_fresh_of_le {m : Mark} (hpasses : m.passes ≠ 0) (hpos : ts.length ≤ m.pos) :
    run f ts (.fresh f m) = settle f (.fresh f m) := by
  have hdrain : drain f (.fresh f m) = .matched (.fresh f m) := by
    rw [drain_of_idle rfl]
    simp [underWay, State.fresh, hpasses]
  rw [run_of_le hpos, hdrain]
  rfl

theorem run_advance_of_le (htodo : s.todo = slot :: later) (hidle : s.absorbing = none)
    (hpos : ts.length ≤ s.pos) :
    run f ts (advance f s) = (drainSlots f later (advance f s)).bind (settle f) := by
  have hpos' : ts.length ≤ (advance f s).pos := (pos_advance f s).symm ▸ hpos
  have hidle' : (advance f s).absorbing = none := (absorbing_advance f s).trans hidle
  rw [run_of_le hpos', drain_of_idle hidle']
  obtain ⟨-, heq⟩ | ⟨rfl, -, heq⟩ | ⟨rfl, -, heq⟩ := advance_cases f htodo
  · rw [heq]
    simp [underWay]
  · rw [heq]
    simp [drainSlots]
  · rw [heq]
    simp [underWay, drainSlots]

/-- The current slot takes what it finds, or is left out, and the scan goes on behind it. -/
theorem run_slot (hf : f.Straight) (hslot : slot ∈ f.slots) (htodo : s.todo = slot :: later)
    (hidle : s.absorbing = none) (hready : Ready ts s) :
    run f ts s = match slot.attempt (ts.drop s.pos) with
      | .matched found => run f ts
          (advance f { s with args := s.args.merge found.args, pos := s.pos + found.consumed })
      | .invalid e => .invalid e
      | .noMatch => if f.shape.skips slot.node then run f ts (advance f s) else settle f s := by
  by_cases hpos : s.pos < ts.length
  · rw [run_of_lt hpos]
    cases hanswer : slot.attempt (ts.drop s.pos) with
    | matched found =>
      rw [step_of_matched htodo hidle hanswer, accept_of_none (hf.single slot hslot)]
    | invalid e =>
      unfold step
      simp only [htodo, hidle, hanswer]
    | noMatch =>
      rw [step_of_noMatch htodo hidle hanswer]
      unfold recover skip
      rw [hf.fixed, if_neg Bool.false_ne_true]
      by_cases hskip : f.shape.skips slot.node = true
      · simp only [if_pos hskip]
      · simp only [if_neg hskip]
  · have hle := Nat.le_of_not_lt hpos
    have hway : underWay s = true := hready.resolve_right hpos
    have hnil : ts.drop s.pos = [] := List.drop_of_length_le hle
    have hdrain : drain f s = drainSlots f (slot :: later) s := by
      rw [drain_of_idle hidle, hway, htodo, if_pos rfl]
    rw [run_of_le hle, hdrain, hnil]
    unfold drainSlots
    cases hanswer : slot.attempt [] with
    | matched found =>
      have hzero : found.consumed = 0 :=
        Nat.le_zero.1 (hf.bounded slot hslot [] found hanswer)
      dsimp only
      rw [hzero]
      exact (run_advance_of_le (s := { s with args := s.args.merge found.args, pos := s.pos })
        htodo hidle hle).symm
    | invalid e => rfl
    | noMatch =>
      dsimp only
      split
      · exact (run_advance_of_le htodo hidle hle).symm
      · rfl

/-- What a scan comes to after a pass that has ended like this. -/
def afterPass (f : Frame) (ts : List String) (passStart : Nat) (m : Mark) : Verdict Failure Found :=
  if f.shape.maxPasses ≤ m.passes ∨ m.pos = passStart then settle f (.fresh f m)
  else run f ts (.fresh f m)

theorem run_advance_last_slot (htodo : s.todo = [slot]) (hidle : s.absorbing = none) :
    run f ts (advance f s) = afterPass f ts s.passStart s.endOfPass := by
  have hidle' : (advance f s).absorbing = none := (absorbing_advance f s).trans hidle
  by_cases hlast : f.shape.maxPasses ≤ s.passes + 1 ∨ s.pos = s.passStart
  · have hend : afterPass f ts s.passStart s.endOfPass = settle f (.fresh f s.endOfPass) :=
      if_pos hlast
    have hadvance := advance_last htodo hlast
    rw [run_finished (by rw [hadvance]) hidle', hadvance, hend]
    rfl
  · have hend : afterPass f ts s.passStart s.endOfPass = run f ts (.fresh f s.endOfPass) :=
      if_neg hlast
    rw [advance_eq_fresh htodo hidle hlast, hend]

/-- A scan goes through the slots of the pass under way, and on from there. -/
theorem run_eq_through (hf : f.Straight) (hslots : ∀ slot ∈ s.todo, slot ∈ f.slots)
    (hne : s.todo ≠ []) (hidle : s.absorbing = none) (hready : Ready ts s) :
    run f ts s = match through f.shape ts s.todo s.args s.pos with
      | .matched found =>
        afterPass f ts s.passStart
          { args := found.args, pos := found.consumed, passes := s.passes + 1 }
      | .invalid e => .invalid e
      | .noMatch => settle f s := by
  obtain ⟨slots, htodo⟩ : ∃ slots, s.todo = slots := ⟨_, rfl⟩
  induction slots generalizing s with
  | nil => exact absurd htodo hne
  | cons slot later ih =>
    have hslot : slot ∈ f.slots := hslots slot (by simp [htodo])
    -- behind the slot the pass is over, or it goes on with the slots that come later
    have hnext : ∀ s₁ : State, s₁.todo = slot :: later → s₁.absorbing = none →
        s₁.passStart = s.passStart → s₁.passes = s.passes → s₁.mark = s.mark →
        run f ts (advance f s₁) = match through f.shape ts later s₁.args s₁.pos with
          | .matched found =>
            afterPass f ts s.passStart
              { args := found.args, pos := found.consumed, passes := s.passes + 1 }
          | .invalid e => .invalid e
          | .noMatch => settle f s := by
      intro s₁ htodo₁ hidle₁ hstart₁ hpasses₁ hmark₁
      by_cases hlater : later = []
      · subst hlater
        rw [run_advance_last_slot htodo₁ hidle₁, hstart₁]
        unfold State.endOfPass
        rw [hpasses₁]
        rfl
      · have hadvance := advance_of_ne_nil (f := f) htodo₁ hlater
        have hsettle : settle f (advance f s₁) = settle f s := by
          unfold settle
          rw [hadvance, ← hmark₁]
        have hrest := ih (s := advance f s₁)
          (fun o ho => hslots o (by
            rw [hadvance] at ho
            rw [htodo]
            exact List.mem_cons_of_mem _ ho))
          (by rw [hadvance]; exact hlater) ((absorbing_advance f s₁).trans hidle₁)
          (.inl (by rw [hadvance]; simp [underWay])) (by rw [hadvance])
        rw [hrest, hsettle, hadvance]
        dsimp only
        rw [hstart₁, hpasses₁]
    have hslots' : through f.shape ts s.todo s.args s.pos =
        through f.shape ts (slot :: later) s.args s.pos := by rw [htodo]
    rw [run_slot hf hslot htodo hidle hready, hslots', through]
    cases slot.attempt (ts.drop s.pos) with
    | matched found =>
      exact hnext { s with args := s.args.merge found.args, pos := s.pos + found.consumed } htodo
        hidle rfl rfl rfl
    | invalid e => rfl
    | noMatch =>
      by_cases hskip : f.shape.skips slot.node = true
      · simp only [if_pos hskip]
        exact hnext s htodo hidle rfl rfl rfl
      · simp only [if_neg hskip]

/-- A scan from the start of a pass: it ends there, or goes through all slots and on. -/
theorem run_fresh (hf : f.Straight) (hne : f.slots ≠ []) (ts : List String) (m : Mark) :
    run f ts (.fresh f m) =
      if m.passes = 0 ∨ m.pos < ts.length then
        match through f.shape ts f.slots m.args m.pos with
        | .matched found =>
          afterPass f ts m.pos
            { args := found.args, pos := found.consumed, passes := m.passes + 1 }
        | .invalid e => .invalid e
        | .noMatch => settle f (.fresh f m)
      else settle f (.fresh f m) := by
  split
  · rename_i hopen
    have hready : Ready ts (.fresh f m) := hopen.imp_left fun hzero => by
      simp [underWay, State.fresh, hzero]
    exact run_eq_through (s := .fresh f m) hf (fun _ h => h) hne rfl hready
  · rename_i hclosed
    have hclosed := not_or.1 hclosed
    exact run_fresh_of_le hclosed.1 (Nat.le_of_not_lt hclosed.2)

end

section
variable {shape : Shape} {ts : List String} {slots : List Slot} {args : Args} {pos : Nat}

theorem through_leaf {l : Leaf} {t : String} {rest : List String} {later : List Slot}
    (hts : ts.drop pos = t :: rest) (hacc : l.accepts t = true) :
    through shape ts ((Node.leaf l).slot :: later) args pos =
      through shape ts later (args.record (l.yield t)) (pos + 1) := by
  have hanswer : (Node.leaf l).slot.attempt (ts.drop pos) =
      .matched { args := (∅ : Args).record (l.yield t), consumed := 1 } := by
    rw [hts]
    exact Leaf.attempt_of_accepts hacc rest
  rw [through, hanswer]
  dsimp only
  rw [Args.merge_record_empty]

theorem through_absent {slot : Slot} {later : List Slot}
    (hanswer : slot.attempt (ts.drop pos) = .noMatch) (hskip : shape.skips slot.node = true) :
    through shape ts (slot :: later) args pos = through shape ts later args pos := by
  rw [through, hanswer]
  exact if_pos hskip

theorem through_append (front back : List Slot) (args : Args) (pos : Nat) :
    through shape ts (front ++ back) args pos =
      (through shape ts front args pos).bind fun found =>
        through shape ts back found.args found.consumed := by
  induction front generalizing args pos with
  | nil => rfl
  | cons slot front ih =>
    rw [List.cons_append, through, through]
    cases slot.attempt (ts.drop pos) with
    | matched found => exact ih _ _
    | invalid e => rfl
    | noMatch =>
      by_cases hskip : shape.skips slot.node = true
      · simp only [if_pos hskip]
        exact ih _ _
      · simp only [if_neg hskip]
        rfl

/-- A pass does the same wherever it begins: it adds to what is recorded and to what is taken. -/
theorem through_merge (shape : Shape) (ts : List String) (slots : List Slot) (args a : Args)
    (base pos : Nat) :
    through shape ts slots (args.merge a) (base + pos) =
      (through shape (ts.drop base) slots a pos).map fun found =>
        { args := args.merge found.args, consumed := base + found.consumed } := by
  induction slots generalizing a pos with
  | nil => rfl
  | cons slot later ih =>
    rw [through, through, List.drop_drop]
    cases slot.attempt (ts.drop (base + pos)) with
    | matched found =>
      dsimp only
      rw [Args.merge_assoc, Nat.add_assoc]
      exact ih _ _
    | invalid e => rfl
    | noMatch =>
      by_cases hskip : shape.skips slot.node = true
      · simp only [if_pos hskip]
        exact ih _ _
      · simp only [if_neg hskip]
        rfl

theorem through_congr_shape {shape' : Shape} (hsparse : shape.sparse = shape'.sparse) :
    through shape ts slots args pos = through shape' ts slots args pos := by
  have hskips : ∀ n, shape.skips n = shape'.skips n := fun n => by simp [Shape.skips, hsparse]
  induction slots generalizing args pos with
  | nil => rfl
  | cons slot later ih =>
    rw [through, through]
    simp only [hskips, ih]

theorem through_bounds
    (hb : ∀ slot ∈ slots, ∀ ts found, slot.attempt ts = .matched found → found.consumed ≤ ts.length)
    (hpos : pos ≤ ts.length) {found : Found}
    (h : through shape ts slots args pos = .matched found) :
    pos ≤ found.consumed ∧ found.consumed ≤ ts.length := by
  induction slots generalizing args pos with
  | nil =>
    cases h
    exact ⟨Nat.le_refl _, hpos⟩
  | cons slot later ih =>
    obtain ⟨hslot, hlater⟩ := List.forall_mem_cons.1 hb
    rw [through] at h
    split at h
    · rename_i part hpart
      have hle := hslot _ _ hpart
      rw [List.length_drop] at hle
      have hrest := ih hlater (by omega) h
      omega
    · cases h
    · split at h
      · exact ih hlater hpos h
      · cases h

theorem contains_through {found : Found} (h : through shape ts slots args pos = .matched found)
    {name : String} (hname : args.contains name) : found.args.contains name := by
  induction slots generalizing args pos with
  | nil =>
    cases h
    exact hname
  | cons slot later ih =>
    rw [through] at h
    split at h
    · exact ih h (by simp [hname])
    · cases h
    · split at h
      · exact ih h hname
      · cases h

end

section
variable {f f' : Frame} {ts : List String}

/-- Straight scans of one shape whose passes do the same, wherever these names are present, come to
the same. -/
theorem run_fresh_congr (hf : f.Straight) (hf' : f'.Straight) (hshape : f'.shape = f.shape)
    (hne : f.slots ≠ []) (hne' : f'.slots ≠ []) {names : List String}
    (hthrough : ∀ args pos, (∀ n ∈ names, args.contains n) →
      through f.shape ts f'.slots args pos = through f.shape ts f.slots args pos)
    (m : Mark) (hpos : m.pos ≤ ts.length) (hnames : ∀ n ∈ names, m.args.contains n) :
    run f' ts (.fresh f' m) = run f ts (.fresh f m) := by
  have hsettle : ∀ m, settle f' (.fresh f' m) = settle f (.fresh f m) := fun m => by
    unfold settle
    rw [hshape]
    rfl
  -- a pass that is followed by another one has taken a token
  induction hleft : ts.length - m.pos using Nat.strongRecOn generalizing m with
  | ind left ih =>
    rw [run_fresh hf' hne' ts, run_fresh hf hne ts, hshape, hthrough m.args m.pos hnames, hsettle m]
    split
    · cases hpass : through f.shape ts f.slots m.args m.pos with
      | matched found =>
        obtain ⟨hlo, hhi⟩ := through_bounds hf.bounded hpos hpass
        unfold afterPass
        dsimp only
        rw [hshape]
        by_cases hlast : f.shape.maxPasses ≤ m.passes + 1 ∨ found.consumed = m.pos
        · rw [if_pos hlast, if_pos hlast]
          exact hsettle _
        · rw [if_neg hlast, if_neg hlast]
          have hmore := (not_or.1 hlast).2
          exact ih (ts.length - found.consumed) (by omega)
            { args := found.args, pos := found.consumed, passes := m.passes + 1 } hhi
            (fun n hn => contains_through hpass (hnames n hn)) rfl
      | noMatch => rfl
      | invalid e => rfl
    · rfl

end

end Scan
end Chatline
