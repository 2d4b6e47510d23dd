import Chatline.Proofs.Grammar.Soundness

/-! Groups that can do without tokens. Whether a group is nullable is read off its shape and its
children; it decides what the group answers where no tokens are left, and whether it can ever
answer `noMatch`. -/
namespace Chatline

namespace Node

mutual

/-- Whether a place is complete without any tokens. A leaf never is. -/
def nullable : Node → Bool
  | leaf _ => false
  | group shape children =>
    children.isEmpty || shape.minPasses == 0 ||
      (shape.minPasses == 1 && allDispensable shape children)

/-- Whether a group of this shape can do without each of the children. -/
def allDispensable (shape : Shape) : List Node → Bool
  | [] => true
  | c :: cs => (shape.skips c || c.nullable) && allDispensable shape cs

end

theorem allDispensable_eq_true_iff {shape : Shape} {children : List Node} :
    allDispensable shape children = true ↔
      ∀ c ∈ children, shape.skips c = true ∨ c.nullable = true := by
  induction children with
  | nil => simp [allDispensable]
  | cons c cs ih => simp [allDispensable, ih]

/-- A group is nullable if it has no children, may occur no times, or has to occur once and can
do without each child. -/
theorem nullable_group_iff {shape : Shape} {children : List Node} :
    (group shape children).nullable = true ↔ children = [] ∨ shape.minPasses = 0 ∨
      shape.minPasses = 1 ∧ ∀ c ∈ children, shape.MayLack c ∨ c.nullable = true := by
  simp only [nullable, Bool.or_eq_true, Bool.and_eq_true, List.isEmpty_iff, beq_iff_eq,
    allDispensable_eq_true_iff, Shape.skips_eq_true_iff, or_assoc]

-- a second pass that takes nothing does not count, so two of them need tokens
example : (group { repetition := some ⟨2, 2, by decide, by decide, by decide⟩ }
    [.leaf { Leaf.text "note" with optional := true }]).nullable = false := by decide

end Node

def Group.nullable (g : Group) : Bool := g.toNode.nullable

namespace Scan

/-- Whether the scan gets past the slot without tokens. -/
def Dispensable (f : Frame) (slot : Slot) : Prop :=
  slot.attempt [] ≠ .noMatch ∨ f.shape.skips slot.node = true

section
variable {f : Frame} {ts : List String} {s s' : State} {slot : Slot} {slots later : List Slot}

theorem passes_le_advance (htodo : s.todo = slot :: later) : s.passes ≤ (advance f s).passes := by
  obtain ⟨-, heq⟩ | ⟨-, -, heq⟩ | ⟨-, -, heq⟩ := advance_cases f htodo
  · exact heq ▸ Nat.le_refl _
  · exact heq ▸ Nat.le_succ _
  · exact heq ▸ Nat.le_succ _

theorem drainSlots_ne_noMatch (f : Frame) (slots : List Slot) (s : State) :
    drainSlots f slots s ≠ .noMatch := by
  induction slots generalizing s with
  | nil => simp [drainSlots]
  | cons slot later ih =>
    unfold drainSlots
    split
    · exact ih _
    · simp
    · split
      · exact ih _
      · simp

theorem drain_ne_noMatch (f : Frame) (s : State) : drain f s ≠ .noMatch := by
  unfold drain
  dsimp only
  split
  · exact drainSlots_ne_noMatch f _ _
  · simp

/-- The pass ends if the scan gets past every slot of it. -/
theorem passes_drainSlots (hall : ∀ slot ∈ slots, Dispensable f slot) (hne : slots ≠ [])
    (htodo : s.todo = slots) (h : drainSlots f slots s = .matched s') :
    s'.mark.passes = s.passes + 1 := by
  induction slots generalizing s with
  | nil => exact absurd rfl hne
  | cons slot later ih =>
    obtain ⟨hslot, hlater⟩ := List.forall_mem_cons.1 hall
    -- whether the slot matched nothing or was left out, the next one is the current one now
    have hnext : ∀ s₁ : State, s₁.todo = slot :: later → s₁.passes = s.passes →
        drainSlots f later (advance f s₁) = .matched s' → s'.mark.passes = s.passes + 1 := by
      intro s₁ htodo₁ hpasses h₁
      obtain ⟨hl, heq⟩ | ⟨rfl, -, heq⟩ | ⟨rfl, -, heq⟩ := advance_cases f htodo₁
      · rw [ih (s := advance f s₁) hlater hl (by rw [heq]) h₁, heq, ← hpasses]
      · cases h₁
        rw [heq, ← hpasses]
        rfl
      · cases h₁
        rw [heq, ← hpasses]
        rfl
    unfold drainSlots at h
    split at h
    · rename_i found _
      exact hnext { s with args := s.args.merge found.args } htodo rfl h
    · cases h
    · rename_i hno
      have hskip := hslot.resolve_left (fun hs => hs hno)
      rw [if_pos hskip] at h
      exact hnext s htodo rfl h

/-- A slot that the scan does not get past leaves the mark where it is. -/
theorem mark_drainSlots (hstuck : ∃ slot ∈ slots, ¬ Dispensable f slot) (htodo : s.todo = slots)
    (h : drainSlots f slots s = .matched s') : s'.mark = s.mark := by
  induction slots generalizing s with
  | nil => simp at hstuck
  | cons slot later ih =>
    have hnext : Dispensable f slot → ∀ s₁ : State, s₁.todo = slot :: later → s₁.mark = s.mark →
        drainSlots f later (advance f s₁) = .matched s' → s'.mark = s.mark := by
      intro hd s₁ htodo₁ hmark h₁
      obtain ⟨stuck, hmem, hnot⟩ := hstuck
      have hlater : stuck ∈ later :=
        (List.mem_cons.1 hmem).resolve_left (fun he => hnot (he ▸ hd))
      have heq := advance_of_ne_nil (f := f) htodo₁ (List.ne_nil_of_mem hlater)
      rw [ih (s := advance f s₁) ⟨stuck, hlater, hnot⟩ (by rw [heq]) h₁, heq, ← hmark]
    unfold drainSlots at h
    split at h
    · rename_i found hfound
      exact hnext (.inl (by simp [hfound])) { s with args := s.args.merge found.args } htodo rfl h
    · cases h
    · split at h
      · rename_i hskip
        exact hnext (.inr hskip) s htodo rfl h
      · cases h
        rfl

theorem Coherent.release (hc : Coherent f ts s) : Coherent f ts (release f s) := by
  unfold Scan.release
  cases habs : s.absorbing with
  | none => exact hc
  | some a => exact hc.closing (.release habs)

/-- What has a complete pass behind it keeps it to the end. -/
theorem Coherent.passes_pos_closing (hc : Coherent f ts s) (hpos : 0 < s.passes)
    (hm : Closing f s s') : 0 < s'.passes := by
  cases hm with
  | release habs =>
    obtain ⟨slot, later, htodo, -⟩ := hc.held _ habs
    exact Nat.lt_of_lt_of_le hpos
      (passes_le_advance (s := { s with absorbing := none }) htodo)
  | @blank slot later found htodo _ _ =>
    exact Nat.lt_of_lt_of_le hpos
      (passes_le_advance (s := { s with args := s.args.merge found.args }) htodo)
  | absent htodo _ _ _ => exact Nat.lt_of_lt_of_le hpos (passes_le_advance htodo)

/-- The scan has a complete pass in the end if it gets past every slot. -/
theorem Coherent.passes_pos_drain (hc : Coherent f ts s)
    (hall : ∀ slot ∈ f.slots, Dispensable f slot) (h : drain f s = .matched s') :
    0 < s'.mark.passes := by
  by_cases hpos : 0 < (Scan.release f s).passes
  · have hr := hc.release
    have hidle := absorbing_release f s
    have hd : drain f (Scan.release f s) = .matched s' := by
      have hagain : Scan.release f (Scan.release f s) = Scan.release f s := by
        rw [Scan.release, hidle]
        simp
      unfold drain at h ⊢
      dsimp only at h ⊢
      rw [hagain]
      exact h
    obtain ⟨⟨hc', hpos'⟩, -⟩ := drain_cases
      (P := fun s => Coherent f ts s ∧ 0 < s.passes)
      (fun s s' hs hm => ⟨hs.1.closing hm, hs.1.passes_pos_closing hs.2 hm⟩) ⟨hr, hpos⟩ hd
    rw [hc'.mark_passes]
    exact hpos'
  · have hzero : (Scan.release f s).passes = 0 := by omega
    have hr := hc.release
    have htodo : (Scan.release f s).todo ≠ [] := fun hnil => hpos (hr.finished hnil)
    unfold drain at h
    dsimp only at h
    rw [if_pos (by simp [underWay, hzero])] at h
    rw [passes_drainSlots (fun slot hs => hall slot (hr.mem_slots hs)) htodo rfl h]
    exact Nat.succ_pos _

/-- A run does not fail if there are passes enough wherever it may settle. -/
theorem run_ne_noMatch_of_settles {P : State → Prop}
    (hmove : ∀ s s', P s → s.pos < ts.length → Move f ts s s' → P s') (hs : P s)
    (hstop : ∀ s', P s' → step f ts s' = .noMatch → f.shape.minPasses ≤ s'.mark.passes)
    (hdrain : ∀ s' s'', P s' → drain f s' = .matched s'' →
      f.shape.minPasses ≤ s''.mark.passes) : run f ts s ≠ .noMatch := by
  obtain ⟨s', hs', hend⟩ := run_cases ts hmove hs
  rcases hend with ⟨-, hstep, hrun⟩ | ⟨e, -, -, hrun⟩ | ⟨-, hrun⟩
  · rw [hrun]
    exact settle_ne_noMatch (hstop s' hs' hstep)
  · rw [hrun]
    simp
  · rw [hrun]
    cases hd : drain f s' with
    | matched s'' => exact settle_ne_noMatch (hdrain s' s'' hs' hd)
    | noMatch => exact absurd hd (drain_ne_noMatch f s')
    | invalid e => simp [Verdict.bind]

/-- A run does not fail if one pass is enough and every slot can be got past. -/
theorem run_ne_noMatch (hb : f.Bounded) (hmin : f.shape.minPasses ≤ 1)
    (hno : ∀ slot ∈ f.slots, f.shape.skips slot.node = true ∨
      ∀ us, slot.attempt us ≠ .noMatch) (hs : Coherent f ts s) : run f ts s ≠ .noMatch := by
  have hall : ∀ slot ∈ f.slots, Dispensable f slot := by
    intro slot hslot
    rcases hno slot hslot with hskip | hany
    · exact .inr hskip
    · exact .inl (hany [])
  refine run_ne_noMatch_of_settles (fun s s' hs hpos hm => hs.move hb hpos hm) hs
    (fun s' hc hstep => ?_) (fun s' s'' hc hd => ?_)
  · refine Nat.le_trans hmin ?_
    rw [hc.mark_passes]
    cases htodo : s'.todo with
    | nil => exact hc.finished htodo
    | cons slot later =>
      -- a step fails only where the slot neither matches nor may be left out
      obtain ⟨-, hnone, hskip⟩ := step_eq_noMatch htodo hstep
      have hslot : slot ∈ f.slots := hc.mem_slots (by simp [htodo])
      rcases hno slot hslot with hs | hany
      · simp [hskip] at hs
      · exact absurd hnone (hany _)
  · exact Nat.le_trans hmin (hc.passes_pos_drain hall hd)

theorem run_ne_noMatch_of_optional (hmin : f.shape.minPasses = 0) : run f ts s ≠ .noMatch := by
  have hle : ∀ s' : State, f.shape.minPasses ≤ s'.mark.passes := fun s' =>
    hmin ▸ Nat.zero_le _
  exact run_ne_noMatch_of_settles (P := fun _ => True) (fun _ _ _ _ _ => trivial) trivial
    (fun s' _ _ => hle s') (fun _ s'' _ _ => hle s'')

/-- Nothing has been taken and nothing read. -/
structure Blank (f : Frame) (s : State) : Prop where
  args : s.args = f.seed
  pos : s.pos = 0
  mark_args : s.mark.args = f.seed
  mark_pos : s.mark.pos = 0

theorem Blank.advance (h : Blank f s) (htodo : s.todo = slot :: later) :
    Blank f (advance f s) := by
  obtain ⟨-, heq⟩ | ⟨-, -, heq⟩ | ⟨-, -, heq⟩ := advance_cases f htodo <;> rw [heq]
  · exact ⟨h.args, h.pos, h.mark_args, h.mark_pos⟩
  · exact ⟨h.args, h.pos, h.args, h.pos⟩
  · exact ⟨h.args, h.pos, h.args, h.pos⟩

theorem drainSlots_ne_invalid (hvalid : ∀ slot ∈ slots, ∀ e, slot.attempt [] ≠ .invalid e)
    (e : Failure) : drainSlots f slots s ≠ .invalid e := by
  induction slots generalizing s with
  | nil => simp [drainSlots]
  | cons slot later ih =>
    obtain ⟨hslot, hlater⟩ := List.forall_mem_cons.1 hvalid
    unfold drainSlots
    split
    · exact ih hlater
    · rename_i e' he
      exact absurd he (hslot e')
    · split
      · exact ih hlater
      · simp

/-- Without tokens a scan ends with its one pass or with none. -/
theorem drain_start (hne : f.slots ≠ [])
    (hmerge : ∀ slot ∈ f.slots, ∀ found, slot.attempt [] = .matched found →
      f.seed.merge found.args = f.seed)
    (hvalid : ∀ slot ∈ f.slots, ∀ e, slot.attempt [] ≠ .invalid e) :
    ∃ s', drain f (start f) = .matched s' ∧ Blank f s' ∧
      ((∀ slot ∈ f.slots, Dispensable f slot) → s'.mark.passes = 1) ∧
      ((∃ slot ∈ f.slots, ¬ Dispensable f slot) → s'.mark.passes = 0) := by
  have hslots : drain f (start f) = drainSlots f f.slots (start f) := by
    simp [drain, release, start, underWay]
  cases hd : drain f (start f) with
  | noMatch => exact absurd hd (drain_ne_noMatch f _)
  | invalid e =>
    rw [hslots] at hd
    exact absurd hd (drainSlots_ne_invalid hvalid e)
  | matched s' =>
    obtain ⟨⟨-, hblank⟩, -⟩ := drain_cases (P := fun s => Coherent f [] s ∧ Blank f s)
      (fun s s' hs hm => ⟨hs.1.closing hm, by
        cases hm with
        | release habs =>
          obtain ⟨slot, later, htodo, -⟩ := hs.1.held _ habs
          have hb : Blank f { s with absorbing := none } :=
            ⟨hs.2.args, hs.2.pos, hs.2.mark_args, hs.2.mark_pos⟩
          exact hb.advance htodo
        | @blank slot later found htodo _ hfound =>
          have hslot : slot ∈ f.slots := hs.1.mem_slots (by simp [htodo])
          have hargs : s.args.merge found.args = f.seed := by
            rw [hs.2.args]
            exact hmerge slot hslot found hfound
          have hb : Blank f { s with args := s.args.merge found.args } :=
            ⟨hargs, hs.2.pos, hs.2.mark_args, hs.2.mark_pos⟩
          exact hb.advance htodo
        | absent htodo _ _ _ => exact hs.2.advance htodo⟩)
      ⟨start_coherent hne, ⟨rfl, rfl, rfl, rfl⟩⟩ hd
    rw [hslots] at hd
    exact ⟨s', rfl, hblank, fun hall => passes_drainSlots hall hne rfl hd,
      fun hstuck => by rw [mark_drainSlots hstuck rfl hd]; rfl⟩

end

end Scan

/-- What a place answers where there are no tokens. -/
def Node.BlankAnswer (n : Node) : Prop :=
  n.attempt [] = if n.nullable then .matched { args := Args.ofNames n.names, consumed := 0 }
    else .noMatch

section
variable {g : Group}

theorem Group.dispensable_iff (ih : ∀ c ∈ g.children, c.BlankAnswer) {c : Node}
    (hc : c ∈ g.children) : Scan.Dispensable g.frame c.slot ↔
      g.shape.skips c = true ∨ c.nullable = true := by
  have hanswer : c.slot.attempt [] ≠ .noMatch ↔ c.nullable = true := by
    change c.attempt [] ≠ .noMatch ↔ _
    rw [ih c hc]
    cases c.nullable <;> simp
  unfold Scan.Dispensable
  rw [hanswer, or_comm]
  rfl

theorem Group.blankAnswer_of_children (ih : ∀ c ∈ g.children, c.BlankAnswer) :
    g.toNode.BlankAnswer := by
  unfold Node.BlankAnswer
  rw [g.attempt_toNode, ← g.seed_eq_ofNames]
  by_cases hnil : g.children = []
  · have hnull : g.toNode.nullable = true := Node.nullable_group_iff.2 (.inl hnil)
    rw [matchPrefix_of_children_eq_nil hnil, if_pos hnull]
  · have hmerge : ∀ slot ∈ g.frame.slots, ∀ found, slot.attempt [] = .matched found →
        g.seed.merge found.args = g.seed := by
      intro slot hslot found hfound
      obtain ⟨c, hc, rfl⟩ := mem_frame_slots.1 hslot
      change c.attempt [] = _ at hfound
      rw [ih c hc] at hfound
      split at hfound
      · cases hfound
        exact Args.merge_record (contains_seed_of_mem hc) []
      · cases hfound
    have hvalid : ∀ slot ∈ g.frame.slots, ∀ e, slot.attempt [] ≠ .invalid e := by
      intro slot hslot e
      obtain ⟨c, hc, rfl⟩ := mem_frame_slots.1 hslot
      change c.attempt [] ≠ _
      rw [ih c hc]
      split <;> simp
    obtain ⟨s, hs, hblank, hone, hzero⟩ :=
      Scan.drain_start (frame_slots_ne_nil hnil) hmerge hvalid
    have hsettle : g.matchPrefix [] = if g.shape.minPasses ≤ s.mark.passes then
        .matched { args := g.seed, consumed := 0 } else .noMatch := by
      rw [matchPrefix_of_children_ne_nil hnil, Scan.run_of_le (Nat.zero_le _), hs]
      change Scan.settle g.frame s = _
      unfold Scan.settle
      rw [hblank.mark_args, hblank.mark_pos]
      rfl
    rw [hsettle]
    refine if_congr ?_ rfl rfl
    unfold toNode
    rw [Node.nullable_group_iff]
    by_cases hall : ∀ c ∈ g.children, g.shape.MayLack c ∨ c.nullable = true
    · have hpasses := hone fun slot hslot => by
        obtain ⟨c, hc, rfl⟩ := mem_frame_slots.1 hslot
        rw [dispensable_iff ih hc, Shape.skips_eq_true_iff]
        exact hall c hc
      rw [hpasses]
      constructor
      · intro hle
        rcases Nat.le_one_iff_eq_zero_or_eq_one.1 hle with hmin | hmin
        · exact .inr (.inl hmin)
        · exact .inr (.inr ⟨hmin, hall⟩)
      · rintro (hc | hmin | ⟨hmin, -⟩)
        · exact absurd hc hnil
        · exact hmin ▸ Nat.zero_le 1
        · exact Nat.le_of_eq hmin
    · have hpasses := hzero <| by
        obtain ⟨c, hc, hstuck⟩ : ∃ c ∈ g.children, ¬ (g.shape.MayLack c ∨ c.nullable = true) := by
          simpa using hall
        refine ⟨c.slot, mem_frame_slots.2 ⟨c, hc, rfl⟩, ?_⟩
        rw [dispensable_iff ih hc, Shape.skips_eq_true_iff]
        exact hstuck
      simp [hnil, hall, hpasses]

end

theorem Node.blankAnswer (n : Node) : n.BlankAnswer := by
  induction n using Node.induct with
  | leaf l =>
    rw [BlankAnswer, Node.attempt]
    rfl
  | group shape children ih => exact Group.blankAnswer_of_children (g := { shape, children }) ih

theorem Node.attempt_ne_noMatch (n : Node) (hn : n.nullable = true) (ts : List String) :
    n.attempt ts ≠ .noMatch := by
  induction n using Node.induct generalizing ts with
  | leaf l => simp [nullable] at hn
  | group shape children ih =>
    let g : Group := { shape, children }
    change g.toNode.attempt ts ≠ _
    rw [g.attempt_toNode]
    by_cases hnil : g.children = []
    · rw [Group.matchPrefix_of_children_eq_nil hnil]
      simp
    · rw [Group.matchPrefix_of_children_ne_nil hnil]
      rcases nullable_group_iff.1 hn with hc | hmin | ⟨hmin, hall⟩
      · exact absurd hc hnil
      · exact Scan.run_ne_noMatch_of_optional hmin
      · refine Scan.run_ne_noMatch g.bounded (Nat.le_of_eq hmin) (fun slot hslot => ?_)
          (Scan.start_coherent (Group.frame_slots_ne_nil hnil))
        obtain ⟨c, hc, rfl⟩ := Group.mem_frame_slots.1 hslot
        rcases hall c hc with hlack | hnull
        · exact .inl (Shape.skips_eq_true_iff.2 hlack)
        · exact .inr (ih c hc hnull)

/-- Without tokens a nullable group matches and any other does not, and the nullable groups are
those that answer `noMatch` to no tokens at all. -/
theorem Group.nullable_decides_noMatch (g : Group) :
    g.matchPrefix [] =
        (if g.nullable then .matched { args := g.seed, consumed := 0 } else .noMatch) ∧
      (g.nullable = true ↔ ∀ ts, g.matchPrefix ts ≠ .noMatch) := by
  have hblank : g.matchPrefix [] =
      if g.nullable then .matched { args := g.seed, consumed := 0 } else .noMatch := by
    rw [← g.attempt_toNode, g.seed_eq_ofNames]
    exact g.toNode.blankAnswer
  refine ⟨hblank, fun hn ts => ?_, fun hall => ?_⟩
  · rw [← g.attempt_toNode]
    exact g.toNode.attempt_ne_noMatch hn ts
  · cases hn : g.nullable with
    | true => rfl
    | false =>
      rw [hn] at hblank
      exact absurd hblank (hall [])

end Chatline
