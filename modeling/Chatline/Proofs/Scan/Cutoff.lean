import Chatline.Proofs.Scan.Leafwise
import Chatline.Proofs.Scan.Straight

/-! Scans of leaves, with the tokens cut off behind the match. Up to its last mark a scan does not
look at the tokens behind it. What is left of the pass is gone through in both scans: before the
first token behind the mark in the one, without tokens in the other. -/
namespace Chatline.Scan

variable {f : Frame} {ts : List String} {s s' t : State} {slot : Slot} {later : List Slot} {k : Nat}

section
variable (hf : f.OfLeaves)
include hf

/-- A leaf looks at the next token only. -/
theorem attempt_cut (hslot : slot ∈ f.slots) {pos : Nat} (hpos : pos < k) :
    slot.attempt ((ts.take k).drop pos) = slot.attempt (ts.drop pos) := by
  obtain ⟨l, rfl⟩ := hf slot hslot
  change (Node.leaf l).attempt _ = (Node.leaf l).attempt _
  rw [Node.attempt, Node.attempt, List.drop_take]
  obtain ⟨n, hn⟩ : ∃ n, k - pos = n + 1 := ⟨k - pos - 1, by omega⟩
  rw [hn]
  cases ts.drop pos <;> rfl

theorem pick_cut {slots : List Slot} (hslots : ∀ o ∈ slots, o ∈ f.slots) {pos : Nat}
    (hpos : pos < k) : pick ((ts.take k).drop pos) slots = pick (ts.drop pos) slots := by
  induction slots with
  | nil => rfl
  | cons o slots ih =>
    obtain ⟨ho, hmore⟩ := List.forall_mem_cons.1 hslots
    rw [pick, pick, attempt_cut hf ho hpos, ih hmore]

end

theorem widened_cut {a : Absorbing} (hpos : s.pos < k) :
    widened (ts.take k) a s = widened ts a s := by
  unfold widened
  rw [List.drop_take, List.take_take, Nat.min_eq_left (by omega)]

theorem unrivalled_cut (hf : f.OfLeaves) {a : Absorbing} (hlater : ∀ o ∈ later, o ∈ f.slots)
    (hpos : s.pos < k) (h : Unrivalled f ts a later s) : Unrivalled f (ts.take k) a later s := by
  intro rival hrival
  have hslot := (mem_of_rival? hrival).elim (hlater rival) id
  rw [attempt_cut hf hslot hpos]
  exact h rival hrival

/-- A move at a token that is not cut off. -/
theorem Coherent.move_cut (hc : Coherent f ts s) (hf : f.OfLeaves) (hpos : s.pos < k)
    (hm : Move f ts s s') : Move f (ts.take k) s s' := by
  have hlater : ∀ {slot later}, s.todo = slot :: later → ∀ o ∈ later, o ∈ f.slots :=
    fun htodo o ho => hc.mem_slots (by simp [htodo, ho])
  have hslot : ∀ {slot later}, s.todo = slot :: later → slot ∈ f.slots :=
    fun htodo => hc.mem_slots (by simp [htodo])
  cases hm with
  | take htodo hidle hfound =>
    rw [← attempt_cut hf (hslot htodo) hpos] at hfound
    exact .take htodo hidle hfound
  | promote htodo hidle hflex hno hpick =>
    rw [← attempt_cut hf (hslot htodo) hpos] at hno
    rw [← pick_cut hf (hlater htodo) hpos] at hpick
    exact .promote htodo hidle hflex hno hpick
  | skip htodo hidle hno hstay hskip =>
    rw [← attempt_cut hf (hslot htodo) hpos] at hno
    refine .skip htodo hidle hno (fun hflex => ?_) hskip
    rw [pick_cut hf (hlater htodo) hpos]
    exact hstay hflex
  | widen htodo habs hrival hread =>
    rw [← widened_cut hpos] at hread
    exact .widen htodo habs (unrivalled_cut hf (hlater htodo) hpos hrival) hread
  | close htodo habs hrival hread =>
    rw [← widened_cut hpos] at hread
    exact .close htodo habs (unrivalled_cut hf (hlater htodo) hpos hrival) hread
  | yield htodo habs hrival hfound hsome =>
    have hmem := (mem_of_rival? hrival).elim (hlater htodo _) id
    rw [← attempt_cut hf hmem hpos] at hfound
    exact .yield htodo habs hrival hfound hsome

/-- The scan has nothing more to do, or it is in a pass that has taken tokens, or at the start of
one. -/
structure Poised (f : Frame) (s : State) : Prop where
  idle : s.absorbing = none
  balanced : s.todo = [] ∨ (s.passStart < s.pos ∧ s.done ≠ []) ∨ s = State.fresh f s.mark

/-- The second state is the one at the end of the pass: the scan is finished, or another pass
begins, but not after a pass that took no token. -/
structure PassEnd (f : Frame) (s s' : State) : Prop where
  mark : s'.mark = s.endOfPass
  idle : s'.absorbing = none
  next : s'.todo = [] ∨ s.pos ≠ s.passStart ∧ s' = State.fresh f s.endOfPass

theorem passEnd_advance (htodo : s.todo = [slot]) (hidle : s.absorbing = none) :
    PassEnd f s (advance f s) := by
  have hidle' : (advance f s).absorbing = none := (absorbing_advance f s).trans hidle
  by_cases hlast : f.shape.maxPasses ≤ s.passes + 1 ∨ s.pos = s.passStart
  · have heq := advance_last htodo hlast
    exact ⟨by rw [heq], hidle', .inl (by rw [heq])⟩
  · have heq := advance_eq_fresh htodo hidle hlast
    exact ⟨by rw [heq]; rfl, hidle', .inr ⟨fun h => hlast (.inr h), heq⟩⟩

theorem poised_advance (htodo : s.todo = slot :: later) (hidle : s.absorbing = none)
    (hbegun : s.passStart < s.pos) : Poised f (advance f s) := by
  by_cases hlater : later = []
  · subst hlater
    obtain ⟨hmark, hidle', hnil | ⟨-, hfresh⟩⟩ := passEnd_advance (f := f) htodo hidle
    · exact ⟨hidle', .inl hnil⟩
    · exact ⟨hidle', .inr (.inr (hmark ▸ hfresh))⟩
  · rw [advance_of_ne_nil htodo hlater]
    exact ⟨hidle, .inr (.inl ⟨hbegun, List.cons_ne_nil _ _⟩)⟩

theorem poised_release_accept {found : Found} (htodo : s.todo = slot :: later)
    (hidle : s.absorbing = none) (hle : s.passStart ≤ s.pos) (hone : found.consumed = 1) :
    Poised f (release f (accept f slot found s)) := by
  have hbegun : s.passStart < s.pos + 1 := Nat.lt_succ_of_le hle
  cases hgreedy : slot.node.greedyLeaf? with
  | some leaf =>
    rw [accept_greedy hgreedy, release_of_absorbing rfl]
    exact poised_advance
      (s := { s with args := s.args.merge found.args, pos := s.pos + 1, absorbing := none })
      htodo rfl hbegun
  | none =>
    have hpoised := poised_advance (f := f)
      (s := { s with args := s.args.merge found.args, pos := s.pos + 1 }) htodo hidle hbegun
    rw [accept_of_none hgreedy, hone, release_of_idle hpoised.idle]
    exact hpoised

/-- A scan that has just taken a token is poised once its absorbing leaf is left. -/
theorem Leafwise.poised (h : Leafwise f ts s s') (hc : Coherent f ts s) (hpos : s.pos < s'.pos) :
    Poised f (release f s') := by
  cases h with
  | taken htodo hidle hone _ hle _ _ => exact poised_release_accept htodo hidle hle hone
  | @widened a args habs =>
    obtain ⟨slot, later, htodo, -, hlo, hhi⟩ := hc.held a habs
    have hbegun : s.passStart < s.pos + 1 := by omega
    rw [release_of_absorbing (s := { s with args, pos := s.pos + 1 }) habs]
    exact poised_advance (s := { s with args, pos := s.pos + 1, absorbing := none })
      htodo rfl hbegun
  | left =>
    rw [pos_advance] at hpos
    exact absurd hpos (Nat.lt_irrefl _)

/-- Two scans go the same way up to the mark of the one that has more tokens. -/
theorem Coherent.ends_cut (hc : Coherent f ts s) (hf : f.OfLeaves) (hb : f.Bounded)
    (h : Ends f ts s t) (hk : k ≤ ts.length) (hle : s.pos ≤ k)
    (hpoised : s.pos = k → Poised f (Scan.release f s)) (ht : t.mark.pos = k) :
    ∃ s', Coherent f ts s' ∧ s'.pos = k ∧ Poised f (Scan.release f s') ∧ Ends f ts s' t ∧
      ∀ t', Scan.drain f s' = .matched t' → Ends f (ts.take k) s t' := by
  have hlength : (ts.take k).length = k := List.length_take_of_le hk
  have hend : ∀ {s : State}, s.pos = k → (ts.take k).length ≤ s.pos := fun hpos =>
    Nat.le_of_eq (hlength.trans hpos.symm)
  induction h with
  | @stop s hlt hstep =>
    have hpos : s.pos = k := Nat.le_antisymm hle (ht ▸ hc.mark_pos_le)
    exact ⟨s, hc, hpos, hpoised hpos, .stop hlt hstep, fun _ => .drain (hend hpos)⟩
  | @move s s' t hlt hm rest ih =>
    by_cases hpos : s.pos = k
    · exact ⟨s, hc, hpos, hpoised hpos, .move hlt hm rest, fun _ => .drain (hend hpos)⟩
    · have hlt' : s.pos < k := Nat.lt_of_le_of_ne hle hpos
      have hleaf := hc.leafwise hf hm
      have hle' : s'.pos ≤ k := by
        have := hleaf.pos_cases
        omega
      obtain ⟨s₁, hc₁, hpos₁, hpoised₁, hends₁, hdrain₁⟩ := ih (hc.move hb hlt hm) hle'
        (fun hpos' => hleaf.poised hc (hpos' ▸ hlt')) ht
      exact ⟨s₁, hc₁, hpos₁, hpoised₁, hends₁,
        fun t' ht' => .move (hlength.symm ▸ hlt') (hc.move_cut hf hlt' hm) (hdrain₁ t' ht')⟩
  | @drain s t hused hdrain =>
    have hpos : s.pos = k := Nat.le_antisymm hle (Nat.le_trans hk hused)
    exact ⟨s, hc, hpos, hpoised hpos, .drain hused hdrain, fun _ => .drain (hend hpos)⟩

/-- Before a token behind the last mark an absorbing leaf is left, as it is without tokens. -/
theorem Ends.release (h : Ends f ts s t) (hc : Coherent f ts s) (hf : f.OfLeaves) (hb : f.Bounded)
    (hlt : s.pos < ts.length) (ht : t.mark.pos = s.pos) : Ends f ts (Scan.release f s) t := by
  cases habs : s.absorbing with
  | none =>
    rw [release_of_idle habs]
    exact h
  | some a =>
    obtain ⟨slot, later, htodo, -, hlo, hhi⟩ := hc.held a habs
    have hmark := (hc.unfinished (by simp [htodo])).2
    cases h with
    | stop _ _ => omega
    | @move _ s' _ _ hm rest =>
      have hc' := hc.move hb hlt hm
      cases hc.leafwise hf hm with
      | taken _ _ _ _ _ _ hm' => exact .move ((pos_release f s).symm ▸ hlt) hm' rest
      | widened _ =>
        -- a leaf that goes on is not done where the last pass ended
        have hlate : t.mark = s.mark ∨ s.pos < t.mark.pos :=
          rest.behind hc' hf hb ⟨Nat.lt_succ_self _, .inl rfl⟩
        rcases hlate with heq | hlt'
        · rw [heq] at ht
          omega
        · omega
      | left =>
        rw [release_of_absorbing habs]
        exact rest
    | drain hused _ => omega

/-- The slots are left out in front of tokens of which none of them takes the first one. -/
def LeftOut (f : Frame) (us : List String) (slots : List Slot) : Prop :=
  ∀ slot ∈ slots, f.shape.skips slot.node = true ∧ slot.attempt us = .noMatch

/-- Before a token behind the last mark the slots that are left to do are left out, as they are
without tokens, or the mark stays where it is. -/
theorem Ends.skips (h : Ends f ts s t) (hc : Coherent f ts s) (hf : f.OfLeaves) (hb : f.Bounded)
    (hidle : s.absorbing = none) (hne : s.todo ≠ []) (hlt : s.pos < ts.length)
    (ht : t.mark.pos ≤ s.pos) :
    t.mark = s.mark ∨ LeftOut f (ts.drop s.pos) s.todo ∧ ∃ s₁, Coherent f ts s₁ ∧
      drainSlots f s.todo s = .matched s₁ ∧ Ends f ts s₁ t ∧ PassEnd f s s₁ := by
  induction h with
  | stop _ _ => exact .inl rfl
  | drain hused _ => omega
  | @move s s' t _ hm rest ih =>
    have hc' := hc.move hb hlt hm
    have htaken : Behind s.pos s.mark s' → t.mark = s.mark := fun hs' =>
      (rest.behind hc' hf hb hs').resolve_right (Nat.not_lt.2 ht)
    cases hm with
    | take htodo _ hfound =>
      have hone := consumed_eq_one hf (hc.mem_slots (by simp [htodo])) hfound
      exact .inl (htaken (Behind.accept (Nat.le_refl _) (.inl rfl) hone))
    | promote htodo _ hflex _ hpick =>
      obtain ⟨-, -, -, -, hfound⟩ := pick_eq_matched hpick
      have hmem := (hc.promote hidle htodo hflex hpick).mem_slots List.mem_cons_self
      have hone := consumed_eq_one hf hmem hfound
      refine .inl (htaken ?_)
      exact Behind.accept (s := { s with todo := _ }) (Nat.le_refl _) (.inl rfl) hone
    | @skip slot later htodo _ hno _ hskip =>
      have hdrain : drainSlots f s.todo s = drainSlots f later (advance f s) := by
        rw [htodo, drainSlots, attempt_nil hf (hc.mem_slots (by simp [htodo]))]
        exact if_pos hskip
      by_cases hlater : later = []
      · subst hlater
        refine .inr ⟨?_, advance f s, hc', hdrain, rest, passEnd_advance htodo hidle⟩
        rw [htodo]
        exact List.forall_mem_singleton.2 ⟨hskip, hno⟩
      · have heq := advance_of_ne_nil (f := f) htodo hlater
        rw [heq] at ih rest hc' hdrain
        refine (ih hc' hidle hlater hlt ht).imp_right fun hskips => ?_
        obtain ⟨hleft, s₁, hc₁, hdrain₁, hends₁, hend₁⟩ := hskips
        refine ⟨?_, s₁, hc₁, hdrain.trans hdrain₁, hends₁, hend₁.mark, hend₁.idle, hend₁.next⟩
        rw [htodo]
        exact List.forall_mem_cons.2 ⟨⟨hskip, hno⟩, hleft⟩
    | widen _ habs _ _ => simp [hidle] at habs
    | close _ habs _ _ => simp [hidle] at habs
    | yield _ habs _ _ _ => simp [hidle] at habs

/-- A pass that begins at the last mark takes nothing: it is given up, or all of its slots are
left out. -/
theorem Ends.of_fresh {m : Mark} (h : Ends f ts (.fresh f m) t)
    (hc : Coherent f ts (.fresh f m)) (hf : f.OfLeaves) (hb : f.Bounded) (hne : f.slots ≠ [])
    (hlt : m.pos < ts.length) (ht : t.mark.pos ≤ m.pos) :
    t.mark = m ∨
      LeftOut f (ts.drop m.pos) f.slots ∧ t.mark = { m with passes := m.passes + 1 } := by
  refine (h.skips hc hf hb rfl hne hlt ht).imp_right fun hskips => ?_
  obtain ⟨hleft, s₁, -, -, hends, hmark, hidle, hnil | ⟨hbegun, -⟩⟩ := hskips
  · rw [hends.of_finished hnil hidle, hmark]
    exact ⟨hleft, rfl⟩
  · exact absurd rfl hbegun

/-- How the mark of a scan compares with that of the scan without the tokens behind it: it is the
end of as many passes, or of one pass more, in which all slots were left out in front of the first
of these tokens. -/
structure Mark.CutTo (f : Frame) (ts : List String) (m m' : Mark) : Prop where
  args : m'.args = m.args
  pos : m'.pos = m.pos
  passes : m.passes ≤ m'.passes ∨
    m.passes = m'.passes + 1 ∧ 0 < m'.passes ∧ LeftOut f (ts.drop m.pos) f.slots

theorem Mark.CutTo.refl (m : Mark) : Mark.CutTo f ts m m := ⟨rfl, rfl, .inl (Nat.le_refl _)⟩

/-- The rest of a pass without tokens leaves the mark as it is or ends the pass. -/
theorem drainSlots_of_leaves (hf : f.OfLeaves) {slots : List Slot} (htodo : s.todo = slots)
    (hslots : ∀ slot ∈ slots, slot ∈ f.slots) : ∃ t, drainSlots f slots s = .matched t ∧
      (t.mark = s.mark ∨ t.mark = s.endOfPass) := by
  induction slots generalizing s with
  | nil => exact ⟨s, rfl, .inl rfl⟩
  | cons slot later ih =>
    obtain ⟨hslot, hlater⟩ := List.forall_mem_cons.1 hslots
    rw [drainSlots, attempt_nil hf hslot]
    dsimp only
    split
    · by_cases hnil : later = []
      · subst hnil
        exact ⟨advance f s, rfl, mark_advance f s⟩
      · rw [advance_of_ne_nil htodo hnil]
        exact ih (s := { s with done := slot :: s.done, todo := later }) rfl hlater
    · exact ⟨s, rfl, .inl rfl⟩

theorem drain_release (f : Frame) (s : State) : drain f (release f s) = drain f s := by
  rw [drain_of_idle (absorbing_release f s)]
  rfl

section
variable (hf : f.OfLeaves) (hb : f.Bounded) (hne : f.slots ≠ [])
include hf hb hne

theorem Ends.cutTo_mark {m : Mark} (h : Ends f ts (.fresh f m) t) (hc : Coherent f ts (.fresh f m))
    (hlt : m.pos < ts.length) (ht : t.mark.pos ≤ m.pos) (hpasses : 0 < m.passes) :
    Mark.CutTo f ts t.mark m := by
  rcases h.of_fresh hc hf hb hne hlt ht with heq | ⟨hleft, heq⟩ <;> rw [heq]
  · exact .refl m
  · exact ⟨rfl, rfl, .inr ⟨rfl, hpasses, hleft⟩⟩

/-- Without tokens the first pass is gone through as it is before a token, and any other pass is
not. -/
theorem Ends.cutTo_fresh {m : Mark} (h : Ends f ts (.fresh f m) t)
    (hc : Coherent f ts (.fresh f m)) (hlt : m.pos < ts.length) (ht : t.mark.pos ≤ m.pos) :
    ∃ t', Scan.drain f (.fresh f m) = .matched t' ∧ Mark.CutTo f ts t.mark t'.mark := by
  rw [drain_of_idle rfl]
  by_cases hpasses : m.passes = 0
  · have hway : underWay (.fresh f m) = true := by simp [underWay, State.fresh, hpasses]
    obtain ⟨t', hdrain, hmark⟩ := drainSlots_of_leaves hf (s := .fresh f m) rfl fun _ => id
    refine ⟨t', (if_pos hway).trans hdrain, ?_⟩
    rcases h.of_fresh hc hf hb hne hlt ht with heq | ⟨hleft, heq⟩
    · rw [heq]
      rcases hmark with heq' | heq' <;> rw [heq']
      · exact .refl m
      · exact ⟨rfl, rfl, .inl (Nat.le_succ _)⟩
    · have hfull : t'.mark.passes = m.passes + 1 :=
        passes_drainSlots (fun slot hslot => .inr (hleft slot hslot).1) hne rfl hdrain
      rcases hmark with heq' | heq'
      · rw [heq'] at hfull
        exact absurd hfull (Nat.ne_of_lt (Nat.lt_succ_self _))
      · rw [heq, heq']
        exact .refl _
  · have hway : ¬ underWay (.fresh f m) = true := by simp [underWay, State.fresh, hpasses]
    exact ⟨.fresh f m, if_neg hway,
      h.cutTo_mark hf hb hne hc hlt ht (Nat.pos_of_ne_zero hpasses)⟩

theorem Ends.cutTo_poised (h : Ends f ts s t) (hc : Coherent f ts s) (hpoised : Poised f s)
    (hlt : s.pos < ts.length) (ht : t.mark.pos = s.pos) :
    ∃ t', Scan.drain f s = .matched t' ∧ Mark.CutTo f ts t.mark t'.mark := by
  have hidle := hpoised.idle
  by_cases htodo : s.todo = []
  · rw [h.of_finished htodo hidle]
    exact ⟨s, drain_finished htodo hidle, .refl _⟩
  have hmark := (hc.unfinished htodo).2
  rcases hpoised.balanced with hnil | ⟨hbegun, hdone⟩ | hfresh
  · exact absurd hnil htodo
  · have hway : underWay s = true := by simp [underWay, hdone]
    rw [drain_of_idle hidle, if_pos hway]
    rcases h.skips hc hf hb hidle htodo hlt (Nat.le_of_eq ht) with heq | ⟨-, s₁, hskips⟩
    · -- the last mark is where the pass began, before the tokens that it has taken
      rw [heq] at ht
      omega
    · obtain ⟨hc₁, hdrain, hends, hend⟩ := hskips
      refine ⟨s₁, hdrain, ?_⟩
      rcases hend.next with hnil | ⟨-, hfresh⟩
      · rw [hends.of_finished hnil hend.idle]
        exact .refl _
      · rw [hend.mark]
        rw [hfresh] at hends hc₁
        exact hends.cutTo_mark hf hb hne hc₁ hlt (Nat.le_of_eq ht) (Nat.succ_pos _)
  · have hpos : s.mark.pos = s.pos := by rw [hfresh]; rfl
    rw [hfresh] at h hc ⊢
    exact h.cutTo_fresh hf hb hne hc (hpos ▸ hlt) (Nat.le_of_eq (ht.trans hpos.symm))

/-- The scan of the tokens that a scan of leaves has matched. -/
theorem Ends.cutoff (h : Ends f ts (start f) t) (hlt : t.mark.pos < ts.length) :
    ∃ t', Ends f (ts.take t.mark.pos) (start f) t' ∧ Mark.CutTo f ts t.mark t'.mark := by
  have hpoised : Poised f (Scan.release f (start f)) := ⟨rfl, .inr (.inr rfl)⟩
  obtain ⟨s, hc, hpos, hpoised, hends, hdrain⟩ := (start_coherent hne).ends_cut hf hb h
    (Nat.le_of_lt hlt) (Nat.zero_le _) (fun _ => hpoised) rfl
  have hends' := hends.release hc hf hb (hpos ▸ hlt) hpos.symm
  have hpos' : (Scan.release f s).pos = t.mark.pos := (pos_release f s).trans hpos
  obtain ⟨t', ht', hcut⟩ :=
    hends'.cutTo_poised hf hb hne hc.release hpoised (hpos' ▸ hlt) hpos'.symm
  exact ⟨t', hdrain t' (drain_release f s ▸ ht'), hcut⟩

end

end Chatline.Scan
