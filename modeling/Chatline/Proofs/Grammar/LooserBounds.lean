import Chatline.Proofs.Scan.Ends
import Chatline.Proofs.Scan.OnePass

/-! Repeated groups under looser bounds. Two scans with different bounds go the same way until the
tighter bound ends one of them; if that is where the tokens end, the other one ends there too. -/
namespace Chatline

/-- The group, repeated within other bounds. -/
def Group.repeated (g : Group) (r : Repetition) : Group :=
  { g with shape := { g.shape with repetition := some r } }

def Frame.repeated (f : Frame) (r : Repetition) : Frame :=
  { f with shape := { f.shape with repetition := some r } }

namespace Scan

/-- The state at the start of the pass that would follow. -/
def State.reopened (f : Frame) (s : State) : State :=
  { s with done := [], todo := f.slots, passStart := s.pos }

/-- A scan has ended with a pass where another one, in the second state, goes on. -/
structure Ended (f : Frame) (s s' : State) : Prop where
  finished : s.todo = []
  idle : s.absorbing = none
  mark_pos : s.mark.pos = s.pos
  passes_pos : 0 < s.passes
  reopened : s' = s.reopened f

section
variable {f : Frame} {r : Repetition} {ts : List String} {s s' : State} {slot : Slot}
  {later : List Slot}

theorem skips_repeated (f : Frame) (r : Repetition) (n : Node) :
    (f.repeated r).shape.skips n = f.shape.skips n := rfl

theorem rival?_repeated (hrep : f.shape.repetition.isSome) (a : Absorbing) (later : List Slot) :
    rival? (f.repeated r) a later = rival? f a later := by
  unfold rival? Frame.repeated
  rw [hrep]
  rfl

theorem unrivalled_repeated (hrep : f.shape.repetition.isSome) {a : Absorbing} :
    Unrivalled (f.repeated r) ts a later s ↔ Unrivalled f ts a later s := by
  unfold Unrivalled
  rw [rival?_repeated hrep]

theorem advance_repeated (hmax : f.shape.maxPasses ≤ r.max) (hidle : s.absorbing = none)
    (htodo : s.todo = slot :: later) :
    advance (f.repeated r) s = advance f s ∨
      Ended f (advance f s) (advance (f.repeated r) s) := by
  have hbound : (f.repeated r).shape.maxPasses = r.max := rfl
  obtain ⟨hlater, heq⟩ | ⟨rfl, hlast, heq⟩ | ⟨rfl, hmore, heq⟩ := advance_cases f htodo
  · rw [heq, advance_of_ne_nil htodo hlater]
    exact .inl rfl
  · by_cases hlast' : (f.repeated r).shape.maxPasses ≤ s.passes + 1 ∨ s.pos = s.passStart
    · rw [heq, advance_last htodo hlast']
      exact .inl rfl
    · rw [heq, advance_again htodo hlast']
      exact .inr ⟨rfl, hidle, rfl, Nat.succ_pos _, rfl⟩
  · have hmore' : ¬ ((f.repeated r).shape.maxPasses ≤ s.passes + 1 ∨ s.pos = s.passStart) :=
      fun h => hmore (h.imp_left (Nat.le_trans (hbound ▸ hmax)))
    rw [heq, advance_again htodo hmore']
    exact .inl rfl

theorem accept_repeated (hmax : f.shape.maxPasses ≤ r.max) (hidle : s.absorbing = none)
    (htodo : s.todo = slot :: later) (found : Found) :
    accept (f.repeated r) slot found s = accept f slot found s ∨
      Ended f (accept f slot found s) (accept (f.repeated r) slot found s) := by
  cases hgreedy : slot.node.greedyLeaf? with
  | some leaf =>
    rw [accept_greedy hgreedy, accept_greedy hgreedy]
    exact .inl rfl
  | none =>
    rw [accept_of_none hgreedy, accept_of_none hgreedy]
    exact advance_repeated
      (s := { s with args := s.args.merge found.args, pos := s.pos + found.consumed })
      hmax hidle htodo

/-- Where a leaf yields to the first slot of a pass that the tighter bound excludes, the scan is
finished before the token at hand. -/
theorem takeOver_repeated (hmax : f.shape.maxPasses ≤ r.max) {a : Absorbing} {rival : Slot}
    (htodo : s.todo = slot :: later) (hrival : rival? f a later = some rival) (found : Found) :
    ((takeOver f rival found s).todo = [] ∧ (takeOver f rival found s).absorbing = none ∧
        (takeOver f rival found s).mark.pos = s.pos) ∨
      takeOver (f.repeated r) rival found s = takeOver f rival found s ∨
      Ended f (takeOver f rival found s) (takeOver (f.repeated r) rival found s) := by
  have hpos := pos_advance f { s with absorbing := none }
  have hidle := absorbing_advance f { s with absorbing := none }
  have htodo' : State.todo { s with absorbing := none } = slot :: later := htodo
  unfold takeOver
  dsimp only
  rcases advance_repeated hmax rfl htodo' with heq | hend
  · rw [heq]
    split
    · exact .inr (.inl rfl)
    · rename_i hopen
      obtain hnil | ⟨rest, hrest⟩ := todo_advance_of_rival htodo' hrival
      · simp [hnil] at hopen
      · exact .inr (accept_repeated hmax hidle hrest found)
  · rw [if_pos (by simp [hend.finished])]
    exact .inl ⟨hend.finished, hidle, hend.mark_pos.trans hpos⟩

/-- A move is possible under looser bounds too and leads to the same state, unless it ends the
scan. -/
theorem Move.repeated (hmax : f.shape.maxPasses ≤ r.max) (hrep : f.shape.repetition.isSome)
    (hm : Move f ts s s') :
    (s'.todo = [] ∧ s'.absorbing = none ∧ s'.mark.pos = s.pos) ∨
      ∃ s'', Move (f.repeated r) ts s s'' ∧ (s'' = s' ∨ Ended f s' s'') := by
  cases hm with
  | take htodo hidle hfound =>
    exact .inr ⟨_, .take htodo hidle hfound, accept_repeated hmax hidle htodo _⟩
  | @promote slot later p htodo hidle hflex hno hpick =>
    exact .inr ⟨_, .promote htodo hidle hflex hno hpick,
      accept_repeated (s := { s with todo := p.slot :: slot :: p.others }) hmax hidle rfl p.found⟩
  | skip htodo hidle hno hstay hskip =>
    exact .inr ⟨_, .skip htodo hidle hno hstay hskip, advance_repeated hmax hidle htodo⟩
  | widen htodo habs hrival hread =>
    have hrival' := (unrivalled_repeated (r := r) hrep).2 hrival
    exact .inr ⟨_, .widen htodo habs hrival' hread, .inl rfl⟩
  | close htodo habs hrival hread =>
    have hrival' := (unrivalled_repeated (r := r) hrep).2 hrival
    exact .inr ⟨_, .close htodo habs hrival' hread, advance_repeated hmax rfl htodo⟩
  | yield htodo habs hrival hfound hsome =>
    rcases takeOver_repeated hmax htodo hrival _ with hend | hsame
    · exact .inl hend
    · rw [← rival?_repeated (r := r) hrep] at hrival
      exact .inr ⟨_, .yield htodo habs hrival hfound hsome, hsame⟩

theorem drainSlots_repeated (hmax : f.shape.maxPasses ≤ r.max) {slots : List Slot} {t : State}
    (htodo : slots = [] ∨ s.todo = slots) (hidle : s.absorbing = none)
    (h : drainSlots f slots s = .matched t) :
    ∃ t', drainSlots (f.repeated r) slots s = .matched t' ∧ t'.mark = t.mark := by
  induction slots generalizing s with
  | nil =>
    cases h
    exact ⟨_, rfl, rfl⟩
  | cons slot later ih =>
    have htodo : s.todo = slot :: later := by simpa using htodo
    have hnext : ∀ s₁ : State, s₁.todo = slot :: later → s₁.absorbing = none →
        drainSlots f later (advance f s₁) = .matched t →
        ∃ t', drainSlots (f.repeated r) later (advance (f.repeated r) s₁) = .matched t' ∧
          t'.mark = t.mark := by
      intro s₁ htodo₁ hidle₁ h₁
      rcases advance_repeated hmax hidle₁ htodo₁ with heq | hend
      · rw [heq]
        exact ih (todo_advance htodo₁) ((absorbing_advance f s₁).trans hidle₁) h₁
      · -- the pass is over, so there are no slots left to go through
        have hlater : later = [] := (todo_advance htodo₁).elim id fun h => h ▸ hend.finished
        subst hlater
        cases h₁
        exact ⟨_, rfl, by rw [hend.reopened]; rfl⟩
    unfold drainSlots at h ⊢
    split at h
    · rename_i found hfound
      exact hnext { s with args := s.args.merge found.args } htodo hidle h
    · cases h
    · split at h
      · rename_i hskip
        rw [skips_repeated, if_pos hskip]
        exact hnext s htodo hidle h
      · rename_i hskip
        cases h
        exact ⟨_, if_neg hskip, rfl⟩

/-- Without tokens the scan ends at the same mark. -/
theorem Coherent.drain_repeated (hc : Coherent f ts s) (hmax : f.shape.maxPasses ≤ r.max)
    {t : State} (h : drain f s = .matched t) :
    ∃ t', drain (f.repeated r) s = .matched t' ∧ t'.mark = t.mark := by
  have hrelease : Scan.release (f.repeated r) s = Scan.release f s ∨
      Ended f (Scan.release f s) (Scan.release (f.repeated r) s) := by
    unfold Scan.release
    cases habs : s.absorbing with
    | none => exact .inl rfl
    | some a =>
      obtain ⟨slot, later, htodo, -⟩ := hc.held a habs
      exact advance_repeated (s := { s with absorbing := none }) hmax rfl htodo
  unfold drain at h ⊢
  dsimp only at h ⊢
  rcases hrelease with heq | hend
  · rw [heq]
    split at h
    · rename_i hway
      rw [if_pos hway]
      exact drainSlots_repeated hmax (.inr rfl) (absorbing_release f s) h
    · rename_i hway
      cases h
      exact ⟨_, if_neg hway, rfl⟩
  · have hmark : t.mark = (Scan.release f s).mark := by
      rw [hend.finished] at h
      split at h <;> cases h <;> rfl
    have hway : underWay (Scan.release (f.repeated r) s) = false := by
      rw [hend.reopened]
      simp [underWay, State.reopened, Nat.ne_of_gt hend.passes_pos]
    rw [hway, hmark, if_neg Bool.false_ne_true, hend.reopened]
    exact ⟨_, rfl, rfl⟩

theorem settle_repeated (hmin : r.min ≤ f.shape.minPasses) {t : State} {found : Found}
    (hmark : t.mark = s.mark) (h : settle f s = .matched found) :
    settle (f.repeated r) t = .matched found := by
  obtain ⟨hle, rfl⟩ := settle_eq_matched h
  unfold settle
  rw [hmark]
  exact if_pos (Nat.le_trans hmin hle)

/-- A scan that takes all tokens ends at the same mark if more passes are allowed. -/
theorem Ends.repeated {t : State} (h : Ends f ts s t) (hc : Coherent f ts s) (hb : f.Bounded)
    (hrep : f.shape.repetition.isSome) (hmax : f.shape.maxPasses ≤ r.max)
    (hall : t.mark.pos = ts.length) : ∃ t', Ends (f.repeated r) ts s t' ∧ t'.mark = t.mark := by
  induction h with
  | stop hpos _ =>
    have hle := hc.mark_pos_le
    omega
  | @move s s' t hpos hm rest ih =>
    rcases hm.repeated hmax hrep with ⟨htodo, hidle, hmark⟩ | ⟨s'', hm'', rfl | hend⟩
    · -- the token at hand would be left over
      obtain rfl := rest.of_finished htodo hidle
      omega
    · obtain ⟨t', ht', hmark⟩ := ih (hc.move hb hpos hm) hall
      exact ⟨t', .move hpos hm'' ht', hmark⟩
    · obtain rfl := rest.of_finished hend.finished hend.idle
      have hused : ts.length ≤ (t.reopened f).pos :=
        Nat.le_of_eq (hall.symm.trans hend.mark_pos)
      have hdrain : Scan.drain (f.repeated r) (t.reopened f) = .matched (t.reopened f) := by
        rw [drain_of_idle (s := t.reopened f) hend.idle]
        simp [underWay, State.reopened, Nat.ne_of_gt hend.passes_pos]
      rw [hend.reopened] at hm''
      exact ⟨t.reopened f, .move hpos hm'' (.drain hused hdrain), rfl⟩
  | drain hpos hdrain =>
    obtain ⟨t', ht', hmark⟩ := hc.drain_repeated hmax hdrain
    exact ⟨t', .drain hpos ht', hmark⟩

end

end Scan

namespace Group

variable {g : Group} {r r' : Repetition} {ts : List String}

theorem consumed_le {found : Found} (h : g.matchPrefix ts = .matched found) :
    found.consumed ≤ ts.length := by
  rw [← g.attempt_toNode] at h
  exact (g.toNode.sound ts found h).1

theorem matchTokens_eq_matched_iff {args : Args} : g.matchTokens ts = .matched args ↔
    ∃ found, g.matchPrefix ts = .matched found ∧ found.consumed = ts.length ∧
      args = g.applyDefaults found.args := by
  constructor
  · intro h
    unfold matchTokens at h
    cases hfound : g.matchPrefix ts with
    | matched found =>
      rw [hfound] at h
      change (if found.consumed < ts.length then _ else _) = _ at h
      split at h
      · cases h
      · rename_i hmore
        cases h
        exact ⟨found, rfl, Nat.le_antisymm (consumed_le hfound) (Nat.le_of_not_lt hmore), rfl⟩
    | noMatch => rw [hfound] at h; cases h
    | invalid e => rw [hfound] at h; cases h
  · rintro ⟨found, hfound, hall, rfl⟩
    exact matchTokens_of_all hfound hall

theorem matchPrefix_repeated (hr : g.shape.repetition = some r) (hmin : r'.min ≤ r.min)
    (hmax : r.max ≤ r'.max) {found : Found} (hall : found.consumed = ts.length)
    (h : g.matchPrefix ts = .matched found) : (g.repeated r').matchPrefix ts = .matched found := by
  by_cases hnil : g.children = []
  · rw [matchPrefix_of_children_eq_nil hnil] at h
    rw [matchPrefix_of_children_eq_nil (g := g.repeated r') hnil]
    exact h
  · have hrep : g.frame.shape.repetition.isSome := by simp [hr]
    have hmin' : r'.min ≤ g.frame.shape.minPasses := by simpa [Shape.minPasses, hr] using hmin
    have hmax' : g.frame.shape.maxPasses ≤ r'.max := by simpa [Shape.maxPasses, hr] using hmax
    rw [matchPrefix_of_children_ne_nil hnil] at h
    rw [matchPrefix_of_children_ne_nil (g := g.repeated r') hnil]
    obtain ⟨t, hends, hsettle⟩ := Scan.ends_of_run h
    have hmark : t.mark.pos = ts.length := by
      obtain ⟨-, rfl⟩ := Scan.settle_eq_matched hsettle
      exact hall
    obtain ⟨t', hends', hsame⟩ :=
      hends.repeated (Scan.start_coherent (frame_slots_ne_nil hnil)) g.bounded hrep hmax' hmark
    exact hends'.run_eq.trans (Scan.settle_repeated hmin' hsame hsettle)

/-- A repeated group that matches all tokens matches them with the same arguments if fewer passes
are enough or more are allowed. -/
theorem looser_bounds_keep_matches (hr : g.shape.repetition = some r) (hmin : r'.min ≤ r.min)
    (hmax : r.max ≤ r'.max) {args : Args} (h : g.matchTokens ts = .matched args) :
    (g.repeated r').matchTokens ts = .matched args := by
  obtain ⟨found, hfound, hall, rfl⟩ := matchTokens_eq_matched_iff.1 h
  exact matchTokens_of_all (matchPrefix_repeated hr hmin hmax hall hfound) hall

/-- Exactly two alternatives, each behind its own word. -/
def twoAlternatives : Group :=
  { shape := { repetition := some ⟨2, 2, by decide, by decide, by decide⟩ }
    children := [.leaf (.word "or"), .leaf (.text "option")] }

theorem looser_bounds_keep_two_alternatives :
    (twoAlternatives.repeated ⟨0, 9, by decide, by decide, by decide⟩).matchTokens
        ["or", "a", "b", "or", "c"] =
      .matched ((twoAlternatives.seed.push "option" ⟨.text "a b", .text⟩).push "option"
        ⟨.text "c", .text⟩) := by
  have hexact : twoAlternatives.matchTokens ["or", "a", "b", "or", "c"] =
      .matched ((twoAlternatives.seed.push "option" ⟨.text "a b", .text⟩).push "option"
        ⟨.text "c", .text⟩) := by decide +kernel
  exact looser_bounds_keep_matches rfl (by decide) (by decide) hexact

end Group
end Chatline
