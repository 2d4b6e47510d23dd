import Chatline.Proofs.Grammar.Refusal
import Chatline.Proofs.Scan.OnePass
import Mathlib.Data.List.Forall2
import Mathlib.Data.Nat.Find
import Mathlib.Order.Bounds.Defs

/-! Leaves that take tokens in turn, pass after pass. A group of such leaves goes as far as every
token fits the leaf whose turn it is, and gives back the tokens of a pass that it does not
finish. -/
namespace Chatline

section
variable {α : Type} {xs : List α} {x : α} {i n : Nat}

theorem drop_of_getElem? (h : xs[i]? = some x) : xs.drop i = x :: xs.drop (i + 1) := by
  rw [List.drop_eq_getElem?_toList_append, h]
  rfl

theorem succ_div_mod_within (h : i % n + 1 < n) :
    (i + 1) / n = i / n ∧ (i + 1) % n = i % n + 1 := by
  have hi := Nat.div_add_mod i n
  exact (Nat.div_mod_unique (by omega)).2 ⟨by omega, h⟩

theorem succ_div_mod_at_end (h : i % n + 1 = n) : (i + 1) / n = i / n + 1 ∧ (i + 1) % n = 0 := by
  have hi := Nat.div_add_mod i n
  have hn : n * (i / n + 1) = n * (i / n) + n := Nat.mul_succ _ _
  exact (Nat.div_mod_unique (by omega)).2 ⟨by omega, by omega⟩

end

namespace Leaf

/-- The leaf whose turn it is at this token. -/
def turn (leaves : List Leaf) (i : Nat) : Option Leaf := leaves[i % leaves.length]?

/-- What leaves record of tokens that they take in turn. -/
def turnsYield (leaves : List Leaf) (ts : List String) : Yield :=
  ts.zipIdx.flatMap fun p => ((turn leaves p.2).map fun l => l.yield p.1).getD []

/-- So many tokens, within the bound, fit the leaves whose turn it is. -/
structure TakesTurns (leaves : List Leaf) (bound : Nat) (ts : List String) (m : Nat) : Prop where
  enough : m ≤ ts.length
  within : m ≤ bound
  taken : ∀ i < m, ∃ l ∈ turn leaves i, ∃ t ∈ ts[i]?, l.accepts t = true

/-- The leaf whose turn it is refuses the next token. -/
def RefusesTurn (leaves : List Leaf) (bound : Nat) (ts : List String) (m : Nat) (e : Failure) :
    Prop :=
  m < bound ∧ ∃ l ∈ turn leaves m, ∃ t ∈ ts[m]?, l.read t = .invalid e

section
variable {leaves : List Leaf} {ts : List String} {l : Leaf} {t : String} {i m bound : Nat}

theorem exists_turn (hne : leaves ≠ []) (i : Nat) : ∃ l, turn leaves i = some l :=
  ⟨_, List.getElem?_eq_getElem (Nat.mod_lt i (List.length_pos_of_ne_nil hne))⟩

theorem mem_of_turn (h : turn leaves i = some l) : l ∈ leaves := List.mem_of_getElem? h

theorem drop_of_turn (h : turn leaves i = some l) :
    leaves.drop (i % leaves.length) = l :: leaves.drop (i % leaves.length + 1) :=
  drop_of_getElem? h

theorem turnsYield_take_add_one (hl : turn leaves i = some l) (ht : ts[i]? = some t) :
    turnsYield leaves (ts.take (i + 1)) = turnsYield leaves (ts.take i) ++ l.yield t := by
  obtain ⟨hlt, -⟩ := List.getElem?_eq_some_iff.1 ht
  have hlength : 0 + (ts.take i).length = i := by
    rw [Nat.zero_add, List.length_take_of_le (Nat.le_of_lt hlt)]
  rw [List.take_add_one, ht, Option.toList_some]
  unfold turnsYield
  rw [List.zipIdx_append, hlength, List.flatMap_append]
  simp [hl]

theorem TakesTurns.zero : TakesTurns leaves bound ts 0 := ⟨Nat.zero_le _, Nat.zero_le _, by simp⟩

theorem TakesTurns.add_one (h : TakesTurns leaves bound ts m) (hm : m < bound)
    (hl : turn leaves m = some l) (ht : ts[m]? = some t) (hacc : l.accepts t = true) :
    TakesTurns leaves bound ts (m + 1) := by
  obtain ⟨hlt, -⟩ := List.getElem?_eq_some_iff.1 ht
  refine ⟨hlt, hm, fun i hi => ?_⟩
  rcases Nat.lt_or_eq_of_le (Nat.le_of_lt_succ hi) with hlt | rfl
  · exact h.taken i hlt
  · exact ⟨l, hl, t, ht, hacc⟩

theorem TakesTurns.pred (h : TakesTurns leaves bound ts (m + 1)) : TakesTurns leaves bound ts m :=
  ⟨Nat.le_of_succ_le h.enough, Nat.le_of_succ_le h.within,
    fun i hi => h.taken i (Nat.lt_succ_of_lt hi)⟩

/-- Leaves that are as many as the tokens take them one by one if they take them in turn. -/
theorem forall₂_iff_takesTurns : List.Forall₂ (fun l t => l.accepts t = true) leaves ts ↔
    leaves.length = ts.length ∧ TakesTurns leaves leaves.length ts leaves.length := by
  have hturn : ∀ i < leaves.length, turn leaves i = leaves[i]? := by
    intro i hi
    rw [turn, Nat.mod_eq_of_lt hi]
  rw [List.forall₂_iff_get]
  constructor
  · rintro ⟨hlength, hget⟩
    refine ⟨hlength, Nat.le_of_eq hlength, Nat.le_refl _, fun i hi => ?_⟩
    have hi' : i < ts.length := hlength ▸ hi
    refine ⟨leaves[i], ?_, ts[i], List.getElem?_eq_getElem hi', hget i hi hi'⟩
    rw [hturn i hi]
    exact List.getElem?_eq_getElem hi
  · rintro ⟨hlength, htaken⟩
    refine ⟨hlength, fun i hi hi' => ?_⟩
    obtain ⟨l, hl, t, ht, hacc⟩ := htaken.taken i hi
    rw [hturn i hi] at hl
    obtain ⟨_, rfl⟩ := List.getElem?_eq_some_iff.1 hl
    obtain ⟨_, rfl⟩ := List.getElem?_eq_some_iff.1 ht
    exact hacc

/-- There is a longest prefix of tokens that fit the leaves whose turn it is. -/
theorem exists_isGreatest_takesTurns (leaves : List Leaf) (bound : Nat) (ts : List String) :
    ∃ m, IsGreatest {m | TakesTurns leaves bound ts m} m := by
  classical
  refine ⟨Nat.findGreatest (TakesTurns leaves bound ts) bound, ?_, ?_⟩
  · exact Nat.findGreatest_spec (Nat.zero_le bound) TakesTurns.zero
  · intro m hm
    exact Nat.le_findGreatest hm.within hm

end

end Leaf

namespace Scan

/-- The mark after so many passes of leaves that take one token each. -/
def markAfter (f : Frame) (leaves : List Leaf) (ts : List String) (passes : Nat) : Mark :=
  { args := f.seed.record (Leaf.turnsYield leaves (ts.take (passes * leaves.length)))
    pos := passes * leaves.length
    passes }

/-- The state in which leaves have taken so many tokens in turn. -/
structure AfterTurns (f : Frame) (leaves : List Leaf) (ts : List String) (i : Nat) (s : State) :
    Prop where
  todo : s.todo = if i / leaves.length < f.shape.maxPasses then
    Leaf.slots (leaves.drop (i % leaves.length)) else []
  args : s.args = f.seed.record (Leaf.turnsYield leaves (ts.take i))
  pos : s.pos = i
  idle : s.absorbing = none
  passes : s.passes = i / leaves.length
  passStart : i / leaves.length < f.shape.maxPasses →
    s.passStart = i / leaves.length * leaves.length
  mark : s.mark = markAfter f leaves ts (i / leaves.length)

theorem start_afterTurns {f : Frame} {leaves : List Leaf} (hslots : f.slots = Leaf.slots leaves)
    (ts : List String) : AfterTurns f leaves ts 0 (start f) := by
  have hmax := f.shape.maxPasses_pos
  constructor
  · simpa [start, hmax] using hslots
  · rfl
  · rfl
  · rfl
  · simp [start]
  · simp [start]
  · simp [start, markAfter, Leaf.turnsYield]

/-- The state after one more token, of which so much is recorded. -/
def State.took (ys : Yield) (s : State) : State :=
  { s with args := s.args.record ys, pos := s.pos + 1 }

namespace AfterTurns

variable {f : Frame} {leaves : List Leaf} {ts : List String} {i : Nat} {s : State} {l : Leaf}
  {t : String}

section
variable (h : AfterTurns f leaves ts i s) (hpass : i / leaves.length < f.shape.maxPasses)
  (hl : Leaf.turn leaves i = some l) (ht : ts[i]? = some t)
include h

include hpass hl in
theorem todo_of_turn :
    s.todo = (Node.leaf l).slot :: Leaf.slots (leaves.drop (i % leaves.length + 1)) := by
  rw [h.todo, if_pos hpass, Leaf.drop_of_turn hl]
  rfl

include hl ht in
theorem args_took : (s.took (l.yield t)).args =
    f.seed.record (Leaf.turnsYield leaves (ts.take (i + 1))) := by
  rw [Leaf.turnsYield_take_add_one hl ht, Args.record_append, ← h.args]
  rfl

include hpass hl ht

/-- Within a pass the turn goes to the next leaf. -/
theorem advance_within (hmore : i % leaves.length + 1 < leaves.length) :
    AfterTurns f leaves ts (i + 1) (advance f (s.took (l.yield t))) := by
  obtain ⟨hdiv, hmod⟩ := succ_div_mod_within hmore
  have htodo : (s.took (l.yield t)).todo =
      (Node.leaf l).slot :: Leaf.slots (leaves.drop (i % leaves.length + 1)) :=
    h.todo_of_turn hpass hl
  have hlater : Leaf.slots (leaves.drop (i % leaves.length + 1)) ≠ [] := by
    simpa [Leaf.slots] using hmore
  rw [advance_of_ne_nil htodo hlater]
  constructor
  · rw [hdiv, hmod, if_pos hpass]
  · exact h.args_took hl ht
  · exact congrArg (· + 1) h.pos
  · exact h.idle
  · rw [hdiv]
    exact h.passes
  · rw [hdiv]
    exact h.passStart
  · rw [hdiv]
    exact h.mark

/-- After the last leaf of a pass the turn goes to the first one, unless the pass was the last. -/
theorem advance_at_end (hslots : f.slots = Leaf.slots leaves)
    (hlast : i % leaves.length + 1 = leaves.length) :
    AfterTurns f leaves ts (i + 1) (advance f (s.took (l.yield t))) := by
  obtain ⟨hdiv, hmod⟩ := succ_div_mod_at_end hlast
  have htodo : (s.took (l.yield t)).todo = [(Node.leaf l).slot] := by
    have hnone : leaves.drop (i % leaves.length + 1) = [] :=
      List.drop_of_length_le (Nat.le_of_eq hlast.symm)
    have hopen := h.todo_of_turn hpass hl
    rw [hnone] at hopen
    exact hopen
  have hend : (i / leaves.length + 1) * leaves.length = i + 1 := by
    rw [← hdiv]
    exact Nat.div_mul_cancel (Nat.dvd_of_mod_eq_zero hmod)
  have hargs := h.args_took hl ht
  have hpos : (s.took (l.yield t)).pos = i + 1 := congrArg (· + 1) h.pos
  have hpasses : (s.took (l.yield t)).passes + 1 = i / leaves.length + 1 :=
    congrArg (· + 1) h.passes
  have hmark : (s.took (l.yield t)).endOfPass = markAfter f leaves ts (i / leaves.length + 1) := by
    unfold State.endOfPass markAfter
    rw [hargs, hpos, hpasses, hend]
  have hstart : (s.took (l.yield t)).passStart = i / leaves.length * leaves.length :=
    h.passStart hpass
  by_cases hfinal : f.shape.maxPasses ≤ i / leaves.length + 1
  · rw [advance_last htodo (.inl (hpasses ▸ hfinal))]
    constructor
    · rw [hdiv, if_neg (Nat.not_lt.2 hfinal)]
    · exact hargs
    · exact hpos
    · exact h.idle
    · rw [hdiv]
      exact hpasses
    · intro hlt
      rw [hdiv] at hlt
      exact absurd hfinal (Nat.not_le.2 hlt)
    · rw [hdiv]
      exact hmark
  · have hmoved : (s.took (l.yield t)).pos ≠ (s.took (l.yield t)).passStart := by
      have hle := Nat.div_mul_le_self i leaves.length
      rw [hpos, hstart]
      omega
    have hgo : ¬ (f.shape.maxPasses ≤ (s.took (l.yield t)).passes + 1 ∨
        (s.took (l.yield t)).pos = (s.took (l.yield t)).passStart) := by
      rw [hpasses]
      exact not_or.2 ⟨hfinal, hmoved⟩
    rw [advance_again htodo hgo]
    constructor
    · rw [hdiv, hmod, if_pos (Nat.lt_of_not_le hfinal), List.drop_zero]
      exact hslots
    · exact hargs
    · exact hpos
    · exact h.idle
    · rw [hdiv]
      exact hpasses
    · intro _
      rw [hdiv, hend]
      exact hpos
    · rw [hdiv]
      exact hmark

/-- The leaf whose turn it is takes a token that it accepts. -/
theorem step_takes (hslots : f.slots = Leaf.slots leaves) (hacc : l.accepts t = true)
    (hsingle : l.isGreedy = false) :
    ∃ s', step f ts s = .matched s' ∧ AfterTurns f leaves ts (i + 1) s' := by
  have hn : 0 < leaves.length := List.length_pos_of_mem (Leaf.mem_of_turn hl)
  have hattempt : (Node.leaf l).slot.attempt (ts.drop s.pos) =
      .matched { args := (∅ : Args).record (l.yield t), consumed := 1 } := by
    rw [h.pos, drop_of_getElem? ht]
    exact Leaf.attempt_of_accepts hacc (ts.drop (i + 1))
  have hstep : step f ts s = .matched (advance f (s.took (l.yield t))) := by
    rw [step_of_matched (h.todo_of_turn hpass hl) h.idle hattempt,
      accept_of_none (Leaf.greedyLeaf?_of_not_isGreedy hsingle), Args.merge_record_empty]
    rfl
  refine ⟨_, hstep, ?_⟩
  rcases Nat.lt_or_eq_of_le (Nat.succ_le_of_lt (Nat.mod_lt i hn)) with hmore | hlast
  · exact h.advance_within hpass hl ht hmore
  · exact h.advance_at_end hpass hl ht hslots hlast

end

/-- What the passes that are complete come to. -/
theorem settle_eq (h : AfterTurns f leaves ts i s) :
    settle f s = if f.shape.minPasses ≤ i / leaves.length then
      .matched
        { args := f.seed.record
            (Leaf.turnsYield leaves (ts.take (i / leaves.length * leaves.length)))
          consumed := i / leaves.length * leaves.length }
      else .noMatch := by
  unfold settle
  rw [h.mark]
  rfl

/-- The scan ends at a token that does not fit the leaf whose turn it is, and where the tokens or
the passes end. -/
theorem run_stops (hmandatory : ∀ l ∈ leaves, f.shape.skips (.leaf l) = false)
    (hfixed : f.shape.flexible = false) (hne : leaves ≠ []) (h : AfterTurns f leaves ts i s)
    (hstop : i / leaves.length < f.shape.maxPasses →
      ∀ l ∈ Leaf.turn leaves i, ∀ t ∈ ts[i]?, l.read t = .noMatch) :
    run f ts s = settle f s := by
  by_cases hpass : i / leaves.length < f.shape.maxPasses
  · obtain ⟨l, hl⟩ := Leaf.exists_turn hne i
    have htodo := h.todo_of_turn hpass hl
    have hskip : f.shape.skips (.leaf l) = false := hmandatory l (Leaf.mem_of_turn hl)
    cases ht : ts[i]? with
    | some t =>
      obtain ⟨hlt, -⟩ := List.getElem?_eq_some_iff.1 ht
      have hattempt : (Node.leaf l).slot.attempt (ts.drop s.pos) = .noMatch := by
        rw [h.pos, drop_of_getElem? ht]
        exact Leaf.attempt_of_noMatch (hstop hpass l hl t ht) (ts.drop (i + 1))
      have hstep : step f ts s = .noMatch := by
        rw [step_of_noMatch htodo h.idle hattempt]
        unfold recover
        rw [if_neg (by simp [hfixed])]
        exact if_neg (by simp [Node.slot, hskip])
      rw [run_of_lt (h.pos ▸ hlt), hstep]
    | none =>
      have hle : ts.length ≤ s.pos := h.pos ▸ List.getElem?_eq_none_iff.1 ht
      have hdrained : drainSlots f s.todo s = .matched s := by
        rw [htodo]
        exact if_neg (by simp [Node.slot, hskip])
      have hdrain : drain f s = .matched s := by
        rw [drain_of_idle h.idle, hdrained]
        exact ite_self _
      rw [run_of_le hle, hdrain]
      rfl
  · have htodo : s.todo = [] := by rw [h.todo, if_neg hpass]
    exact run_finished htodo h.idle

theorem run_refuses (h : AfterTurns f leaves ts i s)
    (hpass : i / leaves.length < f.shape.maxPasses) (hl : Leaf.turn leaves i = some l)
    (ht : ts[i]? = some t) {e : Failure} (he : l.read t = .invalid e) :
    run f ts s = .invalid e := by
  obtain ⟨hlt, -⟩ := List.getElem?_eq_some_iff.1 ht
  have hattempt : (Node.leaf l).slot.attempt (ts.drop s.pos) = .invalid e := by
    rw [h.pos, drop_of_getElem? ht]
    exact Leaf.attempt_of_invalid he (ts.drop (i + 1))
  rw [run_of_lt (h.pos ▸ hlt), step_of_invalid (h.todo_of_turn hpass hl) h.idle hattempt]

/-- The scan goes on as long as the tokens fit. -/
theorem exists_of_takesTurns (hslots : f.slots = Leaf.slots leaves) (hne : leaves ≠ [])
    (hsingle : ∀ l ∈ leaves, l.isGreedy = false) {m : Nat}
    (hm : Leaf.TakesTurns leaves (f.shape.maxPasses * leaves.length) ts m) :
    ∃ s, AfterTurns f leaves ts m s ∧ run f ts (start f) = run f ts s := by
  induction m with
  | zero => exact ⟨_, start_afterTurns hslots ts, rfl⟩
  | succ m ih =>
    obtain ⟨s, hs, hrun⟩ := ih hm.pred
    obtain ⟨l, hl, t, ht, hacc⟩ := hm.taken m (Nat.lt_succ_self m)
    have hpass : m / leaves.length < f.shape.maxPasses :=
      (Nat.div_lt_iff_lt_mul (List.length_pos_of_ne_nil hne)).2 hm.within
    obtain ⟨s', hstep, hs'⟩ :=
      hs.step_takes hpass hl ht hslots hacc (hsingle l (Leaf.mem_of_turn hl))
    have hlt : s.pos < ts.length := hs.pos ▸ hm.enough
    refine ⟨s', hs', ?_⟩
    rw [hrun, run_of_lt hlt, hstep]

end AfterTurns

end Scan

namespace Group

section
variable {g : Group} {leaves : List Leaf} {ts : List String}
  (hne : leaves ≠ []) (hchildren : g.children = leaves.map .leaf)
  (hdense : g.shape.sparse = false) (hfixed : g.shape.flexible = false)
  (hmandatory : ∀ l ∈ leaves, l.optional = false) (hsingle : ∀ l ∈ leaves, l.isGreedy = false)
include hne hchildren hdense hfixed hmandatory hsingle

theorem matchPrefix_of_isGreatest {m : Nat}
    (hm : IsGreatest {m | Leaf.TakesTurns leaves (g.shape.maxPasses * leaves.length) ts m} m) :
    (∀ e, Leaf.RefusesTurn leaves (g.shape.maxPasses * leaves.length) ts m e →
      g.matchPrefix ts = .invalid e) ∧
    ((∀ e, ¬ Leaf.RefusesTurn leaves (g.shape.maxPasses * leaves.length) ts m e) →
      g.matchPrefix ts = if g.shape.minPasses ≤ m / leaves.length then
          .matched
            { args := g.seed.record
                (Leaf.turnsYield leaves (ts.take (m / leaves.length * leaves.length)))
              consumed := m / leaves.length * leaves.length }
        else .noMatch) := by
  have hpass : m / leaves.length < g.shape.maxPasses ↔ m < g.shape.maxPasses * leaves.length :=
    Nat.div_lt_iff_lt_mul (List.length_pos_of_ne_nil hne)
  have hchild : g.children ≠ [] := by simpa [hchildren] using hne
  obtain ⟨s, hs, hrun⟩ :=
    Scan.AfterTurns.exists_of_takesTurns (frame_slots_of_leaves hchildren) hne hsingle hm.1
  rw [matchPrefix_of_children_ne_nil hchild, hrun]
  constructor
  · rintro e ⟨hlt, l, hl, t, ht, he⟩
    exact hs.run_refuses (hpass.2 hlt) hl ht he
  · intro hnone
    have hskips : ∀ l ∈ leaves, g.frame.shape.skips (.leaf l) = false := by
      intro l hl
      simp [Shape.skips, Node.mayBeAbsent, hdense, hmandatory l hl]
    have hstop : m / leaves.length < g.shape.maxPasses →
        ∀ l ∈ Leaf.turn leaves m, ∀ t ∈ ts[m]?, l.read t = .noMatch := by
      intro hlt l hl t ht
      apply Leaf.read_eq_noMatch
      · -- one token more would fit too
        by_contra hacc
        have hlonger := hm.1.add_one (hpass.1 hlt) hl ht (eq_true_of_ne_false hacc)
        exact Nat.not_succ_le_self m (hm.2 hlonger)
      · intro e he
        exact hnone e ⟨hpass.1 hlt, l, hl, t, ht, he⟩
    rw [hs.run_stops hskips hfixed hne hstop]
    exact hs.settle_eq

theorem matchTokens_matched_iff_forall₂ (honce : g.shape.repetition = none) :
    (∃ args, g.matchTokens ts = .matched args) ↔
      List.Forall₂ (fun l t => l.accepts t = true) leaves ts := by
  have hmin : g.shape.minPasses = 1 := by simp [Shape.minPasses, honce]
  have hmax : g.shape.maxPasses * leaves.length = leaves.length := by
    simp [Shape.maxPasses, honce]
  have hn : 0 < leaves.length := List.length_pos_of_ne_nil hne
  obtain ⟨m, hm⟩ :=
    Leaf.exists_isGreatest_takesTurns leaves (g.shape.maxPasses * leaves.length) ts
  obtain ⟨hrefused, hfree⟩ :=
    matchPrefix_of_isGreatest hne hchildren hdense hfixed hmandatory hsingle hm
  rw [hmax] at hm hrefused hfree
  have hmatched : m = leaves.length → g.matchPrefix ts = .matched
      { args := g.seed.record (Leaf.turnsYield leaves (ts.take leaves.length))
        consumed := leaves.length } := by
    intro hall
    have hanswer := hfree fun e he => absurd he.1 (Nat.not_lt.2 (Nat.le_of_eq hall.symm))
    rw [hall, Nat.div_self hn, Nat.one_mul, hmin, if_pos (Nat.le_refl 1)] at hanswer
    exact hanswer
  rw [Leaf.forall₂_iff_takesTurns]
  constructor
  · rintro ⟨args, hargs⟩
    have hall : m = leaves.length := by
      by_contra hshort
      have hzero : m / leaves.length = 0 := Nat.div_eq_of_lt (Nat.lt_of_le_of_ne hm.1.within hshort)
      by_cases hex : ∃ e, Leaf.RefusesTurn leaves leaves.length ts m e
      · obtain ⟨e, he⟩ := hex
        rw [matchTokens_eq_invalid_iff.2 (hrefused e he)] at hargs
        cases hargs
      · have hno := hfree (not_exists.1 hex)
        rw [hzero, hmin, if_neg (by decide)] at hno
        rw [matchTokens_of_leavesOver (hno ▸ trivial)] at hargs
        cases hargs
    have hlength : leaves.length = ts.length := by
      refine Nat.le_antisymm (hall ▸ hm.1.enough) (Nat.le_of_not_lt fun hmore => ?_)
      rw [matchTokens_of_leavesOver ((hmatched hall) ▸ hmore)] at hargs
      cases hargs
    exact ⟨hlength, hall ▸ hm.1⟩
  · rintro ⟨hlength, htaken⟩
    have hall : m = leaves.length := Nat.le_antisymm hm.1.within (hm.2 htaken)
    exact ⟨_, matchTokens_of_all (hmatched hall) hlength⟩

end

/-- Leaves of single tokens, none of which may be left out, take tokens in turn. At the first token
that does not fit, or where the passes allowed end, the group fails if the leaf whose turn it is
refuses the token, and matches if there have been passes enough, with the tokens of the complete
passes. Without repetition it matches exactly one token for each leaf. -/
theorem leaves_take_turns {g : Group} {leaves : List Leaf} (hne : leaves ≠ [])
    (hchildren : g.children = leaves.map .leaf)
    (hdense : g.shape.sparse = false) (hfixed : g.shape.flexible = false)
    (hmandatory : ∀ l ∈ leaves, l.optional = false) (hsingle : ∀ l ∈ leaves, l.isGreedy = false)
    (ts : List String) :
    (∃ m, IsGreatest {m | Leaf.TakesTurns leaves (g.shape.maxPasses * leaves.length) ts m} m ∧
      (∀ e, Leaf.RefusesTurn leaves (g.shape.maxPasses * leaves.length) ts m e →
        g.matchPrefix ts = .invalid e) ∧
      ((∀ e, ¬ Leaf.RefusesTurn leaves (g.shape.maxPasses * leaves.length) ts m e) →
        g.matchPrefix ts = if g.shape.minPasses ≤ m / leaves.length then
            .matched
              { args := g.seed.record
                  (Leaf.turnsYield leaves (ts.take (m / leaves.length * leaves.length)))
                consumed := m / leaves.length * leaves.length }
          else .noMatch)) ∧
    (g.shape.repetition = none →
      ((∃ args, g.matchTokens ts = .matched args) ↔
        List.Forall₂ (fun l t => l.accepts t = true) leaves ts)) := by
  obtain ⟨m, hm⟩ :=
    Leaf.exists_isGreatest_takesTurns leaves (g.shape.maxPasses * leaves.length) ts
  constructor
  · exact ⟨m, hm,
      matchPrefix_of_isGreatest hne hchildren hdense hfixed hmandatory hsingle hm⟩
  · exact matchTokens_matched_iff_forall₂ hne hchildren hdense hfixed hmandatory hsingle

/-- Amounts with their signs, at least one and at most three. -/
def ledger : Group :=
  { shape := { repetition := some ⟨1, 3, by decide, by decide, by decide⟩ }
    children :=
      [ .leaf (.ofMatcher "sign" (.choice ["plus", "minus"])),
        .leaf (.ofMatcher "amount" (.integer 0 99)) ] }

theorem ledger_gives_back_an_unfinished_entry :
    ledger.matchPrefix ["plus", "5", "minus", "3", "plus"] = .matched
      { args := ledger.seed.record
          [("sign", ⟨.text "plus", .choice⟩), ("amount", ⟨.int 5, .integer⟩),
            ("sign", ⟨.text "minus", .choice⟩), ("amount", ⟨.int 3, .integer⟩)]
        consumed := 4 } ∧
    ledger.matchPrefix ["plus", "5", "minus", "300"] = .invalid
      { argument := "amount", kind := .integer, cause := .outOfBounds 300 0 99 } ∧
    ∃ args, ({ children := ledger.children } : Group).matchTokens ["minus", "3"] =
      .matched args := by
  let leaves : List Leaf :=
    [.ofMatcher "sign" (.choice ["plus", "minus"]), .ofMatcher "amount" (.integer 0 99)]
  have hne : leaves ≠ [] := by decide
  have hchildren : ledger.children = leaves.map .leaf := rfl
  have hmandatory : ∀ l ∈ leaves, l.optional = false := by decide
  have hsingle : ∀ l ∈ leaves, l.isGreedy = false := by decide
  refine ⟨?_, ?_, ?_⟩
  · obtain ⟨⟨m, hm, -, hmatch⟩, -⟩ := leaves_take_turns hne hchildren rfl rfl hmandatory hsingle
      ["plus", "5", "minus", "3", "plus"]
    have hfive : m = 5 :=
      Nat.le_antisymm hm.1.enough (hm.2 ⟨by decide, by decide, by decide +kernel⟩)
    subst hfive
    have hnone : ∀ e, ¬ Leaf.RefusesTurn leaves 6 ["plus", "5", "minus", "3", "plus"] 5 e := by
      rintro e ⟨-, l, -, t, ht, -⟩
      cases ht
    refine (hmatch hnone).trans ?_
    decide +kernel
  · obtain ⟨⟨m, hm, hrefuse, -⟩, -⟩ := leaves_take_turns hne hchildren rfl rfl hmandatory hsingle
      ["plus", "5", "minus", "300"]
    have hthree : m = 3 := by
      have hle : 3 ≤ m := hm.2 ⟨by decide, by decide, by decide +kernel⟩
      have hnot : ¬ 3 < m := fun hlt => by
        have htaken := hm.1.taken 3 hlt
        revert htaken
        decide +kernel
      omega
    subst hthree
    have hturn : Leaf.turn leaves 3 = some leaves[1] := by decide +kernel
    exact hrefuse _ ⟨by decide, _, hturn, "300", rfl, by decide +kernel⟩
  · let entry : Group := { children := ledger.children }
    have hentry : entry.children = leaves.map .leaf := rfl
    obtain ⟨-, hiff⟩ := leaves_take_turns hne hentry rfl rfl hmandatory hsingle ["minus", "3"]
    refine (hiff rfl).2 (.cons ?_ (.cons ?_ .nil))
    · decide +kernel
    · decide +kernel

end Group
end Chatline
