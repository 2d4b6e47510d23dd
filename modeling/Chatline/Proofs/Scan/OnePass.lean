import Chatline.Proofs.Scan.Absorption

/-! The only pass of a group that occurs once and has no greedy leaf: a slot takes what it finds, or
is left out, and the pass goes on with the others until none is left. -/
namespace Chatline

/-- A list without one of its elements. -/
theorem sublist_middle {α : Type} (front : List α) (x : α) (back : List α) :
    (front ++ back).Sublist (front ++ x :: back) :=
  (List.sublist_cons_self x back).append_left front

theorem Args.merge_record_empty (a : Args) (ys : Yield) :
    a.merge ((∅ : Args).record ys) = a.record ys := by
  have hnone : ∀ n ∈ ([] : List String), a.contains n := by simp
  exact merge_record hnone ys

theorem Verdict.ne_invalid {ε α : Type} {v : Verdict ε α} (h : v.invalid? = none) :
    ∀ e, v ≠ .invalid e := by
  rintro e rfl
  cases h

theorem Shape.skips_leaf_iff {shape : Shape} {l : Leaf} :
    shape.skips (.leaf l) = true ↔ shape.sparse = true ∨ l.optional = true := by
  simp [skips, Node.mayBeAbsent]

namespace Leaf

/-- Whether the leaf takes the token. -/
def accepts (l : Leaf) (t : String) : Bool := (l.read t).isMatched

/-- What the leaf records of the token. -/
def yield (l : Leaf) (t : String) : Yield :=
  match l.read t with
  | .matched r => if l.literal then [] else [(l.name, r)]
  | _ => []

variable {l : Leaf} {t : String}

theorem accepts_iff : l.accepts t = true ↔ ∃ r, l.read t = .matched r := by
  unfold accepts
  cases l.read t <;> simp [Verdict.isMatched]

theorem yield_of_not_accepts (h : l.accepts t = false) : l.yield t = [] := by
  unfold accepts at h
  unfold yield
  cases hr : l.read t with
  | matched r =>
    rw [hr] at h
    cases h
  | noMatch => rfl
  | invalid e => rfl

theorem attempt_of_accepts (h : l.accepts t = true) (ts : List String) :
    l.attempt (t :: ts) = .matched { args := (∅ : Args).record (l.yield t), consumed := 1 } := by
  obtain ⟨r, hr⟩ := accepts_iff.1 h
  unfold attempt yield
  dsimp only
  rw [hr]
  cases l.literal <;> rfl

theorem attempt_of_noMatch (h : l.read t = .noMatch) (ts : List String) :
    l.attempt (t :: ts) = .noMatch := by
  unfold attempt
  dsimp only
  rw [h]
  rfl

theorem attempt_of_invalid {e : Failure} (h : l.read t = .invalid e) (ts : List String) :
    l.attempt (t :: ts) = .invalid e := by
  unfold attempt
  dsimp only
  rw [h]
  rfl

theorem read_eq_noMatch (h : l.accepts t = false) (hvalid : ∀ e, l.read t ≠ .invalid e) :
    l.read t = .noMatch := by
  unfold accepts at h
  cases hr : l.read t with
  | matched r =>
    rw [hr] at h
    cases h
  | noMatch => rfl
  | invalid e => exact absurd hr (hvalid e)

/-- The slots of leaves, in their order. -/
def slots (ls : List Leaf) : List Slot := ls.map fun l => (Node.leaf l).slot

theorem greedyLeaf?_of_not_isGreedy (h : l.isGreedy = false) :
    (Node.leaf l).greedyLeaf? = none := by
  simp [Node.greedyLeaf?, h]

/-- A leaf that yields a value yields it under its name. -/
theorem name_of_mem_yield {y : String × Reading} (h : y ∈ l.yield t) :
    l.literal = false ∧ y.1 = l.name := by
  unfold yield at h
  split at h
  · rename_i r _
    cases hlit : l.literal with
    | true => simp [hlit] at h
    | false =>
      have hy : y = (l.name, r) := by simpa [hlit] using h
      exact ⟨rfl, congrArg Prod.fst hy⟩
  · cases h

end Leaf

/-- Some of the tokens are left over, or there is no match at all. -/
def LeavesOver (ts : List String) : Verdict Failure Found → Prop
  | .matched found => found.consumed < ts.length
  | .noMatch => True
  | .invalid _ => False

namespace Group

variable {g : Group} {ts : List String}

theorem matchTokens_of_leavesOver (h : LeavesOver ts (g.matchPrefix ts)) :
    g.matchTokens ts = .noMatch := by
  unfold matchTokens
  cases hanswer : g.matchPrefix ts with
  | matched found =>
    rw [hanswer] at h
    exact if_pos h
  | noMatch => rfl
  | invalid e =>
    rw [hanswer] at h
    exact h.elim

theorem matchTokens_of_all {found : Found} (h : g.matchPrefix ts = .matched found)
    (hall : found.consumed = ts.length) :
    g.matchTokens ts = .matched (g.applyDefaults found.args) := by
  unfold matchTokens
  rw [h]
  exact if_neg (by rw [hall]; exact Nat.lt_irrefl _)

end Group

namespace Scan

/-- The pass under way is the first one: these slots are left to do, and so much is recorded. -/
structure FirstPass (f : Frame) (todo : List Slot) (args : Args) (pos : Nat) (s : State) :
    Prop where
  todo : s.todo = todo
  args : s.args = args
  pos : s.pos = pos
  idle : s.absorbing = none
  passes : s.passes = 0
  unmarked : s.mark.passes = 0

/-- What the first pass comes to from here, if it is the only one. Without slots to do it is
complete. -/
def outcome (f : Frame) (ts : List String) (s : State) : Verdict Failure Found :=
  match s.todo with
  | [] => .matched { args := s.args, consumed := s.pos }
  | _ :: _ => run f ts s

section
variable {ts : List String} {front back : List Slot} {slot : Slot} {found : Found}

/-- The search for a slot passes over those that do not match. -/
theorem pick_first (hfront : ∀ o ∈ front, o.attempt ts = .noMatch)
    (hslot : slot.attempt ts = .matched found) :
    pick ts (front ++ slot :: back) = .matched { slot, found, others := front ++ back } := by
  induction front with
  | nil =>
    unfold pick
    simp only [List.nil_append, hslot]
  | cons o front ih =>
    obtain ⟨ho, hlater⟩ := List.forall_mem_cons.1 hfront
    rw [List.cons_append, pick, ho]
    dsimp only
    rw [ih hlater]
    rfl

theorem pick_eq_noMatch {slots : List Slot} (h : ∀ o ∈ slots, o.attempt ts = .noMatch) :
    pick ts slots = .noMatch := by
  induction slots with
  | nil => rfl
  | cons o slots ih =>
    obtain ⟨ho, hlater⟩ := List.forall_mem_cons.1 h
    rw [pick, ho]
    dsimp only
    rw [ih hlater]
    rfl

end

theorem lt_length_of_drop {ts us : List String} {pos : Nat} (hts : ts.drop pos = us)
    (hne : us ≠ []) : pos < ts.length := by
  by_contra hend
  rw [List.drop_of_length_le (Nat.le_of_not_lt hend)] at hts
  exact hne hts.symm

theorem start_firstPass (f : Frame) : FirstPass f f.slots f.seed 0 (start f) :=
  ⟨rfl, rfl, rfl, rfl, rfl, rfl⟩

namespace FirstPass

variable {f : Frame} {ts : List String} {front back later : List Slot} {slot : Slot}
  {args : Args} {pos : Nat} {s : State} {found : Found}

theorem outcome_nil (h : FirstPass f [] args pos s) :
    outcome f ts s = .matched { args, consumed := pos } := by
  unfold outcome
  rw [h.todo, h.args, h.pos]

theorem outcome_cons (h : FirstPass f (slot :: later) args pos s) :
    outcome f ts s = run f ts s := by
  unfold outcome
  rw [h.todo]

theorem of_advance (h : FirstPass f (slot :: later) args pos s) (hlater : later ≠ []) :
    FirstPass f later args pos (advance f s) := by
  rw [advance_of_ne_nil h.todo hlater]
  exact ⟨rfl, h.args, h.pos, h.idle, h.passes, h.unmarked⟩

section
variable (honce : f.shape.repetition = none)
include honce

theorem settle_eq_noMatch (h : FirstPass f later args pos s) : settle f s = .noMatch := by
  unfold settle
  rw [h.unmarked]
  simp [Shape.minPasses, honce]

theorem settle_advance (h : FirstPass f [slot] args pos s) :
    settle f (advance f s) = .matched { args, consumed := pos } := by
  have hlast : f.shape.maxPasses ≤ s.passes + 1 := by simp [Shape.maxPasses, honce]
  have hmin : f.shape.minPasses ≤ s.passes + 1 := by simp [Shape.minPasses, honce]
  rw [settle_advance_last h.todo hlast hmin, h.args, h.pos]

/-- Leaving a slot, the pass goes on with the others. -/
theorem run_advance (h : FirstPass f (slot :: later) args pos s) (ts : List String) :
    ∃ s', FirstPass f later args pos s' ∧ run f ts (advance f s) = outcome f ts s' := by
  cases later with
  | nil =>
    have hlast : f.shape.maxPasses ≤ s.passes + 1 := by simp [Shape.maxPasses, honce]
    have hmin : f.shape.minPasses ≤ s.passes + 1 := by simp [Shape.minPasses, honce]
    exact ⟨{ s with todo := [] }, ⟨rfl, h.args, h.pos, h.idle, h.passes, h.unmarked⟩,
      run_advance_last h.todo h.idle hlast hmin⟩
  | cons next later =>
    have hs' := h.of_advance (List.cons_ne_nil next later)
    exact ⟨advance f s, hs', (hs'.outcome_cons).symm⟩

/-- The first slot that matches takes what it finds. It is the current one, or the group is
flexible. -/
theorem outcome_takes (h : FirstPass f (front ++ slot :: back) args pos s) (hpos : pos < ts.length)
    (hfirst : front = [] ∨ f.shape.flexible = true)
    (hfront : ∀ o ∈ front, o.attempt (ts.drop pos) = .noMatch)
    (hslot : slot.attempt (ts.drop pos) = .matched found)
    (hsingle : slot.node.greedyLeaf? = none) :
    ∃ s', FirstPass f (front ++ back) (args.merge found.args) (pos + found.consumed) s' ∧
      outcome f ts s = outcome f ts s' := by
  obtain ⟨htodo, rfl, rfl, hidle, hpasses, hunmarked⟩ := h
  have hstep : step f ts s = .matched (accept f slot found
      { s with todo := slot :: (front ++ back) }) := by
    cases front with
    | nil =>
      have hsame : { s with todo := slot :: ([] ++ back) } = s := by
        change { s with todo := [] ++ slot :: back } = s
        rw [← htodo]
      rw [step_of_matched htodo hidle hslot, hsame]
    | cons c front =>
      obtain ⟨hc, hlater⟩ := List.forall_mem_cons.1 hfront
      have hflex : f.shape.flexible = true := hfirst.resolve_left (List.cons_ne_nil c front)
      have hpick : pick (ts.drop s.pos) (front ++ slot :: back) =
          .matched { slot, found, others := front ++ back } := pick_first hlater hslot
      have hrecover : recover f ts c (front ++ slot :: back) s = .matched (accept f slot found
          { s with todo := slot :: c :: (front ++ back) }) := by
        unfold recover
        rw [if_pos hflex, hpick]
      exact (step_of_noMatch htodo hidle hc).trans hrecover
  have htaken : FirstPass f (slot :: (front ++ back)) (s.args.merge found.args)
      (s.pos + found.consumed)
      { s with
        todo := slot :: (front ++ back)
        args := s.args.merge found.args
        pos := s.pos + found.consumed } :=
    ⟨rfl, rfl, rfl, hidle, hpasses, hunmarked⟩
  obtain ⟨s', hs', hrun⟩ := htaken.run_advance honce ts
  refine ⟨s', hs', ?_⟩
  have hopen : outcome f ts s = run f ts s := by
    unfold outcome
    rw [htodo]
    cases front <;> rfl
  rw [hopen, run_of_lt hpos, hstep]
  dsimp only
  rw [accept_of_none hsingle]
  exact hrun

omit honce in
/-- Where no slot matches, a step looks at whether the current one may be left out. -/
theorem step_eq_skip (h : FirstPass f (slot :: later) args pos s)
    (hslot : slot.attempt (ts.drop pos) = .noMatch)
    (hlater : f.shape.flexible = true → ∀ o ∈ later, o.attempt (ts.drop pos) = .noMatch) :
    step f ts s = skip f slot s := by
  obtain ⟨htodo, -, rfl, hidle, -, -⟩ := h
  rw [step_of_noMatch htodo hidle hslot]
  unfold recover
  split
  · rename_i hflex
    rw [pick_eq_noMatch (hlater hflex)]
  · rfl

/-- A slot that does not match is left out if the group can do without it. In a flexible group
the later ones do not match either. -/
theorem outcome_leavesOut (h : FirstPass f (slot :: later) args pos s) (hpos : pos < ts.length)
    (hslot : slot.attempt (ts.drop pos) = .noMatch)
    (hlater : f.shape.flexible = true → ∀ o ∈ later, o.attempt (ts.drop pos) = .noMatch)
    (hskip : f.shape.skips slot.node = true) :
    ∃ s', FirstPass f later args pos s' ∧ outcome f ts s = outcome f ts s' := by
  obtain ⟨s', hs', hrun⟩ := h.run_advance honce ts
  refine ⟨s', hs', ?_⟩
  have hstep : step f ts s = .matched (Scan.advance f s) := by
    rw [h.step_eq_skip hslot hlater]
    exact if_pos hskip
  rw [h.outcome_cons, run_of_lt (by rw [h.pos]; exact hpos), hstep]
  exact hrun

theorem outcome_stops (h : FirstPass f (slot :: later) args pos s) (hpos : pos < ts.length)
    (hslot : slot.attempt (ts.drop pos) = .noMatch)
    (hlater : f.shape.flexible = true → ∀ o ∈ later, o.attempt (ts.drop pos) = .noMatch)
    (hskip : f.shape.skips slot.node = false) : outcome f ts s = .noMatch := by
  have hstep : step f ts s = .noMatch := by
    rw [h.step_eq_skip hslot hlater]
    exact if_neg (by simp [hskip])
  rw [h.outcome_cons, run_of_lt (by rw [h.pos]; exact hpos), hstep]
  exact h.settle_eq_noMatch honce

/-- Without tokens the leaves that are left have to be left out. -/
theorem settle_drainSlots {ls : List Leaf} (hne : ls ≠ [])
    (h : FirstPass f (Leaf.slots ls) args pos s) :
    (drainSlots f (Leaf.slots ls) s).bind (settle f) =
      if ∀ l ∈ ls, f.shape.skips (.leaf l) = true then .matched { args, consumed := pos }
      else .noMatch := by
  induction ls generalizing s with
  | nil => exact absurd rfl hne
  | cons l ls ih =>
    have hdrain : drainSlots f (Leaf.slots (l :: ls)) s =
        if f.shape.skips (.leaf l) then drainSlots f (Leaf.slots ls) (advance f s)
        else .matched s := rfl
    rw [hdrain]
    by_cases hskip : f.shape.skips (.leaf l) = true
    · have hall : (∀ l' ∈ l :: ls, f.shape.skips (.leaf l') = true) ↔
          ∀ l' ∈ ls, f.shape.skips (.leaf l') = true := by simp [hskip]
      rw [if_pos hskip, if_congr hall rfl rfl]
      by_cases hls : ls = []
      · subst hls
        rw [if_pos (by simp)]
        exact h.settle_advance honce
      · exact ih hls (h.of_advance (by simpa [Leaf.slots] using hls))
    · have hnot : ¬ ∀ l' ∈ l :: ls, f.shape.skips (.leaf l') = true :=
        fun hall => hskip (hall l List.mem_cons_self)
      rw [if_neg hskip, if_neg hnot]
      exact h.settle_eq_noMatch honce

/-- Where the tokens end, the pass is complete if the group can do without the leaves that are
left. -/
theorem outcome_ends {ls : List Leaf} (h : FirstPass f (Leaf.slots ls) args pos s)
    (hpos : ts.length ≤ pos) :
    outcome f ts s = if ∀ l ∈ ls, f.shape.skips (.leaf l) = true then
      .matched { args, consumed := pos } else .noMatch := by
  by_cases hne : ls = []
  · subst hne
    rw [h.outcome_nil, if_pos (by simp)]
  · have hopen : outcome f ts s = run f ts s := by
      obtain ⟨l, ls, rfl⟩ := List.exists_cons_of_ne_nil hne
      exact h.outcome_cons
    have hdrain : drain f s = drainSlots f s.todo s := by
      rw [drain_of_idle h.idle]
      simp [underWay, h.passes]
    rw [hopen, run_of_le (by rw [h.pos]; exact hpos), hdrain, h.todo]
    exact h.settle_drainSlots honce hne

section
variable {front back ls : List Leaf} {l : Leaf} {t : String} {rest : List String}

omit honce in
theorem attempt_slots (hts : ts.drop pos = t :: rest) (hno : ∀ l ∈ ls, l.read t = .noMatch) :
    ∀ o ∈ Leaf.slots ls, o.attempt (ts.drop pos) = .noMatch := by
  intro o ho
  obtain ⟨l, hl, rfl⟩ := List.mem_map.1 ho
  rw [hts]
  exact Leaf.attempt_of_noMatch (hno l hl) rest

/-- A token goes to the first leaf that takes it. -/
theorem outcome_takes_leaf (h : FirstPass f (Leaf.slots (front ++ l :: back)) args pos s)
    (hts : ts.drop pos = t :: rest) (hfirst : front = [] ∨ f.shape.flexible = true)
    (hfront : ∀ o ∈ front, o.read t = .noMatch) (hacc : l.accepts t = true)
    (hsingle : l.isGreedy = false) :
    ∃ s', FirstPass f (Leaf.slots (front ++ back)) (args.record (l.yield t)) (pos + 1) s' ∧
      outcome f ts s = outcome f ts s' := by
  have hslots : Leaf.slots (front ++ l :: back) =
      Leaf.slots front ++ (Node.leaf l).slot :: Leaf.slots back := List.map_append
  have hrest : Leaf.slots front ++ Leaf.slots back = Leaf.slots (front ++ back) :=
    List.map_append.symm
  have hfirst' : Leaf.slots front = [] ∨ f.shape.flexible = true :=
    hfirst.imp_left fun hnil => by rw [hnil]; rfl
  have hslot : (Node.leaf l).slot.attempt (ts.drop pos) =
      .matched { args := (∅ : Args).record (l.yield t), consumed := 1 } := by
    rw [hts]
    exact Leaf.attempt_of_accepts hacc rest
  rw [hslots] at h
  have hpos : pos < ts.length := lt_length_of_drop hts (List.cons_ne_nil t rest)
  obtain ⟨s', hs', hout⟩ := h.outcome_takes honce hpos hfirst' (attempt_slots hts hfront) hslot
    (Leaf.greedyLeaf?_of_not_isGreedy hsingle)
  rw [Args.merge_record_empty, hrest] at hs'
  exact ⟨s', hs', hout⟩

/-- Where no leaf takes the token, the current one is left out, or there is no match. -/
theorem outcome_of_noMatch_leaf (h : FirstPass f (Leaf.slots (l :: ls)) args pos s)
    (hts : ts.drop pos = t :: rest) (hno : l.read t = .noMatch)
    (hlater : f.shape.flexible = true → ∀ o ∈ ls, o.read t = .noMatch) :
    (f.shape.skips (.leaf l) = true →
      ∃ s', FirstPass f (Leaf.slots ls) args pos s' ∧ outcome f ts s = outcome f ts s') ∧
    (f.shape.skips (.leaf l) = false → outcome f ts s = .noMatch) := by
  have hpos : pos < ts.length := lt_length_of_drop hts (List.cons_ne_nil t rest)
  have hslot : (Node.leaf l).slot.attempt (ts.drop pos) = .noMatch := by
    rw [hts]
    exact Leaf.attempt_of_noMatch hno rest
  have hothers : f.shape.flexible = true →
      ∀ o ∈ Leaf.slots ls, o.attempt (ts.drop pos) = .noMatch :=
    fun hflex => attempt_slots hts (hlater hflex)
  constructor
  · exact h.outcome_leavesOut honce hpos hslot hothers
  · exact h.outcome_stops honce hpos hslot hothers

end

end

end FirstPass

end Scan

theorem Group.matchPrefix_eq_outcome (g : Group) (ts : List String) :
    g.matchPrefix ts = Scan.outcome g.frame ts (Scan.start g.frame) := by
  have hstart := Scan.start_firstPass g.frame
  by_cases hnil : g.children = []
  · have hslots : g.frame.slots = [] := by rw [frame_slots, hnil, List.map_nil]
    rw [hslots] at hstart
    rw [matchPrefix_of_children_eq_nil hnil, hstart.outcome_nil]
    rfl
  · obtain ⟨slot, later, hslots⟩ := List.exists_cons_of_ne_nil (frame_slots_ne_nil hnil)
    rw [hslots] at hstart
    rw [matchPrefix_of_children_ne_nil hnil, hstart.outcome_cons]

theorem Group.frame_slots_of_leaves {g : Group} {leaves : List Leaf}
    (h : g.children = leaves.map .leaf) : g.frame.slots = Leaf.slots leaves := by
  rw [frame_slots, h, List.map_map]
  rfl

theorem Group.start_of_leaves {g : Group} {leaves : List Leaf}
    (h : g.children = leaves.map .leaf) :
    Scan.FirstPass g.frame (Leaf.slots leaves) g.seed 0 (Scan.start g.frame) := by
  rw [← frame_slots_of_leaves h]
  exact Scan.start_firstPass g.frame

end Chatline
