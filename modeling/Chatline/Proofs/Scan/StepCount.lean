import Chatline.Proofs.Grammar.Nullable
import Chatline.Proofs.Scan.Absorption

/-! How long a scan goes on. Its steps come in chains that are no longer than the tokens and the
slots allow. The run and the closing of a pass are also done again with a counter beside the answer;
the answers are the same, and what is counted is a chain of steps. -/
namespace Chatline

namespace Node

mutual

/-- The number of leaves and groups at a place, itself included. -/
def size : Node → Nat
  | leaf _ => 1
  | group _ children => sizeOfAll children + 1

def sizeOfAll : List Node → Nat
  | [] => 0
  | c :: cs => c.size + sizeOfAll cs

end

theorem size_le_sizeOfAll {children : List Node} {c : Node} (hc : c ∈ children) :
    c.size ≤ sizeOfAll children := by
  induction children with
  | nil => cases hc
  | cons c' cs ih =>
    rw [sizeOfAll]
    rcases List.mem_cons.1 hc with rfl | hc
    · exact Nat.le_add_right _ _
    · exact Nat.le_trans (ih hc) (Nat.le_add_left _ _)

theorem size_lt_of_mem {shape : Shape} {children : List Node} {c : Node} (hc : c ∈ children) :
    c.size < (group shape children).size := by
  rw [size]
  exact Nat.lt_succ_of_le (size_le_sizeOfAll hc)

end Node

namespace Scan

/-- The scan goes on: there are slots to do and tokens to take. -/
def State.Open (ts : List String) (s : State) : Prop := s.todo ≠ [] ∧ s.pos < ts.length

instance (ts : List String) (s : State) : Decidable (s.Open ts) :=
  inferInstanceAs (Decidable (_ ∧ _))

/-- The states that a run goes through. -/
inductive Reached (f : Frame) (ts : List String) : State → Prop
  | start : Reached f ts (start f)
  | step {s s' : State} (hs : Reached f ts s) (hopen : s.Open ts)
      (hstep : Scan.step f ts s = .matched s') : Reached f ts s'

/-- So many steps in a row, each at a state in which the scan goes on. -/
inductive Chain (f : Frame) (ts : List String) : Nat → State → State → Prop
  | nil {s : State} : Chain f ts 0 s s
  | cons {n : Nat} {s s' s'' : State} (hopen : s.Open ts) (hstep : Scan.step f ts s = .matched s')
      (hrest : Chain f ts n s' s'') : Chain f ts (n + 1) s s''

/-- What the rest of a pass comes to without tokens, and how many slots were gone through. -/
structure Drained where
  answer : Verdict Failure State
  slots : Nat

def Drained.next (d : Drained) : Drained := { d with slots := d.slots + 1 }

def drainedSlots (f : Frame) : List Slot → State → Drained
  | [], s => { answer := .matched s, slots := 0 }
  | slot :: later, s =>
    match slot.attempt [] with
    | .matched found =>
      (drainedSlots f later (advance f { s with args := s.args.merge found.args })).next
    | .invalid e => { answer := .invalid e, slots := 1 }
    | .noMatch =>
      if f.shape.skips slot.node then (drainedSlots f later (advance f s)).next
      else { answer := .matched s, slots := 1 }

def drained (f : Frame) (s : State) : Drained :=
  let s := release f s
  if underWay s then drainedSlots f s.todo s else { answer := .matched s, slots := 0 }

/-- What a run comes to, how many steps it takes, and how many slots are gone through after them
without tokens. -/
structure Tally where
  answer : Verdict Failure Found
  steps : Nat
  slots : Nat

def Tally.next (t : Tally) : Tally := { t with steps := t.steps + 1 }

set_option linter.unusedVariables false in
def tally (f : Frame) (ts : List String) (s : State) : Tally :=
  if hopen : s.Open ts then
    match h : step f ts s with
    | .matched s' => (tally f ts s').next
    | .noMatch => { answer := settle f s, steps := 1, slots := 0 }
    | .invalid e => { answer := .invalid e, steps := 1, slots := 0 }
  else
    { answer := (drained f s).answer.bind (settle f), steps := 0, slots := (drained f s).slots }
termination_by effort f ts s
decreasing_by exact effort_step_lt hopen.2 h

section
variable {f : Frame} {ts : List String} {s s' : State} {slot : Slot} {slots later : List Slot}

theorem answer_drainedSlots (f : Frame) (slots : List Slot) (s : State) :
    (drainedSlots f slots s).answer = drainSlots f slots s := by
  induction slots generalizing s with
  | nil => rfl
  | cons slot later ih =>
    unfold drainedSlots drainSlots
    cases slot.attempt [] with
    | matched found => exact ih _
    | invalid e => rfl
    | noMatch =>
      dsimp only
      split
      · exact ih _
      · rfl

theorem slots_drainedSlots_le (f : Frame) (slots : List Slot) (s : State) :
    (drainedSlots f slots s).slots ≤ slots.length := by
  induction slots generalizing s with
  | nil => exact Nat.le_refl 0
  | cons slot later ih =>
    unfold drainedSlots
    cases slot.attempt [] with
    | matched found => exact Nat.succ_le_succ (ih _)
    | invalid e => exact Nat.le_add_left 1 _
    | noMatch =>
      dsimp only
      split
      · exact Nat.succ_le_succ (ih _)
      · exact Nat.le_add_left 1 _

theorem answer_drained (f : Frame) (s : State) : (drained f s).answer = drain f s := by
  unfold drained drain
  dsimp only
  split
  · exact answer_drainedSlots f _ _
  · rfl

theorem Coherent.length_todo_le (hc : Coherent f ts s) : s.todo.length ≤ f.slots.length := by
  rw [← hc.arranged.length_eq, List.length_append]
  exact Nat.le_add_left _ _

theorem Coherent.slots_drained_le (hc : Coherent f ts s) :
    (drained f s).slots ≤ f.slots.length := by
  unfold drained
  dsimp only
  split
  · exact Nat.le_trans (slots_drainedSlots_le f _ _) hc.release.length_todo_le
  · exact Nat.zero_le _

theorem tally_of_matched (hopen : s.Open ts) (h : step f ts s = .matched s') :
    tally f ts s = (tally f ts s').next := by
  rw [tally.eq_def, dif_pos hopen]
  split <;> simp_all

theorem tally_of_noMatch (hopen : s.Open ts) (h : step f ts s = .noMatch) :
    tally f ts s = { answer := settle f s, steps := 1, slots := 0 } := by
  rw [tally.eq_def, dif_pos hopen]
  split <;> simp_all

theorem tally_of_invalid (hopen : s.Open ts) {e : Failure} (h : step f ts s = .invalid e) :
    tally f ts s = { answer := .invalid e, steps := 1, slots := 0 } := by
  rw [tally.eq_def, dif_pos hopen]
  split <;> simp_all

theorem tally_of_not_open (hopen : ¬ s.Open ts) :
    tally f ts s =
      { answer := (drained f s).answer.bind (settle f)
        steps := 0
        slots := (drained f s).slots } := by
  rw [tally.eq_def, dif_neg hopen]

theorem Reached.coherent (hb : f.Bounded) (hne : f.slots ≠ []) (h : Reached f ts s) :
    Coherent f ts s := by
  induction h with
  | start => exact start_coherent hne
  | step _ hopen hstep ih => exact ih.move hb hopen.2 (move_of_step hstep)

theorem Coherent.absorbing_of_finished (hc : Coherent f ts s) (htodo : s.todo = []) :
    s.absorbing = none := by
  cases habs : s.absorbing with
  | none => rfl
  | some a =>
    obtain ⟨slot, later, hcons, -⟩ := hc.held a habs
    rw [htodo] at hcons
    cases hcons

/-- A scan that does not go on ends with what is left of the pass. -/
theorem Coherent.run_of_not_open (hc : Coherent f ts s) (hopen : ¬ s.Open ts) :
    run f ts s = (drain f s).bind (settle f) := by
  by_cases htodo : s.todo = []
  · have hidle := hc.absorbing_of_finished htodo
    rw [run_finished htodo hidle, drain_finished htodo hidle]
    rfl
  · exact run_of_le (Nat.le_of_not_lt fun hlt => hopen ⟨htodo, hlt⟩)

/-- Counting the steps of a run does not change its answer. -/
theorem Coherent.answer_tally (hb : f.Bounded) (hc : Coherent f ts s) :
    (tally f ts s).answer = run f ts s := by
  induction s using tally.induct f ts with
  | case1 s hopen s' h ih =>
    have hnext := ih (hc.move hb hopen.2 (move_of_step h))
    rw [tally_of_matched hopen h, run_of_lt hopen.2, h]
    exact hnext
  | case2 s hopen h =>
    rw [tally_of_noMatch hopen h, run_of_lt hopen.2, h]
  | case3 s hopen e h =>
    rw [tally_of_invalid hopen h, run_of_lt hopen.2, h]
  | case4 s hopen =>
    rw [tally_of_not_open hopen, hc.run_of_not_open hopen]
    dsimp only
    rw [answer_drained]

theorem Chain.add_effort_le {n : Nat} (h : Chain f ts n s s') :
    n + effort f ts s' ≤ effort f ts s := by
  induction h with
  | nil => exact Nat.le_of_eq (Nat.zero_add _)
  | cons hopen hstep _ ih =>
    have hlt := effort_step_lt hopen.2 hstep
    omega

/-- What is counted is a chain of steps, and one step more if that one fails. -/
theorem exists_chain_tally (f : Frame) (ts : List String) (s : State) :
    ∃ n s', Chain f ts n s s' ∧
      ((¬ s'.Open ts ∧ (tally f ts s).steps = n) ∨
        (s'.Open ts ∧ (∀ s'', step f ts s' ≠ .matched s'') ∧ (tally f ts s).steps = n + 1)) := by
  induction s using tally.induct f ts with
  | case1 s hopen s' h ih =>
    obtain ⟨n, last, hchain, hend⟩ := ih
    refine ⟨n + 1, last, .cons hopen h hchain, ?_⟩
    rw [tally_of_matched hopen h]
    rcases hend with ⟨hlast, hsteps⟩ | ⟨hlast, hfails, hsteps⟩
    · exact .inl ⟨hlast, congrArg (· + 1) hsteps⟩
    · exact .inr ⟨hlast, hfails, congrArg (· + 1) hsteps⟩
  | case2 s hopen h =>
    refine ⟨0, s, .nil, .inr ⟨hopen, by simp [h], ?_⟩⟩
    rw [tally_of_noMatch hopen h]
  | case3 s hopen e h =>
    refine ⟨0, s, .nil, .inr ⟨hopen, by simp [h], ?_⟩⟩
    rw [tally_of_invalid hopen h]
  | case4 s hopen =>
    refine ⟨0, s, .nil, .inl ⟨hopen, ?_⟩⟩
    rw [tally_of_not_open hopen]

theorem steps_tally_le (f : Frame) (ts : List String) (s : State) :
    (tally f ts s).steps ≤ effort f ts s := by
  obtain ⟨n, last, hchain, hend⟩ := exists_chain_tally f ts s
  have hle := hchain.add_effort_le
  rcases hend with ⟨-, hsteps⟩ | ⟨hopen, -, hsteps⟩
  · omega
  · -- the step that fails still needs a slot to be done
    have hpos : 0 < effort f ts last :=
      Nat.lt_of_lt_of_le (List.length_pos_of_ne_nil hopen.1) (Nat.le_add_left _ _)
    omega

theorem Coherent.slots_tally_le (hb : f.Bounded) (hc : Coherent f ts s) :
    (tally f ts s).slots ≤ f.slots.length := by
  induction s using tally.induct f ts with
  | case1 s hopen s' h ih =>
    rw [tally_of_matched hopen h]
    exact ih (hc.move hb hopen.2 (move_of_step h))
  | case2 s hopen h =>
    rw [tally_of_noMatch hopen h]
    exact Nat.zero_le _
  | case3 s hopen e h =>
    rw [tally_of_invalid hopen h]
    exact Nat.zero_le _
  | case4 s hopen =>
    rw [tally_of_not_open hopen]
    exact hc.slots_drained_le

/-- The scan is finished, or it is still in the same pass, or the passes that are complete now have
taken more tokens. -/
def Gains (s s' : State) : Prop :=
  s'.todo = [] ∨ (s'.passes = s.passes ∧ s'.mark = s.mark) ∨ s.mark.pos < s'.mark.pos

theorem Gains.trans {s₁ s₂ s₃ : State} (h₁ : Gains s₁ s₂) (hopen : s₂.todo ≠ [])
    (h₂ : Gains s₂ s₃) : Gains s₁ s₃ := by
  rcases h₂ with hnil | ⟨hpasses, hmark⟩ | hlt
  · exact .inl hnil
  · rcases h₁ with hnil | ⟨hpasses', hmark'⟩ | hlt
    · exact absurd hnil hopen
    · exact .inr (.inl ⟨hpasses.trans hpasses', hmark.trans hmark'⟩)
    · exact .inr (.inr (hmark ▸ hlt))
  · rcases h₁ with hnil | ⟨-, hmark'⟩ | hlt'
    · exact absurd hnil hopen
    · exact .inr (.inr (hmark' ▸ hlt))
    · exact .inr (.inr (Nat.lt_trans hlt' hlt))

/-- A pass that began at the mark and took no token is the last one. -/
theorem gains_advance (htodo : s.todo = slot :: later) (hmark : s.mark.pos = s.passStart)
    (hle : s.passStart ≤ s.pos) : Gains s (advance f s) := by
  obtain ⟨-, heq⟩ | ⟨-, -, heq⟩ | ⟨-, hmore, heq⟩ := advance_cases f htodo
  · rw [heq]
    exact .inr (.inl ⟨rfl, rfl⟩)
  · rw [heq]
    exact .inl rfl
  · rw [heq]
    have hne : s.pos ≠ s.passStart := fun h => hmore (.inr h)
    refine .inr (.inr ?_)
    change s.mark.pos < s.pos
    omega

theorem gains_accept (found : Found) (htodo : s.todo = slot :: later)
    (hmark : s.mark.pos = s.passStart) (hle : s.passStart ≤ s.pos) :
    Gains s (accept f slot found s) := by
  cases hgreedy : slot.node.greedyLeaf? with
  | some leaf =>
    rw [accept_greedy hgreedy]
    exact .inr (.inl ⟨rfl, rfl⟩)
  | none =>
    rw [accept_of_none hgreedy]
    exact gains_advance
      (s := { s with args := s.args.merge found.args, pos := s.pos + found.consumed })
      htodo hmark (Nat.le_add_right_of_le hle)

theorem Coherent.gains_move (hc : Coherent f ts s) (hm : Move f ts s s') : Gains s s' := by
  have hunfinished : ∀ {slot later}, s.todo = slot :: later → s.mark.pos = s.passStart :=
    fun htodo => (hc.unfinished (by simp [htodo])).2
  cases hm with
  | take htodo _ _ => exact gains_accept _ htodo (hunfinished htodo) hc.passStart_le
  | promote htodo _ _ _ _ =>
    exact gains_accept (s := { s with todo := _ }) _ rfl (hunfinished htodo) hc.passStart_le
  | skip htodo _ _ _ _ => exact gains_advance htodo (hunfinished htodo) hc.passStart_le
  | widen _ _ _ _ => exact .inr (.inl ⟨rfl, rfl⟩)
  | close htodo _ _ _ =>
    exact gains_advance (s := { s with absorbing := none }) htodo (hunfinished htodo)
      hc.passStart_le
  | @yield slot later a rival found htodo _ hrival _ _ =>
    have hleft : Gains s (advance f { s with absorbing := none }) :=
      gains_advance (s := { s with absorbing := none }) htodo (hunfinished htodo) hc.passStart_le
    have hnext := hc.toLoose.release.advance rfl htodo
    unfold takeOver
    dsimp only
    split
    · exact hleft
    · rename_i hopen
      have hne : (advance f { s with absorbing := none }).todo ≠ [] := by simpa using hopen
      obtain hnil | ⟨rest, hrest⟩ :=
        todo_advance_of_rival (s := { s with absorbing := none }) htodo hrival
      · exact absurd hnil hne
      · exact hleft.trans hne
          (gains_accept found hrest (hnext.unfinished hne).2 hnext.passStart_le)

end

end Scan

namespace Group

theorem effort_start_le (g : Group) (ts : List String) :
    Scan.effort g.frame ts (Scan.start g.frame) ≤
      (ts.length + 1) * (2 * g.children.length + 1) := by
  have hlength : g.frame.slots.length = g.children.length := by rw [frame_slots, List.length_map]
  calc Scan.effort g.frame ts (Scan.start g.frame)
      = ts.length * (2 * g.children.length + 1) + g.children.length := by
        simp [Scan.effort, Scan.start, hlength]
    _ ≤ ts.length * (2 * g.children.length + 1) + (2 * g.children.length + 1) := by omega
    _ = (ts.length + 1) * (2 * g.children.length + 1) := (Nat.succ_mul _ _).symm

/-- However long a scan has been going on, it has not taken more steps than this. -/
theorem length_chain_le {g : Group} {ts : List String} {n : Nat} {s : Scan.State}
    (h : Scan.Chain g.frame ts n (Scan.start g.frame) s) :
    n ≤ (ts.length + 1) * (2 * g.children.length + 1) := by
  have hle := h.add_effort_le
  have hstart := g.effort_start_le ts
  omega

/-- A scan takes at most `(ts.length + 1) * (2 * g.children.length + 1)` steps, and then goes
through each slot at most once. It hands tokens to smaller places only, and a pass that takes no
token is its last one. -/
theorem scan_takes_linear_steps {g : Group} (hne : g.children ≠ []) (ts : List String) :
    (Scan.tally g.frame ts (Scan.start g.frame)).answer = g.matchPrefix ts ∧
    (Scan.tally g.frame ts (Scan.start g.frame)).steps ≤
      (ts.length + 1) * (2 * g.children.length + 1) ∧
    (Scan.tally g.frame ts (Scan.start g.frame)).slots ≤ g.children.length ∧
    ∀ s, Scan.Reached g.frame ts s →
      (∀ slot, slot ∈ s.todo ∨ slot ∈ g.frame.slots →
        ∃ c ∈ g.children, slot = c.slot ∧ c.size < g.toNode.size) ∧
      ∀ s', s.Open ts → Scan.step g.frame ts s = .matched s' → s.passes < s'.passes →
        s'.mark.pos = s.mark.pos → s'.todo = [] := by
  have hslots : g.frame.slots ≠ [] := frame_slots_ne_nil hne
  have hlength : g.frame.slots.length = g.children.length := by rw [frame_slots, List.length_map]
  have hstart : Scan.Coherent g.frame ts (Scan.start g.frame) := Scan.start_coherent hslots
  refine ⟨?_, ?_, ?_, fun s hs => ?_⟩
  · rw [matchPrefix_of_children_ne_nil hne]
    exact hstart.answer_tally g.bounded
  · exact Nat.le_trans (Scan.steps_tally_le g.frame ts _) (g.effort_start_le ts)
  · exact hlength ▸ hstart.slots_tally_le g.bounded
  · have hc := hs.coherent g.bounded hslots
    constructor
    · intro slot hslot
      have hmem : slot ∈ g.frame.slots := hslot.elim hc.mem_slots id
      obtain ⟨c, hchild, rfl⟩ := mem_frame_slots.1 hmem
      exact ⟨c, hchild, rfl, Node.size_lt_of_mem hchild⟩
    · intro s' hopen hstep hpasses hmark
      rcases hc.gains_move (Scan.move_of_step hstep) with hnil | ⟨hsame, -⟩ | hmore
      · exact hnil
      · omega
      · omega

/-- A count that may be absent, as often as one likes, with a group that may match nothing. -/
def tallies : Group :=
  { shape := { repetition := some ⟨0, 4294967295, by decide, by decide, by decide⟩ }
    children :=
      [ .group {} [.leaf { Leaf.integer "count" with optional := true }],
        .leaf { Leaf.word "and" with optional := true } ] }

theorem tallies_stop_at_the_first_empty_pass :
    tallies.children ≠ [] ∧
    (Scan.tally tallies.frame ["1", "2", "and", "x"] (Scan.start tallies.frame)).answer =
      .matched
        { args := (tallies.seed.push "count" ⟨.int 1, .integer⟩).push "count" ⟨.int 2, .integer⟩
          consumed := 3 } ∧
    (Scan.tally tallies.frame ["1", "2", "and", "x"] (Scan.start tallies.frame)).steps ≤ 25 ∧
    (Scan.tally tallies.frame ["1", "2", "and", "x"] (Scan.start tallies.frame)).slots ≤ 2 := by
  have hne : tallies.children ≠ [] := List.cons_ne_nil _ _
  obtain ⟨hanswer, hsteps, hslots, -⟩ :=
    scan_takes_linear_steps hne ["1", "2", "and", "x"]
  refine ⟨hne, hanswer.trans ?_, hsteps, hslots⟩
  decide +kernel

end Group
end Chatline
