import Chatline.Proofs.Scan.Moves

/-! The order that a scan keeps in its state, whatever its slots answer: which slots are done and
which are to be done, how far the tokens are taken, and how many passes are complete. -/
namespace Chatline

theorem Shape.maxPasses_pos (s : Shape) : 0 < s.maxPasses := by
  unfold maxPasses
  cases s.repetition with
  | none => exact Nat.one_pos
  | some r => exact r.max_pos

/-- No slot takes more tokens than there are. -/
def Frame.Bounded (f : Frame) : Prop :=
  ∀ slot ∈ f.slots, ∀ ts found, slot.attempt ts = .matched found → found.consumed ≤ ts.length

namespace Scan

/-- The part of the order that does not speak of the current slot. -/
structure Loose (f : Frame) (ts : List String) (s : State) : Prop where
  mark_passes : s.mark.passes = s.passes
  passes_le : s.passes ≤ f.shape.maxPasses
  mark_pos_le : s.mark.pos ≤ s.pos
  passStart_le : s.passStart ≤ s.pos
  pos_le : s.pos ≤ ts.length
  arranged : (s.done.reverse ++ s.todo).Perm f.slots
  in_order : f.shape.flexible = false → s.done.reverse ++ s.todo = f.slots
  ascending : s.todo.tail.Sublist f.slots
  unfinished : s.todo ≠ [] → s.passes < f.shape.maxPasses ∧ s.mark.pos = s.passStart
  finished : s.todo = [] → 0 < s.passes

/-- The current slot is the next one in declared order or belongs to the absorbing leaf. -/
structure Coherent (f : Frame) (ts : List String) (s : State) : Prop extends Loose f ts s where
  idle : s.absorbing = none → s.todo.Sublist f.slots
  held : ∀ a, s.absorbing = some a → ∃ slot later, s.todo = slot :: later ∧
    slot.node.greedyLeaf? = some a.leaf ∧ s.passStart ≤ a.start ∧ a.start < s.pos

section
variable {f : Frame} {ts : List String} {s : State} {slot : Slot} {later : List Slot}

theorem start_coherent (hne : f.slots ≠ []) : Coherent f ts (start f) where
  mark_passes := rfl
  passes_le := Nat.zero_le _
  mark_pos_le := Nat.le_refl 0
  passStart_le := Nat.le_refl 0
  pos_le := Nat.zero_le _
  arranged := List.Perm.refl _
  in_order _ := rfl
  ascending := List.tail_sublist _
  unfinished _ := ⟨f.shape.maxPasses_pos, rfl⟩
  finished h := absurd h hne
  idle _ := List.Sublist.refl _
  held a h := by cases h

theorem Loose.mem_slots (h : Loose f ts s) (hm : slot ∈ s.todo) : slot ∈ f.slots :=
  h.arranged.mem_iff.1 (List.mem_append_right _ hm)

/-- Taking tokens and recording readings keeps the order. -/
theorem Loose.forward (h : Loose f ts s) (args : Args) (pos : Nat) (hle : s.pos ≤ pos)
    (hts : pos ≤ ts.length) (absorbing : Option Absorbing) :
    Loose f ts { s with args, pos, absorbing } where
  mark_passes := h.mark_passes
  passes_le := h.passes_le
  mark_pos_le := Nat.le_trans h.mark_pos_le hle
  passStart_le := Nat.le_trans h.passStart_le hle
  pos_le := hts
  arranged := h.arranged
  in_order := h.in_order
  ascending := h.ascending
  unfinished := h.unfinished
  finished := h.finished

theorem Loose.release (h : Loose f ts s) : Loose f ts { s with absorbing := none } :=
  h.forward s.args s.pos (Nat.le_refl _) h.pos_le none

theorem arranged_cons (htodo : s.todo = slot :: later) :
    (slot :: s.done).reverse ++ later = s.done.reverse ++ s.todo := by
  rw [htodo, List.reverse_cons, List.append_assoc, List.singleton_append]

theorem Loose.advance (h : Loose f ts s) (hidle : s.absorbing = none)
    (htodo : s.todo = slot :: later) : Coherent f ts (advance f s) := by
  have hun := h.unfinished (by simp [htodo])
  have htail : later.Sublist f.slots := by simpa [htodo] using h.ascending
  have hheld : ∀ a, s.absorbing = some a → False := fun a ha => by simp [hidle] at ha
  have hdone := arranged_cons htodo
  obtain ⟨hlater, heq⟩ | ⟨rfl, hlast, heq⟩ | ⟨rfl, hmore, heq⟩ := advance_cases f htodo
  · rw [heq]
    exact {
      mark_passes := h.mark_passes
      passes_le := h.passes_le
      mark_pos_le := h.mark_pos_le
      passStart_le := h.passStart_le
      pos_le := h.pos_le
      arranged := by rw [hdone]; exact h.arranged
      in_order := fun hf => by rw [hdone]; exact h.in_order hf
      ascending := (List.tail_sublist _).trans htail
      unfinished := fun _ => hun
      finished := fun hnil => absurd hnil hlater
      idle := fun _ => htail
      held := fun a ha => (hheld a ha).elim }
  · rw [heq]
    exact {
      mark_passes := rfl
      passes_le := hun.1
      mark_pos_le := Nat.le_refl _
      passStart_le := h.passStart_le
      pos_le := h.pos_le
      arranged := by rw [hdone]; exact h.arranged
      in_order := fun hf => by rw [hdone]; exact h.in_order hf
      ascending := List.nil_sublist _
      unfinished := fun hne => absurd rfl hne
      finished := fun _ => Nat.succ_pos _
      idle := fun _ => List.nil_sublist _
      held := fun a ha => (hheld a ha).elim }
  · have hpasses : s.passes + 1 < f.shape.maxPasses := by omega
    rw [heq]
    exact {
      mark_passes := rfl
      passes_le := hun.1
      mark_pos_le := Nat.le_refl _
      passStart_le := Nat.le_refl _
      pos_le := h.pos_le
      arranged := List.Perm.refl _
      in_order := fun _ => rfl
      ascending := List.tail_sublist _
      unfinished := fun _ => ⟨hpasses, rfl⟩
      finished := fun _ => Nat.succ_pos _
      idle := fun _ => List.Sublist.refl _
      held := fun a ha => (hheld a ha).elim }

theorem Loose.accept (h : Loose f ts s) (hb : f.Bounded) (hpos : s.pos < ts.length)
    (hidle : s.absorbing = none) (htodo : s.todo = slot :: later) {found : Found}
    (hfound : slot.attempt (ts.drop s.pos) = .matched found) :
    Coherent f ts (accept f slot found s) := by
  have hslot : slot ∈ f.slots := h.mem_slots (by simp [htodo])
  have hlen := hb slot hslot _ _ hfound
  rw [List.length_drop] at hlen
  cases hg : slot.node.greedyLeaf? with
  | none =>
    rw [accept_of_none hg]
    have hf := h.forward (s.args.merge found.args) (s.pos + found.consumed)
      (Nat.le_add_right _ _) (by omega) s.absorbing
    exact hf.advance hidle htodo
  | some leaf =>
    rw [accept_greedy hg]
    have hf := h.forward (s.args.merge found.args) (s.pos + 1) (Nat.le_succ _) hpos
      (some { leaf, start := s.pos })
    refine { hf with idle := (by simp), held := fun a ha => ?_ }
    cases ha
    exact ⟨slot, later, htodo, hg, h.passStart_le, Nat.lt_succ_self _⟩

/-- Putting a later slot in front is allowed in a flexible group. -/
theorem Coherent.promote (h : Coherent f ts s) (hidle : s.absorbing = none)
    (htodo : s.todo = slot :: later) (hflex : f.shape.flexible = true) {p : Pick}
    (hpick : pick (ts.drop s.pos) later = .matched p) :
    Loose f ts { s with todo := p.slot :: slot :: p.others } := by
  obtain ⟨front, back, rfl, hothers, -⟩ := pick_eq_matched hpick
  have hperm : (p.slot :: slot :: p.others).Perm s.todo := by
    rw [htodo, hothers]
    exact (List.Perm.swap slot p.slot _).trans ((List.perm_middle.symm).cons slot)
  have hsub : (slot :: p.others).Sublist f.slots := by
    have hs := h.idle hidle
    rw [htodo] at hs
    refine List.Sublist.trans ?_ hs
    rw [hothers]
    exact ((List.sublist_cons_self p.slot back).append_left front).cons_cons slot
  exact {
    mark_passes := h.mark_passes
    passes_le := h.passes_le
    mark_pos_le := h.mark_pos_le
    passStart_le := h.passStart_le
    pos_le := h.pos_le
    arranged := (hperm.append_left _).trans h.arranged
    in_order := fun hf => by simp [hflex] at hf
    ascending := hsub
    unfinished := fun _ => h.unfinished (by simp [htodo])
    finished := fun hnil => by simp at hnil }

/-- The rival is the first slot to be done once the absorbing leaf is left. -/
theorem todo_advance_of_rival {a : Absorbing} {rival : Slot} (htodo : s.todo = slot :: later)
    (hrival : rival? f a later = some rival) :
    (advance f s).todo = [] ∨ ∃ rest, (advance f s).todo = rival :: rest := by
  unfold rival? at hrival
  obtain ⟨hnext, -⟩ := Option.filter_eq_some_iff.1 hrival
  cases later with
  | cons next rest =>
    obtain rfl : next = rival := by simpa using hnext
    rw [advance_of_ne_nil htodo (List.cons_ne_nil _ _)]
    exact .inr ⟨rest, rfl⟩
  | nil =>
    obtain ⟨hl, -⟩ | ⟨-, -, heq⟩ | ⟨-, -, heq⟩ := advance_cases f htodo
    · exact absurd rfl hl
    · rw [heq]
      exact .inl rfl
    · have hhead : f.slots.head? = some rival := by
        by_cases hrep : f.shape.repetition.isSome <;> simp_all
      obtain ⟨rest, hrest⟩ := List.head?_eq_some_iff.1 hhead
      rw [heq]
      exact .inr ⟨rest, hrest⟩

theorem Coherent.move (h : Coherent f ts s) (hb : f.Bounded) (hpos : s.pos < ts.length)
    {s' : State} (hm : Move f ts s s') : Coherent f ts s' := by
  cases hm with
  | take htodo hidle hfound => exact h.toLoose.accept hb hpos hidle htodo hfound
  | promote htodo hidle hflex _ hpick =>
    obtain ⟨-, -, -, -, hfound⟩ := pick_eq_matched hpick
    exact (h.promote hidle htodo hflex hpick).accept hb hpos hidle rfl hfound
  | skip htodo hidle _ _ _ => exact h.toLoose.advance hidle htodo
  | @widen slot later a r htodo habs _ _ =>
    have hf := h.toLoose.forward (s.args.replaceLast a.leaf.name r) (s.pos + 1)
      (Nat.le_succ _) hpos s.absorbing
    refine { hf with idle := (by simp [habs]), held := fun a ha => ?_ }
    obtain ⟨slot, later, htodo, hg, hlo, hhi⟩ := h.held a ha
    exact ⟨slot, later, htodo, hg, hlo, Nat.lt_succ_of_lt hhi⟩
  | close htodo _ _ _ => exact h.toLoose.release.advance rfl htodo
  | yield htodo _ hrival hfound _ =>
    have hc := h.toLoose.release.advance rfl htodo
    unfold takeOver
    dsimp only
    split
    · exact hc
    · rename_i hne
      obtain hnil | ⟨rest, hrest⟩ :=
        todo_advance_of_rival (s := { s with absorbing := none }) htodo hrival
      · simp [hnil] at hne
      · have hp := pos_advance f { s with absorbing := none }
        refine hc.toLoose.accept hb (by rw [hp]; exact hpos) (absorbing_advance f _) hrest ?_
        rw [hp]
        exact hfound

theorem Coherent.closing (h : Coherent f ts s) {s' : State} (hc : Closing f s s') :
    Coherent f ts s' := by
  cases hc with
  | release habs =>
    obtain ⟨slot, later, htodo, -⟩ := h.held _ habs
    exact h.toLoose.release.advance rfl htodo
  | @blank slot later found htodo hidle hfound =>
    have hf := h.toLoose.forward (s.args.merge found.args) s.pos (Nat.le_refl _) h.pos_le
      s.absorbing
    exact hf.advance hidle htodo
  | absent htodo hidle _ _ => exact h.toLoose.advance hidle htodo

end

end Scan
end Chatline
