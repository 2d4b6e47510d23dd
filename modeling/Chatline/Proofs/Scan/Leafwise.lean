import Chatline.Proofs.Grammar.Nullable
import Chatline.Proofs.Scan.Ends

/-! Scans of leaves, move by move. A move takes one token or none, and what is done behind a
position leaves the mark where it is or sets it behind that position. -/
namespace Chatline

/-- All slots are leaves. -/
def Frame.OfLeaves (f : Frame) : Prop := ∀ slot ∈ f.slots, ∃ l, slot = (Node.leaf l).slot

namespace Scan

section
variable {f : Frame} {ts : List String} {s s' t : State} {slot : Slot} {later : List Slot} {k : Nat}

section
variable (hf : f.OfLeaves)
include hf

theorem attempt_nil (hslot : slot ∈ f.slots) : slot.attempt [] = .noMatch := by
  obtain ⟨l, rfl⟩ := hf slot hslot
  change (Node.leaf l).attempt [] = _
  rw [Node.attempt]
  rfl

theorem consumed_eq_one (hslot : slot ∈ f.slots) {us : List String} {found : Found}
    (h : slot.attempt us = .matched found) : found.consumed = 1 := by
  obtain ⟨l, rfl⟩ := hf slot hslot
  change (Node.leaf l).attempt us = _ at h
  rw [Node.attempt] at h
  obtain ⟨-, -, -, -, -, rfl⟩ := Leaf.attempt_eq_matched h
  rfl

end

theorem release_of_absorbing {a : Absorbing} (habs : s.absorbing = some a) :
    release f s = advance f { s with absorbing := none } := by
  unfold release
  rw [habs]
  rfl

/-- The rival takes the token where it would without the absorbing leaf. -/
theorem takeOver_cases {a : Absorbing} {rival : Slot} (htodo : s.todo = slot :: later)
    (habs : s.absorbing = some a) (hrival : rival? f a later = some rival) (found : Found) :
    ((release f s).todo = [] ∧ takeOver f rival found s = release f s) ∨
      ∃ rest, (release f s).todo = rival :: rest ∧
        takeOver f rival found s = accept f rival found (release f s) := by
  rw [release_of_absorbing habs]
  unfold takeOver
  dsimp only
  split
  · rename_i hnil
    exact .inl ⟨List.isEmpty_iff.1 hnil, rfl⟩
  · rename_i hopen
    obtain hnil | ⟨rest, hrest⟩ :=
      todo_advance_of_rival (s := { s with absorbing := none }) htodo hrival
    · exact absurd (List.isEmpty_iff.2 hnil) hopen
    · exact .inr ⟨rest, hrest, rfl⟩

theorem pos_release (f : Frame) (s : State) : (release f s).pos = s.pos := by
  unfold release
  split
  · exact pos_advance f _
  · rfl

theorem pos_accept {found : Found} (hone : found.consumed = 1) :
    (accept f slot found s).pos = s.pos + 1 := by
  cases hgreedy : slot.node.greedyLeaf? with
  | some leaf => rw [accept_greedy hgreedy]
  | none => rw [accept_of_none hgreedy, pos_advance, hone]

theorem mark_advance (f : Frame) (s : State) :
    (advance f s).mark = s.mark ∨ (advance f s).mark = s.endOfPass := by
  cases htodo : s.todo with
  | nil =>
    unfold advance
    rw [htodo]
    exact .inl rfl
  | cons slot later =>
    obtain ⟨-, heq⟩ | ⟨-, -, heq⟩ | ⟨-, -, heq⟩ := advance_cases f htodo <;> rw [heq]
    · exact .inl rfl
    · exact .inr rfl
    · exact .inr rfl

theorem mark_accept (f : Frame) (slot : Slot) (s : State) {found : Found}
    (hone : found.consumed = 1) :
    (accept f slot found s).mark = s.mark ∨ (accept f slot found s).mark.pos = s.pos + 1 := by
  cases hgreedy : slot.node.greedyLeaf? with
  | some leaf =>
    rw [accept_greedy hgreedy]
    exact .inl rfl
  | none =>
    rw [accept_of_none hgreedy, hone]
    exact (mark_advance f _).imp_right fun h => by rw [h]; rfl

/-- What a move of a scan of leaves comes to: one token is taken, or none. -/
inductive Leafwise (f : Frame) (ts : List String) (s : State) : State → Prop
  -- a slot takes the token, after the absorbing leaf is left
  | taken {x slot later found} (htodo : x.todo = slot :: later) (hidle : x.absorbing = none)
      (hone : found.consumed = 1) (hpos : x.pos = s.pos) (hle : x.passStart ≤ x.pos)
      (hmark : x.mark = (release f s).mark)
      (hm : Move f ts (release f s) (accept f slot found x)) :
      Leafwise f ts s (accept f slot found x)
  | widened {a args} (habs : s.absorbing = some a) :
      Leafwise f ts s { s with args, pos := s.pos + 1 }
  -- the current slot is left
  | left : Leafwise f ts s (advance f { s with absorbing := none })

theorem Coherent.leafwise (hc : Coherent f ts s) (hf : f.OfLeaves) (hm : Move f ts s s') :
    Leafwise f ts s s' := by
  cases hm with
  | take htodo hidle hfound =>
    have hone := consumed_eq_one hf (hc.mem_slots (by simp [htodo])) hfound
    refine .taken htodo hidle hone rfl hc.passStart_le ?_ ?_ <;> rw [release_of_idle hidle]
    exact .take htodo hidle hfound
  | promote htodo hidle hflex hno hpick =>
    obtain ⟨-, -, -, -, hfound⟩ := pick_eq_matched hpick
    have hmem := (hc.promote hidle htodo hflex hpick).mem_slots List.mem_cons_self
    have hone := consumed_eq_one hf hmem hfound
    refine .taken rfl hidle hone rfl hc.passStart_le ?_ ?_ <;> rw [release_of_idle hidle]
    exact .promote htodo hidle hflex hno hpick
  | skip _ hidle _ _ _ =>
    have hs : { s with absorbing := none } = s := by rw [← hidle]
    rw [← hs]
    exact .left
  | widen _ habs _ _ => exact .widened habs
  | close _ _ _ _ => exact .left
  | @yield slot later a rival found htodo habs hrival hfound _ =>
    have hmem := (mem_of_rival? hrival).elim (fun h => hc.mem_slots (by simp [htodo, h])) id
    obtain ⟨-, heq⟩ | ⟨rest, hrest, heq⟩ := takeOver_cases htodo habs hrival found
    · rw [heq, release_of_absorbing habs]
      exact .left
    · have hidle := absorbing_release f s
      rw [heq]
      rw [← pos_release f s] at hfound
      exact .taken hrest hidle (consumed_eq_one hf hmem hfound) (pos_release f s)
        hc.release.passStart_le rfl (.take hrest hidle hfound)

theorem Leafwise.pos_cases (h : Leafwise f ts s s') : s'.pos = s.pos ∨ s'.pos = s.pos + 1 := by
  cases h with
  | taken _ _ hone hpos _ _ _ => exact .inr (by rw [pos_accept hone, hpos])
  | widened _ => exact .inr rfl
  | left => exact .inl (pos_advance f _)

/-- The scan is behind a position, and its mark is this one or behind the position too. -/
def Behind (k : Nat) (m : Mark) (s : State) : Prop := k < s.pos ∧ (s.mark = m ∨ k < s.mark.pos)

theorem Behind.advance {m : Mark} (h : Behind k m s) : Behind k m (advance f s) := by
  refine ⟨by rw [pos_advance]; exact h.1, ?_⟩
  rcases mark_advance f s with hmark | hmark
  · rw [hmark]
    exact h.2
  · rw [hmark]
    exact .inr h.1

/-- A token that is taken is behind the mark, and so is every later mark. -/
theorem Behind.accept {m : Mark} {found : Found} (hpos : k ≤ s.pos)
    (hmark : s.mark = m ∨ k < s.mark.pos) (hone : found.consumed = 1) :
    Behind k m (accept f slot found s) := by
  refine ⟨by rw [pos_accept hone]; omega, ?_⟩
  rcases mark_accept f slot s hone with heq | heq
  · rw [heq]
    exact hmark
  · rw [heq]
    exact .inr (by omega)

theorem Behind.release {m : Mark} (h : Behind k m s) : Behind k m (release f s) := by
  unfold Scan.release
  split
  · exact Behind.advance (s := { s with absorbing := none }) h
  · exact h

theorem Leafwise.behind (h : Leafwise f ts s s') {m : Mark} (hs : Behind k m s) :
    Behind k m s' := by
  cases h with
  | taken _ _ hone hpos _ hmark _ =>
    refine Behind.accept (hpos ▸ Nat.le_of_lt hs.1) ?_ hone
    rw [hmark]
    exact hs.release.2
  | widened _ => exact ⟨Nat.lt_succ_of_lt hs.1, hs.2⟩
  | left => exact Behind.advance (s := { s with absorbing := none }) hs

theorem Ends.behind (h : Ends f ts s t) (hc : Coherent f ts s) (hf : f.OfLeaves) (hb : f.Bounded)
    {m : Mark} (hs : Behind k m s) : t.mark = m ∨ k < t.mark.pos := by
  induction h with
  | stop _ _ => exact hs.2
  | move hpos hm _ ih => exact ih (hc.move hb hpos hm) ((hc.leafwise hf hm).behind hs)
  | drain _ hdrain =>
    refine (drain_cases (P := Behind k m) (fun s s' hs hm => ?_) hs hdrain).1.2
    cases hm with
    | release _ => exact Behind.advance (s := { s with absorbing := none }) hs
    | @blank _ _ found _ _ _ =>
      exact Behind.advance (s := { s with args := s.args.merge found.args }) hs
    | absent _ _ _ _ => exact hs.advance

end

end Scan
end Chatline
