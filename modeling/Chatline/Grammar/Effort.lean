import Chatline.Grammar.Scan

/-! How long a scan can go on. Main statement: every step lowers the effort that is left, which
is at first less than `(ts.length + 1) * (2 * f.slots.length + 1)`. -/
namespace Chatline.Scan

/-- A bound on the number of steps that are left. A token taken pays for two rounds through the
slots: one to finish the pass in which it was taken, and one pass that takes nothing. -/
def effort (f : Frame) (ts : List String) (s : State) : Nat :=
  (ts.length - s.pos) * (2 * f.slots.length + 1) +
    (if s.passStart = s.pos then 0 else f.slots.length) + s.todo.length

theorem effort_lt_of_pos_lt {f : Frame} {ts : List String} {s s' : State}
    (hs : s.pos < ts.length) (hp : s.pos < s'.pos)
    (ht : s'.todo.length ≤ f.slots.length + s.todo.length) :
    effort f ts s' < effort f ts s := by
  have hmul : (ts.length - s'.pos) * (2 * f.slots.length + 1) + (2 * f.slots.length + 1) ≤
      (ts.length - s.pos) * (2 * f.slots.length + 1) := by
    rw [← Nat.succ_mul]
    exact Nat.mul_le_mul_right _ (by omega)
  have hflag : (if s'.passStart = s'.pos then 0 else f.slots.length) ≤ f.slots.length := by
    split <;> omega
  simp only [effort]
  omega

theorem pos_completePass (f : Frame) (s : State) : (completePass f s).pos = s.pos := by
  simp only [completePass]
  split <;> rfl

theorem pos_advance (f : Frame) (s : State) : (advance f s).pos = s.pos := by
  simp only [advance]
  split
  · rfl
  · split
    · exact pos_completePass f _
    · rfl

theorem length_todo_advance_le (f : Frame) (s : State) :
    (advance f s).todo.length ≤ f.slots.length + s.todo.length := by
  simp only [advance]
  split
  · omega
  · rename_i slot later h
    split
    · simp only [completePass]
      split
      · simp only [h, List.length_cons]
        omega
      · simp
    · simp only [h, List.length_cons]
      omega

theorem effort_advance_lt (f : Frame) (ts : List String) {s : State} (h : s.todo ≠ []) :
    effort f ts (advance f s) < effort f ts s := by
  simp only [advance]
  split
  · contradiction
  · rename_i slot later hs
    split
    · rename_i hl
      have hl : later = [] := by simpa using hl
      simp only [completePass]
      split
      · simp [effort, hs, hl]
      · rename_i hc
        have hne : s.passStart ≠ s.pos := fun he => hc (.inr he.symm)
        simp [effort, hs, hl, hne]
    · simp [effort, hs]

theorem effort_accept_lt {f : Frame} {ts : List String} {s : State} (slot : Slot) (found : Found)
    (hs : s.pos < ts.length) (h : s.todo ≠ []) :
    effort f ts (accept f slot found s) < effort f ts s := by
  simp only [accept]
  split
  · exact effort_lt_of_pos_lt hs (by simp) (by simp)
  · by_cases hc : found.consumed = 0
    · have := effort_advance_lt f ts (s := { s with args := s.args.merge found.args }) h
      simpa [hc, effort] using this
    · refine effort_lt_of_pos_lt hs ?_ (length_todo_advance_le f _)
      rw [pos_advance]
      exact Nat.lt_add_of_pos_right (by omega)

theorem effort_widen_lt {f : Frame} {ts : List String} {a : Absorbing} {s s' : State}
    (hs : s.pos < ts.length) (h : s.todo ≠ []) (hw : widen f ts a s = .matched s') :
    effort f ts s' < effort f ts s := by
  simp only [widen] at hw
  split at hw
  · cases hw
    exact effort_lt_of_pos_lt hs (by simp) (by simp)
  · cases hw
  · cases hw
    exact effort_advance_lt f ts (s := { s with absorbing := none }) h

theorem effort_takeOver_lt {f : Frame} {ts : List String} {s : State} (rival : Slot)
    (found : Found) (hs : s.pos < ts.length) (h : s.todo ≠ []) :
    effort f ts (takeOver f rival found s) < effort f ts s := by
  have ha := effort_advance_lt f ts (s := { s with absorbing := none }) h
  simp only [takeOver]
  split
  · exact ha
  · rename_i hne
    refine Nat.lt_trans (effort_accept_lt rival found ?_ (by simpa using hne)) ha
    rw [pos_advance]
    exact hs

theorem effort_skip_lt {f : Frame} {ts : List String} {slot : Slot} {s s' : State}
    (h : s.todo ≠ []) (hk : skip f slot s = .matched s') : effort f ts s' < effort f ts s := by
  simp only [skip] at hk
  split at hk
  · cases hk
    exact effort_advance_lt f ts h
  · cases hk

theorem length_others_pick {ts : List String} {slots : List Slot} {p : Pick}
    (h : pick ts slots = .matched p) : p.others.length + 1 = slots.length := by
  induction slots generalizing p with
  | nil => simp [pick] at h
  | cons slot slots ih =>
    simp only [pick] at h
    split at h
    · cases h
      rfl
    · cases h
    · cases hq : pick ts slots with
      | matched q =>
        rw [hq] at h
        cases h
        simp [ih hq]
      | noMatch => rw [hq] at h; cases h
      | invalid e => rw [hq] at h; cases h

theorem effort_step_lt {f : Frame} {ts : List String} {s s' : State} (hs : s.pos < ts.length)
    (h : step f ts s = .matched s') : effort f ts s' < effort f ts s := by
  simp only [step] at h
  split at h
  · cases h
  · rename_i slot later htodo
    have hne : s.todo ≠ [] := by simp [htodo]
    split at h
    · rename_i a _
      simp only [absorb] at h
      split at h
      · exact effort_widen_lt hs hne h
      · split at h
        · split at h
          · exact effort_widen_lt hs hne h
          · cases h
            exact effort_takeOver_lt _ _ hs hne
        · cases h
        · exact effort_widen_lt hs hne h
    · split at h
      · cases h
        exact effort_accept_lt _ _ hs hne
      · cases h
      · simp only [recover] at h
        split at h
        · split at h
          · rename_i p hp
            cases h
            have hlen := length_others_pick hp
            have := @effort_accept_lt f ts { s with todo := p.slot :: slot :: p.others }
              p.slot p.found hs (by simp)
            refine Nat.lt_of_lt_of_le this ?_
            simp only [effort, htodo, List.length_cons]
            omega
          · cases h
          · exact effort_skip_lt hne h
        · exact effort_skip_lt hne h

end Chatline.Scan
