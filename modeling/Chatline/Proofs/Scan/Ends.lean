import Chatline.Proofs.Scan.Absorption

/-! The end of a scan, as a relation between its first state and its last one. The result depends on
the last one only. -/
namespace Chatline
namespace Scan

/-- The state in which a scan ends, before it is asked whether there were passes enough. -/
inductive Ends (f : Frame) (ts : List String) : State → State → Prop
  -- the pass cannot be completed
  | stop {s : State} (hpos : s.pos < ts.length) (hstep : step f ts s = .noMatch) : Ends f ts s s
  | move {s s' t : State} (hpos : s.pos < ts.length) (hm : Move f ts s s')
      (rest : Ends f ts s' t) : Ends f ts s t
  -- the tokens are used up
  | drain {s t : State} (hpos : ts.length ≤ s.pos) (hdrain : drain f s = .matched t) :
      Ends f ts s t

section
variable {f : Frame} {ts : List String} {s t : State}

theorem Ends.run_eq (h : Ends f ts s t) : run f ts s = settle f t := by
  induction h with
  | stop hpos hstep => rw [run_of_lt hpos, hstep]
  | move hpos hm _ ih =>
    rw [run_of_lt hpos, step_of_move hm]
    exact ih
  | drain hpos hdrain =>
    rw [run_of_le hpos, hdrain]
    rfl

theorem ends_of_run {found : Found} (h : run f ts s = .matched found) :
    ∃ t, Ends f ts s t ∧ settle f t = .matched found := by
  induction s using run.induct f ts with
  | case1 s hpos s' hstep ih =>
    rw [run_of_lt hpos, hstep] at h
    obtain ⟨t, ht, hsettle⟩ := ih h
    exact ⟨t, .move hpos (move_of_step hstep) ht, hsettle⟩
  | case2 s hpos hstep =>
    rw [run_of_lt hpos, hstep] at h
    exact ⟨s, .stop hpos hstep, h⟩
  | case3 s hpos e hstep =>
    rw [run_of_lt hpos, hstep] at h
    cases h
  | case4 s hpos =>
    have hle := Nat.le_of_not_lt hpos
    rw [run_of_le hle] at h
    cases hd : drain f s with
    | matched t =>
      rw [hd] at h
      exact ⟨t, .drain hle hd, h⟩
    | noMatch => rw [hd] at h; cases h
    | invalid e => rw [hd] at h; cases h

theorem Ends.of_finished (h : Ends f ts s t) (htodo : s.todo = []) (hidle : s.absorbing = none) :
    t = s := by
  cases h with
  | stop => rfl
  | move hpos hm _ =>
    have hstep := step_of_move hm
    unfold step at hstep
    rw [htodo] at hstep
    cases hstep
  | drain hpos hdrain =>
    rw [drain_finished htodo hidle] at hdrain
    cases hdrain
    rfl

end

end Scan
end Chatline
