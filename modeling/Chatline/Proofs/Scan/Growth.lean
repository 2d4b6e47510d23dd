import Chatline.Proofs.Scan.States

/-! A leaf that absorbs tokens, until something ends it. The span that it has and the current token
are a text, so one of its matchers has an answer to them: nothing but the next slot, a failure or
the end of the tokens can end the leaf. -/
namespace Chatline

theorem Text.spaced_ne_empty_of_two_le {ws : List String} (h : 2 ≤ ws.length) : spaced ws ≠ "" := by
  match ws, h with
  | w :: v :: ws, _ =>
    unfold spaced
    rw [String.intercalate_cons_cons]
    simp

namespace Leaf

theorem readFirst_eq_noMatch_iff {name span : String} {ms : List Matcher} :
    readFirst name span ms = .noMatch ↔ ∀ m ∈ ms, m.read span = .noMatch := by
  induction ms with
  | nil => simp [readFirst]
  | cons m ms ih =>
    rw [List.forall_mem_cons]
    cases hm : m.read span with
    | matched v => simp [readFirst_of_matched hm]
    | noMatch => simp [readFirst_of_noMatch hm, ih]
    | invalid cause =>
      rw [readFirst_of_invalid hm]
      cases readFirst name span ms <;> simp

theorem read_ne_noMatch {l : Leaf} (hgreedy : l.isGreedy = true) {span : String}
    (hspan : span ≠ "") : l.read span ≠ .noMatch := by
  obtain ⟨m, hm, htext⟩ := List.any_eq_true.1 (Bool.and_eq_true_iff.1 hgreedy).2
  have hanswer : m.read span ≠ .noMatch := by
    cases m with
    | text limit =>
      have hsome : span.isEmpty = false := by simpa using hspan
      unfold Matcher.read Matcher.readText
      simp only [hsome, Bool.false_eq_true, if_false]
      cases limit with
      | none => simp
      | some limit =>
        dsimp only
        split <;> simp
    | integer min max => cases htext
    | choice options => cases htext
  intro hread
  unfold read at hread
  rw [literal_of_isGreedy hgreedy, if_neg Bool.false_ne_true] at hread
  exact hanswer (readFirst_eq_noMatch_iff.1 hread m hm)

end Leaf

namespace Scan

section
variable {f : Frame} {ts : List String} {s s' : State} {a : Absorbing}

/-- A leaf that absorbs takes the current token, is closed before it, or loses it to its rival. -/
theorem Move.of_absorbing (h : Move f ts s s') (habs : s.absorbing = some a) :
    (∃ r, a.leaf.read (widened ts a s) = .matched r ∧
      s' = { s with args := s.args.replaceLast a.leaf.name r, pos := s.pos + 1 }) ∨
    (a.leaf.read (widened ts a s) = .noMatch ∧ s' = advance f { s with absorbing := none }) ∨
    ∃ slot later rival found, s.todo = slot :: later ∧ rival? f a later = some rival ∧
      rival.attempt (ts.drop s.pos) = .matched found ∧ found.consumed ≠ 0 ∧
      s' = takeOver f rival found s := by
  have hsame {a' : Absorbing} (h : s.absorbing = some a') : a' = a :=
    Option.some_inj.1 (h.symm.trans habs)
  have hbusy : s.absorbing ≠ none := by simp [habs]
  cases h with
  | take _ hidle _ => exact absurd hidle hbusy
  | promote _ hidle _ _ _ => exact absurd hidle hbusy
  | skip _ hidle _ _ _ => exact absurd hidle hbusy
  | widen _ habs' _ hread =>
    obtain rfl := hsame habs'
    exact .inl ⟨_, hread, rfl⟩
  | close _ habs' _ hread =>
    obtain rfl := hsame habs'
    exact .inr (.inl ⟨hread, rfl⟩)
  | yield htodo habs' hrival hfound hsome =>
    obtain rfl := hsame habs'
    exact .inr (.inr ⟨_, _, _, _, htodo, hrival, hfound, hsome, rfl⟩)

theorem Coherent.read_widened_ne_noMatch (hc : Coherent f ts s) (habs : s.absorbing = some a)
    (hpos : s.pos < ts.length) : a.leaf.read (widened ts a s) ≠ .noMatch := by
  obtain ⟨slot, later, -, hgreedy, -, hstart⟩ := hc.held a habs
  obtain ⟨-, hleaf⟩ := Node.eq_leaf_of_greedyLeaf? hgreedy
  apply Leaf.read_ne_noMatch hleaf
  apply Text.spaced_ne_empty_of_two_le
  rw [List.length_take, List.length_drop]
  omega

/-- The absorbing leaf takes one more token and reads its span anew. -/
def Grows (f : Frame) (ts : List String) (a : Absorbing) (s s' : State) : Prop :=
  s.pos < ts.length ∧ step f ts s = .matched s' ∧
    ∃ r, a.leaf.read (widened ts a s) = .matched r ∧
      s' = { s with args := s.args.replaceLast a.leaf.name r, pos := s.pos + 1 }

/-- What can end an absorbing leaf. -/
inductive Ceases (f : Frame) (ts : List String) (a : Absorbing) (s : State) : Prop
  -- the tokens are used up
  | exhausted (hpos : s.pos = ts.length)
  -- the next slot takes the current token
  | overtaken {slot later rival found} (htodo : s.todo = slot :: later)
      (hrival : rival? f a later = some rival)
      (hfound : rival.attempt (ts.drop s.pos) = .matched found) (hsome : found.consumed ≠ 0)
      (hstep : step f ts s = .matched (takeOver f rival found s))
  -- the next slot fails at the current token, or the leaf at its span
  | refused {e} (hpos : s.pos < ts.length) (hstep : step f ts s = .invalid e)

theorem Coherent.grows_or_ceases (hc : Coherent f ts s) (habs : s.absorbing = some a) :
    (∃ s', Grows f ts a s s') ∨ Ceases f ts a s := by
  rcases Nat.lt_or_eq_of_le hc.pos_le with hpos | hpos
  · obtain ⟨slot, later, htodo, -⟩ := hc.held a habs
    cases hstep : step f ts s with
    | invalid e => exact .inr (.refused hpos hstep)
    | noMatch =>
      obtain ⟨hidle, -⟩ := step_eq_noMatch htodo hstep
      rw [habs] at hidle
      cases hidle
    | matched s' =>
      rcases (move_of_step hstep).of_absorbing habs with ⟨r, hread, heq⟩ | hclosed | htaken
      · exact .inl ⟨s', hpos, hstep, r, hread, heq⟩
      · exact absurd hclosed.1 (hc.read_widened_ne_noMatch habs hpos)
      · obtain ⟨slot', later', rival, found, htodo', hrival, hfound, hsome, rfl⟩ := htaken
        exact .inr (.overtaken htodo' hrival hfound hsome hstep)
  · exact .inr (.exhausted hpos)

/-- However many tokens an absorbing leaf takes, it comes to something that ends it. -/
theorem Reached.grows_until_ceases (hb : f.Bounded) (hne : f.slots ≠ []) (hs : Reached f ts s)
    (habs : s.absorbing = some a) :
    ∃ s', Relation.ReflTransGen (Grows f ts a) s s' ∧ s'.absorbing = some a ∧ Ceases f ts a s' := by
  -- every token that the leaf takes is one less that is left
  induction hleft : ts.length - s.pos generalizing s with
  | zero =>
    have hle := (hs.coherent hb hne).pos_le
    exact ⟨s, .refl, habs, .exhausted (by omega)⟩
  | succ n ih =>
    rcases (hs.coherent hb hne).grows_or_ceases habs with ⟨s', hgrows⟩ | hceases
    · obtain ⟨slot, later, htodo, -⟩ := (hs.coherent hb hne).held a habs
      have ⟨hpos, hstep, r, _, heq⟩ := hgrows
      have hopen : s.Open ts := ⟨by simp [htodo], hpos⟩
      have habs' : s'.absorbing = some a := by rw [heq]; exact habs
      have hpos' : s'.pos = s.pos + 1 := by rw [heq]
      obtain ⟨s'', hrest, habs'', hceases⟩ := ih (hs.step hopen hstep) habs' (by omega)
      exact ⟨s'', .head hgrows hrest, habs'', hceases⟩
    · exact ⟨s, .refl, habs, hceases⟩

theorem Reached.eq_start (hnil : f.slots = []) (hs : Reached f ts s) : s = Scan.start f := by
  induction hs with
  | start => rfl
  | step _ hopen _ ih =>
    subst ih
    exact absurd hnil hopen.1

end

end Scan

namespace Group

open Scan

/-- While a leaf absorbs tokens, what it has and the current token together are matched or refused,
never passed over. The leaf takes token after token until they are used up, the next slot takes one,
or a failure ends the scan. -/
theorem absorbing_leaf_is_never_closed (g : Group) (ts : List String) {s : State}
    (hs : Reached g.frame ts s) {a : Absorbing} (habs : s.absorbing = some a) :
    (s.pos < ts.length → a.leaf.read (widened ts a s) ≠ .noMatch) ∧
    ∃ s', Relation.ReflTransGen (Grows g.frame ts a) s s' ∧ s'.absorbing = some a ∧
      Ceases g.frame ts a s' := by
  have hne : g.frame.slots ≠ [] := by
    intro hnil
    rw [hs.eq_start hnil] at habs
    cases habs
  exact ⟨(hs.coherent g.bounded hne).read_widened_ne_noMatch habs,
    hs.grows_until_ceases g.bounded hne habs⟩

theorem note_goes_on_over_an_empty_token :
    Reached dueNote.frame ["a", "", "b", "in", "5"] noteBegun ∧
    noteBegun.absorbing = some { leaf := .boundedText "note" 8, start := 0 } ∧
    noteBegun.pos < 5 ∧
    (Leaf.boundedText "note" 8).read (widened ["a", "", "b", "in", "5"]
      { leaf := .boundedText "note" 8, start := 0 } noteBegun) ≠ .noMatch ∧
    ∃ s, Relation.ReflTransGen (Grows dueNote.frame ["a", "", "b", "in", "5"]
        { leaf := .boundedText "note" 8, start := 0 }) noteBegun s ∧
      s.absorbing = some { leaf := .boundedText "note" 8, start := 0 } ∧
      Ceases dueNote.frame ["a", "", "b", "in", "5"]
        { leaf := .boundedText "note" 8, start := 0 } s := by
  have hreached := noteBegun_reached ["", "b", "in", "5"]
  have hpos : noteBegun.pos < 5 := by decide
  obtain ⟨hread, hceases⟩ := absorbing_leaf_is_never_closed dueNote _ hreached rfl
  exact ⟨hreached, rfl, hpos, hread hpos, hceases⟩

end Group
end Chatline
