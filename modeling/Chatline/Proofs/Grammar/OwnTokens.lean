import Chatline.Proofs.Grammar.LooserBounds
import Chatline.Proofs.Scan.Cutoff

/-! What a group of leaves makes of the tokens that it has matched, when those behind them are
missing. It matches them again, unless its last pass was one in which all leaves were left out in
front of the next token: without that token this pass is not counted. -/
namespace Chatline

theorem Shape.exists_repetition {shape : Shape} {p : Nat} (hmin : shape.minPasses = p + 1)
    (hp : 0 < p) : ∃ r r' : Repetition, shape.repetition = some r ∧ r.min = p + 1 ∧ r'.min = p ∧
      r'.max = r.max := by
  unfold minPasses at hmin
  cases hr : shape.repetition with
  | none =>
    rw [hr] at hmin
    exact absurd (Nat.succ_inj.1 hmin) (Nat.ne_of_lt hp)
  | some r =>
    have hmin : r.min = p + 1 := by rwa [hr] at hmin
    have hle : p ≤ r.max := by
      have := r.min_le_max
      omega
    exact ⟨r, ⟨p, r.max, r.max_pos, hle, r.max_lt⟩, rfl, hmin, rfl, rfl⟩

namespace Group

variable {g : Group} {leaves : List Leaf} {ts : List String}

/-- The tokens that the group has matched make up one pass too few. The pass that they lack is one
in which all children are left out in front of a token that none of them takes. -/
structure OnePassShort (g : Group) (ts : List String) (found : Found) : Prop where
  refused : g.matchPrefix (ts.take found.consumed) = .noMatch
  left_over : found.consumed < ts.length
  left_out : ∀ c ∈ g.children,
    g.shape.skips c = true ∧ c.attempt (ts.drop found.consumed) = .noMatch
  enough_if_fewer : ∃ r r' : Repetition, g.shape.repetition = some r ∧ r.min = r'.min + 1 ∧
    r'.max = r.max ∧ 0 < r'.min ∧
    (g.repeated r').matchPrefix (ts.take found.consumed) = .matched found

theorem frame_ofLeaves (hchildren : g.children = leaves.map .leaf) : g.frame.OfLeaves := by
  intro slot hslot
  rw [frame_slots_of_leaves hchildren] at hslot
  obtain ⟨l, -, rfl⟩ := List.mem_map.1 hslot
  exact ⟨l, rfl⟩

/-- A match of a group of leaves stands on its own tokens, unless they make up one pass too few. -/
theorem prefix_stands_unless_one_pass_short (hchildren : g.children = leaves.map .leaf)
    {found : Found} (h : g.matchPrefix ts = .matched found) :
    g.matchPrefix (ts.take found.consumed) = .matched found ∨ g.OnePassShort ts found := by
  by_cases hnil : g.children = []
  · rw [matchPrefix_of_children_eq_nil hnil] at h
    exact .inl ((matchPrefix_of_children_eq_nil hnil _).trans h)
  by_cases hlt : found.consumed < ts.length
  · have hf := frame_ofLeaves hchildren
    have hne := frame_slots_ne_nil hnil
    rw [matchPrefix_of_children_ne_nil hnil] at h
    obtain ⟨t, hends, hsettle⟩ := Scan.ends_of_run h
    obtain ⟨hmin, rfl⟩ := Scan.settle_eq_matched hsettle
    obtain ⟨t', hends', hcut⟩ := hends.cutoff hf g.bounded hne hlt
    have hsame : ({ args := t'.mark.args, consumed := t'.mark.pos } : Found) =
        { args := t.mark.args, consumed := t.mark.pos } := by rw [hcut.args, hcut.pos]
    have hown : g.matchPrefix (ts.take t.mark.pos) = Scan.settle g.frame t' :=
      (matchPrefix_of_children_ne_nil hnil _).trans hends'.run_eq
    by_cases henough : g.shape.minPasses ≤ t'.mark.passes
    · exact .inl (hown.trans ((if_pos henough).trans (congrArg _ hsame)))
    · obtain ⟨hone, hpos, hleft⟩ := hcut.passes.resolve_left fun hle =>
        henough (Nat.le_trans hmin hle)
      have hmin' : g.shape.minPasses = t'.mark.passes + 1 := by
        change g.shape.minPasses ≤ t.mark.passes at hmin
        omega
      obtain ⟨r, r', hr, hrmin, hrmin', hmax⟩ := Shape.exists_repetition hmin' hpos
      refine .inr ⟨hown.trans (if_neg henough), hlt, fun c hc => ?_, r, r', hr,
        hrmin'.symm ▸ hrmin, hmax, hrmin'.symm ▸ hpos, ?_⟩
      · exact hleft c.slot (mem_frame_slots.2 ⟨c, hc, rfl⟩)
      · have hrep : g.frame.shape.repetition.isSome := by simp [hr]
        have hmax' : g.frame.shape.maxPasses ≤ r'.max := by simp [Shape.maxPasses, hr, hmax]
        have hall : t'.mark.pos = (ts.take t.mark.pos).length := by
          rw [hcut.pos, List.length_take_of_le (Nat.le_of_lt hlt)]
        obtain ⟨t'', hends'', hmark⟩ :=
          hends'.repeated (Scan.start_coherent hne) g.bounded hrep hmax' hall
        rw [matchPrefix_of_children_ne_nil (g := g.repeated r') hnil]
        refine hends''.run_eq.trans ?_
        unfold Scan.settle
        rw [hmark]
        exact (if_pos (Nat.le_of_eq hrmin')).trans (congrArg _ hsame)
  · rw [List.take_of_length_le (Nat.le_of_not_lt hlt)]
    exact .inl h

def alternatives : Group :=
  { shape := { repetition := some ⟨2, 7, by decide, by decide, by decide⟩ }
    children := [.leaf (.word "or"), .leaf (.text "option")] }

theorem alternatives_stand_without_a_last_word :
    alternatives.matchPrefix ["or", "a", "b", "or", "c"] = .matched
      { args := (alternatives.seed.push "option" ⟨.text "a b", .text⟩).push "option"
          ⟨.text "c", .text⟩
        consumed := 5 } := by
  have hall : alternatives.matchPrefix ["or", "a", "b", "or", "c", "or"] = .matched
      { args := (alternatives.seed.push "option" ⟨.text "a b", .text⟩).push "option"
          ⟨.text "c", .text⟩
        consumed := 5 } := by decide +kernel
  have hchildren : alternatives.children = [.word "or", .text "option"].map .leaf := rfl
  refine (prefix_stands_unless_one_pass_short hchildren hall).resolve_right fun hshort => ?_
  have hskip := (hshort.left_out (.leaf (.word "or")) List.mem_cons_self).1
  revert hskip
  decide

/-- Two to four scores, any of which may be absent. -/
def scores : Group :=
  { shape := { repetition := some ⟨2, 4, by decide, by decide, by decide⟩ }
    children := [.leaf { Leaf.integer "score" with optional := true }] }

/-- The absent second score is counted in front of another word only. -/
theorem scores_need_a_word_behind_them :
    scores.children = [{ Leaf.integer "score" with optional := true }].map .leaf ∧
    (∀ t ∈ ["1", "x"], t ≠ "") ∧
    scores.matchPrefix ["1", "x"] =
      .matched { args := scores.seed.push "score" ⟨.int 1, .integer⟩, consumed := 1 } ∧
    scores.matchPrefix (["1", "x"].take 1) = .noMatch := by
  refine ⟨rfl, by decide, ?_, ?_⟩ <;> decide +kernel

end Group
end Chatline
