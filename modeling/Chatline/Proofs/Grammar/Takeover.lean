import Chatline.Proofs.Grammar.Nullable
import Chatline.Proofs.Scan.Absorption

/-! A text before another place: how much of the tokens the text takes, and where the place behind
it takes over. -/
namespace Chatline

open Scan (Seizes)

section
variable {g : Group} {leaf : Leaf} {next : Node} {ts : List String}

theorem Node.not_seizes_nil (n : Node) : ¬ Seizes (n.attempt []) := by
  rw [n.blankAnswer]
  split
  · exact Nat.lt_irrefl 0
  · exact not_false

namespace Group

theorem start_beforeLast (hchildren : g.children = [.leaf leaf, next])
    (honce : g.shape.repetition = none) :
    Scan.BeforeLast g.frame leaf next.slot (Scan.start g.frame) where
  todo := by
    change g.frame.slots = _
    rw [frame_slots, hchildren]
    rfl
  idle := rfl
  last := by simp [Shape.maxPasses, honce]
  enough := by simp [Shape.minPasses, honce]

theorem matchPrefix_of_seized (hchildren : g.children = [.leaf leaf, next])
    (honce : g.shape.repetition = none) (hleaf : leaf.TakesAnyText)
    (hnext : next.greedyLeaf? = none) (hpriority : leaf.priority ≤ next.priority)
    (hts : ∀ t ∈ ts, t ≠ "") {k : Nat} (hk : 1 ≤ k) (hseizes : Seizes (next.attempt (ts.drop k)))
    (hfirst : ∀ j < k, 1 ≤ j → ¬ Seizes (next.attempt (ts.drop j))) :
    g.matchPrefix ts = (next.attempt (ts.drop k)).map fun found =>
      { args := (g.seed.push leaf.name (.ofWords (ts.take k))).merge found.args
        consumed := k + found.consumed } := by
  have hrest : ts.drop k ≠ [] := by
    intro hnil
    rw [hnil] at hseizes
    exact next.not_seizes_nil hseizes
  have hlength : (ts.take k).length = k := by
    have hlt : k < ts.length := Nat.lt_of_not_le fun hle => hrest (List.drop_eq_nil_iff.2 hle)
    rw [List.length_take]
    omega
  have hne : ts.take k ≠ [] := by
    rw [← List.length_pos_iff, hlength]
    exact hk
  have hfree : ∀ front back, ts.take k = front ++ back → front ≠ [] → back ≠ [] →
      ¬ Seizes (next.slot.attempt (back ++ ts.drop k)) := by
    intro front back hsplit hfront hback
    have hdrop : ts.drop front.length = back ++ ts.drop k := by
      have hall : ts = front ++ (back ++ ts.drop k) := by
        rw [← List.append_assoc, ← hsplit, List.take_append_drop]
      rw [congrArg (List.drop front.length) hall, List.drop_left]
    have hsum := congrArg List.length hsplit
    rw [hlength, List.length_append] at hsum
    have hpos := List.length_pos_iff.2 hback
    rw [← hdrop]
    exact hfirst front.length (by omega) (List.length_pos_iff.2 hfront)
  rw [matchPrefix_of_children_ne_nil (by simp [hchildren]),
    (start_beforeLast hchildren honce).run_yields hleaf hnext hpriority
      (List.take_append_drop k ts).symm hne (fun t ht => hts t (List.mem_of_mem_take ht)) hrest
      hseizes hfree, hlength]
  change _ = (next.slot.attempt (ts.drop k)).map _
  simp only [Scan.start, Nat.zero_add, frame_seed]

theorem matchPrefix_of_unseized (hchildren : g.children = [.leaf leaf, next])
    (honce : g.shape.repetition = none) (hleaf : leaf.TakesAnyText) (hne : ts ≠ [])
    (hts : ∀ t ∈ ts, t ≠ "")
    (hfree : next.priority < leaf.priority ∨ ∀ k, 1 ≤ k → ¬ Seizes (next.attempt (ts.drop k))) :
    g.matchPrefix ts = if g.shape.skips next || (next.attempt []).isMatched then
        .matched { args := g.seed.push leaf.name (.ofWords ts), consumed := ts.length }
      else .noMatch := by
  have hfree' : next.slot.node.priority < leaf.priority ∨ ∀ front back, ts = front ++ back →
      front ≠ [] → back ≠ [] → ¬ Seizes (next.slot.attempt back) := by
    refine hfree.imp_right fun hno front back hsplit hfront _ => ?_
    have hdrop : ts.drop front.length = back := by rw [hsplit, List.drop_left]
    rw [← hdrop]
    exact hno front.length (List.length_pos_iff.2 hfront)
  have hsettle : Scan.settle g.frame (Scan.start g.frame) = .noMatch := by
    simp [Scan.settle, Scan.start, Shape.minPasses, honce]
  have hnames : (g.seed.push leaf.name (.ofWords ts)).merge (Args.ofNames next.names) =
      g.seed.push leaf.name (.ofWords ts) := by
    refine Args.merge_record (fun name hname => ?_) []
    have hseed := contains_seed_of_mem (g := g) (by simp [hchildren]) name hname
    simp [hseed]
  have hrun := (start_beforeLast hchildren honce).run_keeps hleaf rfl hne hts hfree'
  have hblank : next.slot.attempt [] = if next.nullable then
      .matched { args := Args.ofNames next.names, consumed := 0 } else .noMatch := next.blankAnswer
  rw [matchPrefix_of_children_ne_nil (by simp [hchildren]), hrun, hsettle, hblank,
    next.blankAnswer]
  cases next.nullable with
  | true => simp [Verdict.isMatched, Scan.start, hnames]
  | false => simp [Verdict.isMatched, Scan.start, Node.slot]

/-- A text leaf and one other place behind it, without repetition. Unless the text has the higher
priority, it ends at the first token after its own first one that the other place seizes, by a
failure or by a match of at least one token, and that is how the group answers. A text that nothing
ends takes all tokens, and the group matches if it can do without the other place or that place
matches no tokens. -/
theorem text_yields_where_next_seizes (hchildren : g.children = [.leaf leaf, next])
    (honce : g.shape.repetition = none) (hleaf : leaf.TakesAnyText)
    (hnext : next.greedyLeaf? = none) (hne : ts ≠ []) (hts : ∀ t ∈ ts, t ≠ "") :
    (∀ k, 1 ≤ k → leaf.priority ≤ next.priority → Seizes (next.attempt (ts.drop k)) →
      (∀ j < k, 1 ≤ j → ¬ Seizes (next.attempt (ts.drop j))) →
      g.matchPrefix ts = (next.attempt (ts.drop k)).map fun found =>
        { args := (g.seed.push leaf.name (.ofWords (ts.take k))).merge found.args
          consumed := k + found.consumed }) ∧
    (next.priority < leaf.priority ∨ (∀ k, 1 ≤ k → ¬ Seizes (next.attempt (ts.drop k))) →
      g.matchPrefix ts = if g.shape.skips next || (next.attempt []).isMatched then
          .matched { args := g.seed.push leaf.name (.ofWords ts), consumed := ts.length }
        else .noMatch) := by
  constructor
  · intro k hk hpriority hseizes hfirst
    exact matchPrefix_of_seized hchildren honce hleaf hnext hpriority hts hk hseizes hfirst
  · intro hfree
    exact matchPrefix_of_unseized hchildren honce hleaf hne hts hfree

/-- A note, and a delay that may end it. -/
def noteWithDelay (priority : Int) : Group :=
  { children :=
      [ .leaf { Leaf.text "note" with priority },
        .group { optional := true } [.leaf (.word "in"), .leaf (.integer "minutes")] ] }

theorem note_yields_to_delay_unless_preferred :
    (noteWithDelay 0).matchPrefix ["feed", "the", "cat", "in", "10"] = .matched
      { args := ((noteWithDelay 0).seed.push "note" ⟨.text "feed the cat", .text⟩).push "minutes"
          ⟨.int 10, .integer⟩
        consumed := 5 } ∧
    (noteWithDelay 1).matchPrefix ["feed", "the", "cat", "in", "10"] = .matched
      { args := (noteWithDelay 1).seed.push "note" ⟨.text "feed the cat in 10", .text⟩
        consumed := 5 } := by
  have hne : ["feed", "the", "cat", "in", "10"] ≠ [] := by decide
  have hts : ∀ t ∈ ["feed", "the", "cat", "in", "10"], t ≠ "" := by decide
  obtain ⟨hyields, -⟩ :=
    text_yields_where_next_seizes (g := noteWithDelay 0) rfl rfl ⟨rfl, rfl⟩ rfl hne hts
  obtain ⟨-, hkeeps⟩ :=
    text_yields_where_next_seizes (g := noteWithDelay 1) rfl rfl ⟨rfl, rfl⟩ rfl hne hts
  have hplain := hyields 3 (by decide) (by decide) (by decide +kernel) (by decide +kernel)
  have hpreferred := hkeeps (.inl (by decide))
  refine ⟨hplain.trans ?_, hpreferred.trans ?_⟩
  · decide +kernel
  · decide +kernel

end Group
end

end Chatline
