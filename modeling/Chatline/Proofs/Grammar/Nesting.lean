import Chatline.Proofs.Scan.Straight

/-! Plain groups within groups. A group that has no setting of its own does what its children do in
its place, as long as the group around it keeps its order and no leaf absorbs tokens. -/
namespace Chatline

/-- A group that has to be there, once, with all its children in their order. -/
structure Shape.Plain (s : Shape) : Prop where
  mandatory : s.optional = false
  dense : s.sparse = false
  fixed : s.flexible = false
  once : s.repetition = none

namespace Node

theorem leavesOf_append (front back : List Node) :
    leavesOf (front ++ back) = leavesOf front ++ leavesOf back := by
  induction front with
  | nil => rfl
  | cons c cs ih => rw [List.cons_append, leavesOf, leavesOf, ih, List.append_assoc]

theorem greedyLeaf?_eq_none {n : Node} (h : ∀ l ∈ n.leaves, l.isGreedy = false) :
    n.greedyLeaf? = none := by
  cases n with
  | group _ _ => rfl
  | leaf l =>
    apply Leaf.greedyLeaf?_of_not_isGreedy
    cases hlit : l.literal with
    | true => simp [Leaf.isGreedy, hlit]
    | false => exact h l (by simp [leaves, hlit])

end Node

namespace Group

theorem straight {g : Group} (hfixed : g.shape.flexible = false)
    (hsingle : ∀ l ∈ g.leaves, l.isGreedy = false) : g.frame.Straight where
  fixed := hfixed
  single := by
    intro slot hslot
    obtain ⟨c, hc, rfl⟩ := mem_frame_slots.1 hslot
    exact Node.greedyLeaf?_eq_none fun l hl => hsingle l (Node.mem_leavesOf.2 ⟨c, hc, hl⟩)
  bounded := g.bounded

/-- A group that occurs once and keeps its order is a pass through its children. -/
theorem matchPrefix_of_once {g : Group} (hfixed : g.shape.flexible = false)
    (honce : g.shape.repetition = none) (hsingle : ∀ l ∈ g.leaves, l.isGreedy = false)
    (hne : g.children ≠ []) (ts : List String) :
    g.matchPrefix ts = Scan.through g.shape ts g.frame.slots g.seed 0 := by
  have hrun := Scan.run_fresh (straight hfixed hsingle) (frame_slots_ne_nil hne) ts
    { args := g.seed, pos := 0, passes := 0 }
  rw [if_pos (.inl rfl)] at hrun
  rw [matchPrefix_of_children_ne_nil hne]
  refine Eq.trans hrun ?_
  dsimp only [frame_shape]
  cases Scan.through g.shape ts g.frame.slots g.seed 0 with
  | matched found =>
    simp [Scan.afterPass, Shape.maxPasses, Shape.minPasses, honce, Scan.settle,
      Scan.State.fresh]
  | invalid e => rfl
  | noMatch => simp [Scan.settle, Scan.State.fresh, Shape.minPasses, honce]

section
variable {shape inner : Shape} {front block back : List Node}

/-- A pass through a plain group is a pass through its children. -/
theorem through_block (hplain : inner.Plain) (hdense : shape.sparse = false)
    (hsingle : ∀ l ∈ Node.leavesOf block, l.isGreedy = false) (hne : block ≠ []) {ts : List String}
    {args : Args} (hnames : ∀ name ∈ (Node.group inner block).names, args.contains name)
    (pos : Nat) (later : List Slot) :
    Scan.through shape ts ((Node.group inner block).slot :: later) args pos =
      Scan.through shape ts (block.map Node.slot ++ later) args pos := by
  let g : Group := { shape := inner, children := block }
  have hanswer : (Node.group inner block).slot.attempt (ts.drop pos) =
      Scan.through shape (ts.drop pos) (block.map Node.slot) g.seed 0 := by
    change g.toNode.attempt (ts.drop pos) = _
    rw [g.attempt_toNode, matchPrefix_of_once (g := g) hplain.fixed hplain.once hsingle hne,
      frame_slots]
    exact Scan.through_congr_shape (hplain.dense.trans hdense.symm)
  have hseed : args.merge g.seed = args := by
    rw [g.seed_eq_ofNames]
    exact Args.merge_record hnames []
  have hblock : Scan.through shape ts (block.map Node.slot) args pos =
      (Scan.through shape (ts.drop pos) (block.map Node.slot) g.seed 0).map fun found =>
        { args := args.merge found.args, consumed := pos + found.consumed } := by
    have hmerge := Scan.through_merge shape ts (block.map Node.slot) args g.seed pos 0
    rw [hseed] at hmerge
    exact hmerge
  have hskip : shape.skips (Node.group inner block).slot.node = false := by
    simp [Shape.skips, Node.slot, Node.mayBeAbsent, Shape.mayVanish, hdense, hplain.mandatory,
      hplain.once]
  rw [Scan.through_append, hblock, Scan.through, hanswer]
  cases Scan.through shape (ts.drop pos) (block.map Node.slot) g.seed 0 with
  | matched found => rfl
  | invalid e => rfl
  | noMatch => exact if_neg (by simp [hskip])

theorem leavesOf_unnested : Node.leavesOf (front ++ block ++ back) =
    Node.leavesOf (front ++ .group inner block :: back) := by
  rw [Node.leavesOf_append, Node.leavesOf_append, Node.leavesOf_append, Node.leavesOf,
    Node.leaves, List.append_assoc]

/-- In a group that keeps its order, whether it is repeated or not, with no greedy leaf below it, a
plain group can be replaced by its children. -/
theorem plain_nesting_is_transparent (hfixed : shape.flexible = false)
    (hdense : shape.sparse = false) (hplain : inner.Plain) (hne : block ≠ [])
    (hsingle : ∀ l ∈ Node.leavesOf (front ++ .group inner block :: back), l.isGreedy = false)
    (ts : List String) :
    ({ shape, children := front ++ .group inner block :: back } : Group).matchPrefix ts =
      ({ shape, children := front ++ block ++ back } : Group).matchPrefix ts := by
  let nested : Group := { shape, children := front ++ .group inner block :: back }
  let flat : Group := { shape, children := front ++ block ++ back }
  change nested.matchPrefix ts = flat.matchPrefix ts
  have hleaves : flat.leaves = nested.leaves := leavesOf_unnested
  have hseed : flat.seed = nested.seed := by
    unfold seed leafNames
    rw [hleaves]
  have hnested : nested.frame.Straight := straight hfixed hsingle
  have hflat : flat.frame.Straight := straight hfixed (hleaves ▸ hsingle)
  have hnested' : nested.children ≠ [] := by simp [nested]
  have hflat' : flat.children ≠ [] := by simp [flat, hne]
  have hblock : ∀ l ∈ Node.leavesOf block, l.isGreedy = false := fun l hl =>
    hsingle l (Node.mem_leavesOf.2 ⟨.group inner block, by simp, hl⟩)
  have hthrough : ∀ args pos, (∀ name ∈ (Node.group inner block).names, args.contains name) →
      Scan.through nested.frame.shape ts flat.frame.slots args pos =
        Scan.through nested.frame.shape ts nested.frame.slots args pos := by
    intro args pos hnames
    rw [frame_slots, frame_slots, List.map_append, List.map_append, List.map_append, List.map_cons,
      List.append_assoc, Scan.through_append, Scan.through_append]
    cases hfront : Scan.through nested.frame.shape ts (front.map Node.slot) args pos with
    | matched found =>
      exact (through_block hplain hdense hblock hne
        (fun name hname => Scan.contains_through hfront (hnames name hname)) _ _).symm
    | noMatch => rfl
    | invalid e => rfl
  have hstart : ∀ name ∈ (Node.group inner block).names, nested.seed.contains name :=
    contains_seed_of_mem (g := nested) (by simp [nested])
  have hstart' : Scan.start flat.frame =
      .fresh flat.frame { args := nested.seed, pos := 0, passes := 0 } := by
    rw [← hseed]
    rfl
  rw [matchPrefix_of_children_ne_nil hnested', matchPrefix_of_children_ne_nil hflat', hstart']
  exact (Scan.run_fresh_congr hnested hflat rfl (frame_slots_ne_nil hnested')
    (frame_slots_ne_nil hflat') hthrough { args := nested.seed, pos := 0, passes := 0 }
    (Nat.zero_le _) hstart).symm

end

/-- Rolls of a die, up to six, as these places. -/
def rolls (places : List Node) : Group :=
  { shape := { repetition := some ⟨1, 6, by decide, by decide, by decide⟩ }
    children := .leaf { Leaf.integer "count" with optional := true } :: places }

theorem die_may_be_nested_in_rolls :
    (rolls [.group {} [.leaf (.word "d"), .leaf (.integer "sides")]]).matchPrefix
        ["2", "d", "6", "d", "8", "d"] =
      (rolls [.leaf (.word "d"), .leaf (.integer "sides")]).matchPrefix
        ["2", "d", "6", "d", "8", "d"] ∧
    (rolls [.leaf (.word "d"), .leaf (.integer "sides")]).matchPrefix
        ["2", "d", "6", "d", "8", "d"] = .matched
      { args := (((rolls [.leaf (.integer "sides")]).seed.push "count" ⟨.int 2, .integer⟩).push
          "sides" ⟨.int 6, .integer⟩).push "sides" ⟨.int 8, .integer⟩
        consumed := 5 } := by
  constructor
  · exact @plain_nesting_is_transparent (rolls []).shape {}
      [.leaf { Leaf.integer "count" with optional := true }]
      [.leaf (.word "d"), .leaf (.integer "sides")] [] rfl rfl ⟨rfl, rfl, rfl, rfl⟩
      (List.cons_ne_nil _ _) (by decide) _
  · decide +kernel

end Group
end Chatline
