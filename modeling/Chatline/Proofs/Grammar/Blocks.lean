import Chatline.Proofs.Scan.OnePass
import Mathlib.Data.List.FinRange
import Mathlib.Data.List.Nodup
import Mathlib.Data.List.Sort

/-! Places that may come in any order, each with a block of tokens that is its own. A flexible group
takes the blocks in an order exactly if no place is asked too early at a block of another one: a
place that may match no tokens answers there, and its own block is left over. -/
namespace Chatline

/-- Every place has a block of tokens of its own, whatever blocks of others follow: it takes the
block and always reads the same, and no other place takes a token of it. -/
structure Blocks {ι : Type} (slot : ι → Slot) (block : ι → List String) (readings : ι → Args) :
    Prop where
  nonempty : ∀ i, block i ≠ []
  own : ∀ i rest, (i :: rest).Nodup → (slot i).attempt (block i ++ rest.flatMap block) =
    .matched { args := readings i, consumed := (block i).length }
  other : ∀ i j rest, (j :: rest).Nodup → i ≠ j →
    ¬ Scan.Seizes ((slot i).attempt (block j ++ rest.flatMap block))

/-- Whenever a block comes first, the places declared before its own that still miss theirs do not
match there, not even no tokens. -/
def Patient {ι : Type} [LT ι] (slot : ι → Slot) (block : ι → List String) : List ι → Prop
  | [] => True
  | j :: rest =>
    (∀ i ∈ rest, i < j → (slot i).attempt (block j ++ rest.flatMap block) = .noMatch) ∧
      Patient slot block rest

namespace Blocks

variable {ι : Type} {slot : ι → Slot} {block : ι → List String} {readings : ι → Args}
  {ts : List String} {pos : Nat} {i j : ι} {rest : List ι}

theorem lt_length (hb : Blocks slot block readings) (hmem : i ∈ rest)
    (hts : ts.drop pos = rest.flatMap block) : pos < ts.length := by
  apply Scan.lt_length_of_drop hts
  intro hnil
  exact hb.nonempty i (List.flatMap_eq_nil_iff.1 hnil i hmem)

theorem attempt_own (hb : Blocks slot block readings) (hnodup : (j :: rest).Nodup)
    (hts : ts.drop pos = (j :: rest).flatMap block) : (slot j).attempt (ts.drop pos) =
      .matched { args := readings j, consumed := (block j).length } := by
  rw [hts, List.flatMap_cons]
  exact hb.own j rest hnodup

/-- A place that answers at the block of another one matches no tokens there. -/
theorem matches_nothing (hb : Blocks slot block readings) (hnodup : (j :: rest).Nodup)
    (hne : i ≠ j) (hts : ts.drop pos = (j :: rest).flatMap block)
    (hanswer : (slot i).attempt (ts.drop pos) ≠ .noMatch) :
    ∃ args, (slot i).attempt (ts.drop pos) = .matched { args, consumed := 0 } := by
  have hother : ¬ Scan.Seizes ((slot i).attempt (ts.drop pos)) := by
    rw [hts, List.flatMap_cons]
    exact hb.other i j rest hnodup hne
  cases hattempt : (slot i).attempt (ts.drop pos) with
  | matched found =>
    rw [hattempt] at hother
    obtain ⟨args, consumed⟩ := found
    have hzero : consumed = 0 := Nat.eq_zero_of_not_pos hother
    rw [hzero]
    exact ⟨args, rfl⟩
  | noMatch => exact absurd hattempt hanswer
  | invalid e =>
    rw [hattempt] at hother
    exact absurd trivial hother

end Blocks

section
variable {ι : Type} [Preorder ι] {slot : ι → Slot} {block : ι → List String} {order : List ι}

theorem patient_of_pairwise_lt (h : order.Pairwise (· < ·)) : Patient slot block order := by
  induction order with
  | nil => trivial
  | cons j rest ih =>
    obtain ⟨hlater, hrest⟩ := List.pairwise_cons.1 h
    exact ⟨fun i hi hij => absurd (hlater i hi) (lt_asymm hij), ih hrest⟩

theorem patient_of_noMatch (hapart : ∀ i j rest, (j :: rest).Nodup → i ≠ j →
    (slot i).attempt (block j ++ rest.flatMap block) = .noMatch) (hnodup : order.Nodup) :
    Patient slot block order := by
  induction order with
  | nil => trivial
  | cons j rest ih =>
    exact ⟨fun i _ hij => hapart i j rest hnodup (ne_of_lt hij), ih hnodup.of_cons⟩

end

/-- The places asked before the one that the block belongs to are those declared before it. -/
theorem patient_cons_iff {ι : Type} [LinearOrder ι] {slot : ι → Slot} {block : ι → List String}
    {front back rest : List ι} {j : ι} {ts : List String}
    (hperm : (front ++ j :: back).Perm (j :: rest))
    (hsorted : (front ++ j :: back).Pairwise (· < ·)) (hts : ts = (j :: rest).flatMap block) :
    Patient slot block (j :: rest) ↔
      (∀ i ∈ front, (slot i).attempt ts = .noMatch) ∧ Patient slot block rest := by
  obtain ⟨-, hback, hearlier⟩ := List.pairwise_append.1 hsorted
  have hothers : (front ++ back).Perm rest :=
    List.Perm.cons_inv (List.perm_middle.symm.trans hperm)
  have hasked : (∀ i ∈ rest, i < j → (slot i).attempt ts = .noMatch) ↔
      ∀ i ∈ front, (slot i).attempt ts = .noMatch := by
    constructor
    · intro hall i hi
      exact hall i (hothers.mem_iff.1 (List.mem_append_left back hi))
        (hearlier i hi j List.mem_cons_self)
    · intro hall i hi hij
      rcases List.mem_append.1 (hothers.mem_iff.2 hi) with hin | hin
      · exact hall i hin
      · exact absurd (List.rel_of_pairwise_cons hback hin) (lt_asymm hij)
  rw [← hasked, hts]
  rfl

/-- The first place that does not answer `noMatch` stands behind others that do. -/
theorem exists_first_answer {ι : Type} {slot : ι → Slot} {ts : List String} {todo : List ι}
    (h : ¬ ∀ i ∈ todo, (slot i).attempt ts = .noMatch) :
    ∃ front i back, todo = front ++ i :: back ∧
      (∀ o ∈ front, (slot o).attempt ts = .noMatch) ∧ (slot i).attempt ts ≠ .noMatch := by
  induction todo with
  | nil => exact absurd (by simp) h
  | cons c todo ih =>
    by_cases hc : (slot c).attempt ts = .noMatch
    · obtain ⟨front, i, back, rfl, hfront, hi⟩ :=
        ih fun hall => h (List.forall_mem_cons.2 ⟨hc, hall⟩)
      exact ⟨c :: front, i, back, rfl, List.forall_mem_cons.2 ⟨hc, hfront⟩, hi⟩
    · exact ⟨[], c, todo, rfl, by simp, hc⟩

namespace Scan.FirstPass

variable {ι : Type} {f : Frame} {slot : ι → Slot} {block : ι → List String} {readings : ι → Args}
  {ts : List String} {args : Args} {pos : Nat} {s : State}
  (honce : f.shape.repetition = none) (hflex : f.shape.flexible = true)
  (hsingle : ∀ i, (slot i).node.greedyLeaf? = none) (hb : Blocks slot block readings)
include honce hflex hsingle hb

omit hb in
/-- The first place that answers takes what it finds. -/
theorem outcome_answers {front back : List ι} {i : ι} {found : Found}
    (h : FirstPass f ((front ++ i :: back).map slot) args pos s) (hpos : pos < ts.length)
    (hfront : ∀ o ∈ front, (slot o).attempt (ts.drop pos) = .noMatch)
    (hi : (slot i).attempt (ts.drop pos) = .matched found) :
    ∃ s', FirstPass f ((front ++ back).map slot) (args.merge found.args)
        (pos + found.consumed) s' ∧
      outcome f ts s = outcome f ts s' := by
  rw [List.map_append, List.map_cons] at h
  rw [List.map_append]
  exact h.outcome_takes honce hpos (.inr hflex) (by simpa using hfront) hi (hsingle i)

omit honce hflex hsingle hb in
theorem drop_block {rest : List ι} {j : ι} (hts : ts.drop pos = (j :: rest).flatMap block) :
    ts.drop (pos + (block j).length) = rest.flatMap block := by
  rw [← List.drop_drop, hts, List.flatMap_cons, List.drop_left]

/-- A block whose place has been gone past is left over. -/
theorem leavesOver_of_lost {todo rest : List ι} {lost : ι} (hrest : rest.Nodup)
    (hmem : lost ∈ rest) (hlost : lost ∉ todo) (h : FirstPass f (todo.map slot) args pos s)
    (hts : ts.drop pos = rest.flatMap block) : LeavesOver ts (outcome f ts s) := by
  have hpos : pos < ts.length := hb.lt_length hmem hts
  induction hn : todo.length generalizing todo rest args pos s with
  | zero =>
    rw [List.length_eq_zero_iff.1 hn] at h
    have hend : outcome f ts s = .matched { args, consumed := pos } := h.outcome_nil
    rw [hend]
    exact hpos
  | succ n ih =>
    obtain ⟨j, rest, rfl⟩ := List.exists_cons_of_ne_nil (List.ne_nil_of_mem hmem)
    by_cases hno : ∀ i ∈ todo, (slot i).attempt (ts.drop pos) = .noMatch
    · obtain ⟨c, later, rfl⟩ := List.exists_cons_of_length_eq_add_one hn
      obtain ⟨hc, hlater⟩ := List.forall_mem_cons.1 hno
      have hothers : f.shape.flexible = true →
          ∀ o ∈ later.map slot, o.attempt (ts.drop pos) = .noMatch := fun _ => by simpa using hlater
      cases hskip : f.shape.skips (slot c).node with
      | true =>
        obtain ⟨s', hs', hout⟩ := h.outcome_leavesOut honce hpos hc hothers hskip
        rw [hout]
        exact ih hrest hmem (List.not_mem_of_not_mem_cons hlost) hs' hts hpos (by simpa using hn)
      | false =>
        rw [h.outcome_stops honce hpos hc hothers hskip]
        trivial
    · obtain ⟨front, i, back, rfl, hfront, hi⟩ := exists_first_answer hno
      have hgone : lost ∉ front ++ back :=
        fun hin => hlost ((sublist_middle front i back).subset hin)
      have hlength : (front ++ back).length = n := by
        rw [List.length_append] at hn ⊢
        rw [List.length_cons] at hn
        omega
      by_cases hij : i = j
      · subst hij
        obtain ⟨s', hs', hout⟩ :=
          h.outcome_answers honce hflex hsingle hpos hfront (hb.attempt_own hrest hts)
        have hmem' : lost ∈ rest := by
          rcases List.mem_cons.1 hmem with rfl | hin
          · exact absurd (by simp) hlost
          · exact hin
        have hts' := drop_block hts
        rw [hout]
        exact ih hrest.of_cons hmem' hgone hs' hts' (hb.lt_length hmem' hts') hlength
      · obtain ⟨found, hnothing⟩ := hb.matches_nothing hrest hij hts hi
        obtain ⟨s', hs', hout⟩ := h.outcome_answers honce hflex hsingle hpos hfront hnothing
        rw [hout]
        exact ih hrest hmem hgone hs' hts hpos hlength

section
variable [LinearOrder ι] {front back rest : List ι} {j : ι}
  (hperm : (front ++ j :: back).Perm (j :: rest)) (hsorted : (front ++ j :: back).Pairwise (· < ·))
include hperm hsorted

/-- A place that is asked too early matches no tokens, and is not asked again. -/
theorem leavesOver_of_impatient (h : FirstPass f ((front ++ j :: back).map slot) args pos s)
    (hts : ts.drop pos = (j :: rest).flatMap block)
    (hfront : ¬ ∀ i ∈ front, (slot i).attempt (ts.drop pos) = .noMatch) :
    LeavesOver ts (outcome f ts s) := by
  have hnodup : (j :: rest).Nodup := hperm.nodup (hsorted.imp ne_of_lt)
  have hlt : pos < ts.length := hb.lt_length List.mem_cons_self hts
  obtain ⟨-, -, hearlier⟩ := List.pairwise_append.1 hsorted
  obtain ⟨first, i, between, rfl, hfirst, hi⟩ := exists_first_answer hfront
  have hij : i ≠ j := ne_of_lt (hearlier i (by simp) j List.mem_cons_self)
  have hmem : i ∈ j :: rest := hperm.mem_iff.1 (by simp)
  have hsplit : first ++ i :: between ++ j :: back = first ++ i :: (between ++ j :: back) := by
    rw [List.append_assoc, List.cons_append]
  rw [hsplit] at h hsorted
  have hgone : i ∉ first ++ (between ++ j :: back) :=
    (List.nodup_middle.1 (hsorted.imp ne_of_lt)).notMem
  obtain ⟨found, hnothing⟩ := hb.matches_nothing hnodup hij hts hi
  obtain ⟨s', hs', hout⟩ := h.outcome_answers honce hflex hsingle hlt hfirst hnothing
  rw [hout]
  exact hs'.leavesOver_of_lost honce hflex hsingle hb hnodup hmem hgone hts

end

/-- The blocks are taken in the order in which they come if the places are patient, and otherwise
one is left over. -/
theorem outcome_blocks [LinearOrder ι] {todo rest : List ι} (hperm : todo.Perm rest)
    (hsorted : todo.Pairwise (· < ·)) (h : FirstPass f (todo.map slot) args pos s)
    (hts : ts.drop pos = rest.flatMap block)
    (hpos : pos + (rest.flatMap block).length = ts.length) :
    (Patient slot block rest → outcome f ts s = .matched
      { args := rest.foldl (fun a i => a.merge (readings i)) args, consumed := ts.length }) ∧
    (¬ Patient slot block rest → LeavesOver ts (outcome f ts s)) := by
  induction rest generalizing todo args pos s with
  | nil =>
    rw [List.perm_nil.1 hperm] at h
    have hend : outcome f ts s = .matched { args, consumed := pos } := h.outcome_nil
    have hall : pos = ts.length := hpos
    refine ⟨fun _ => ?_, fun hno => absurd trivial hno⟩
    rw [hend, hall]
    rfl
  | cons j rest ih =>
    obtain ⟨front, back, rfl⟩ := List.append_of_mem (hperm.mem_iff.2 List.mem_cons_self)
    rw [patient_cons_iff hperm hsorted hts]
    by_cases hfront : ∀ i ∈ front, (slot i).attempt (ts.drop pos) = .noMatch
    · have hnodup : (j :: rest).Nodup := hperm.nodup (hsorted.imp ne_of_lt)
      have hothers : (front ++ back).Perm rest :=
        List.Perm.cons_inv (List.perm_middle.symm.trans hperm)
      have hlength : pos + (block j).length + (rest.flatMap block).length = ts.length := by
        rw [List.flatMap_cons, List.length_append] at hpos
        omega
      obtain ⟨s', hs', hout⟩ := h.outcome_answers honce hflex hsingle
        (hb.lt_length List.mem_cons_self hts) hfront (hb.attempt_own hnodup hts)
      obtain ⟨htaken, hleft⟩ :=
        ih hothers (hsorted.sublist (sublist_middle front j back)) hs' (drop_block hts) hlength
      rw [hout]
      exact ⟨fun hp => htaken hp.2, fun hno => hleft fun hp => hno ⟨hfront, hp⟩⟩
    · exact ⟨fun hp => absurd hp.1 hfront, fun _ =>
        leavesOver_of_impatient honce hflex hsingle hb hperm hsorted h hts hfront⟩

end Scan.FirstPass

namespace Group

/-- The slot of a child in its group's frame. -/
def slotAt (g : Group) (i : Fin g.children.length) : Slot := g.children[i].slot

theorem frame_slots_eq_finRange (g : Group) :
    g.frame.slots = (List.finRange g.children.length).map g.slotAt := by
  have hchildren : (List.finRange g.children.length).map (fun i => g.children[i]) = g.children :=
    List.map_getElem_finRange g.children
  rw [frame_slots]
  nth_rewrite 1 [← hchildren]
  rw [List.map_map]
  rfl

section
variable {g : Group} {block : Fin g.children.length → List String}
  {readings : Fin g.children.length → Args}

/-- A flexible group in which every place has a block of its own takes the blocks in the orders in
which the places are patient, and every place reads the same in each of these orders. In any other
order there is no match. The declared order is one of them, and every order is if no place matches
without tokens at the block of another one. -/
theorem blocks_match_iff_patient (honce : g.shape.repetition = none)
    (hflex : g.shape.flexible = true) (hsingle : ∀ c ∈ g.children, c.greedyLeaf? = none)
    (hb : Blocks g.slotAt block readings) {order : List (Fin g.children.length)}
    (horder : order.Perm (List.finRange g.children.length)) :
    (Patient g.slotAt block order → g.matchTokens (order.flatMap block) =
      .matched (g.applyDefaults (order.foldl (fun a i => a.merge (readings i)) g.seed))) ∧
    (¬ Patient g.slotAt block order → g.matchTokens (order.flatMap block) = .noMatch) ∧
    Patient g.slotAt block (List.finRange g.children.length) ∧
    ((∀ i j rest, (j :: rest).Nodup → i ≠ j →
      (g.slotAt i).attempt (block j ++ rest.flatMap block) = .noMatch) →
        Patient g.slotAt block order) := by
  have hstart := Scan.start_firstPass g.frame
  rw [frame_slots_eq_finRange] at hstart
  have hsingle' : ∀ i, (g.slotAt i).node.greedyLeaf? = none :=
    fun i => hsingle _ (List.getElem_mem i.isLt)
  obtain ⟨htaken, hleft⟩ := hstart.outcome_blocks honce hflex hsingle' hb horder.symm
    (List.pairwise_lt_finRange _) rfl (Nat.zero_add _)
  rw [← g.matchPrefix_eq_outcome] at htaken hleft
  refine ⟨fun hp => ?_, fun hno => ?_, ?_, ?_⟩
  · exact matchTokens_of_all (htaken hp) rfl
  · exact matchTokens_of_leavesOver (hleft hno)
  · exact patient_of_pairwise_lt (List.pairwise_lt_finRange _)
  · intro hapart
    exact patient_of_noMatch hapart (horder.nodup_iff.2 (List.nodup_finRange _))

end

/-- A delay, which may occur no times at all, and an urgency, in any order. -/
def reminder : Group :=
  { shape := { flexible := true }
    children :=
      [ .group { repetition := some ⟨0, 1, by decide, by decide, by decide⟩ }
          [.leaf (.word "in"), .leaf (.integer "minutes")],
        .leaf (.ofMatcher "urgency" (.choice ["low", "high"])) ] }

namespace reminder

def block : Fin 2 → List String
  | 0 => ["in", "5"]
  | 1 => ["high"]

def readings : Fin 2 → Args
  | 0 => (Args.ofNames ["minutes"]).push "minutes" ⟨.int 5, .integer⟩
  | 1 => Args.single "urgency" ⟨.text "high", .choice⟩

/-- After the block of one of two places comes that of the other one, or none. -/
theorem eq_nil_or_rev {i : Fin 2} {rest : List (Fin 2)} (h : (i :: rest).Nodup) :
    rest = [] ∨ rest = [i.rev] := by
  match rest with
  | [] => exact .inl rfl
  | [k] =>
    have hrev : ∀ i k : Fin 2, i ≠ k → k = i.rev := by decide
    rw [hrev i k (by simpa using h)]
    exact .inr rfl
  | k :: m :: rest =>
    have htwo : ∀ i k m : Fin 2, ¬ (i ≠ k ∧ i ≠ m ∧ k ≠ m) := by decide
    simp only [List.nodup_cons, List.mem_cons, not_or] at h
    exact absurd ⟨h.1.1, h.1.2.1, h.2.1.1⟩ (htwo i k m)

theorem not_greedy : ∀ c ∈ reminder.children, c.greedyLeaf? = none := by decide

theorem blocks : Blocks reminder.slotAt block readings where
  nonempty := by
    change ∀ i : Fin 2, block i ≠ []
    decide
  own := by
    intro i rest h
    rcases eq_nil_or_rev h with rfl | rfl
    · revert i
      decide +kernel
    · revert i
      decide +kernel
  other := by
    intro i j rest h hne
    rcases eq_nil_or_rev h with rfl | rfl
    · revert i j
      decide +kernel
    · revert i j
      decide +kernel

end reminder

theorem reminder_takes_its_delay_first :
    reminder.matchTokens ["in", "5", "high"] = .matched ((reminder.seed.push "minutes"
      ⟨.int 5, .integer⟩).push "urgency" ⟨.text "high", .choice⟩) ∧
    reminder.matchTokens ["high", "in", "5"] = .noMatch := by
  have hdeclared : ([0, 1] : List (Fin 2)).Perm (List.finRange 2) := by decide
  have hturned : ([1, 0] : List (Fin 2)).Perm (List.finRange 2) := by decide
  obtain ⟨hmatch, -, hpatient, -⟩ :=
    blocks_match_iff_patient rfl rfl reminder.not_greedy reminder.blocks hdeclared
  obtain ⟨-, hno, -, -⟩ :=
    blocks_match_iff_patient rfl rfl reminder.not_greedy reminder.blocks hturned
  constructor
  · refine (hmatch hpatient).trans ?_
    decide +kernel
  · apply hno
    rintro ⟨hasked, -⟩
    have hdelay := hasked (0 : Fin 2) List.mem_cons_self Nat.zero_lt_one
    revert hdelay
    decide +kernel

/-- The delay occurs no times before the urgency, and its tokens are left over. -/
theorem reminder_loses_its_delay_behind_the_urgency :
    reminder.shape.repetition = none ∧ reminder.shape.flexible = true ∧
    (∀ c ∈ reminder.children, c.greedyLeaf? = none) ∧
    Blocks reminder.slotAt reminder.block reminder.readings ∧
    ([1, 0] : List (Fin 2)).Perm (List.finRange 2) ∧
    ([1, 0] : List (Fin 2)).flatMap reminder.block = ["high", "in", "5"] ∧
    reminder.matchTokens ["high", "in", "5"] = .noMatch := by
  refine ⟨rfl, rfl, reminder.not_greedy, reminder.blocks, by decide, rfl, ?_⟩
  decide +kernel

end Group

end Chatline
