import Chatline.Proofs.Grammar.Refusal
import Chatline.Proofs.Scan.StepCount
import Chatline.Proofs.Scan.WholeText
import Mathlib.Data.List.FinRange
import Mathlib.Data.List.NodupEquivFin
import Mathlib.Data.List.Perm.Basic
import Mathlib.Logic.Relation

/-! Every state of a scan, from the first to those at the end of the tokens: where its slots stand in
the group, how its counts are related, and what a leaf that absorbs has read. -/
namespace Chatline

section
variable {α β : Type}

/-- A list that a map takes to some order of another can be put into that order. -/
theorem exists_perm_of_map_perm {g : α → β} {xs : List α} {ys : List β}
    (h : (xs.map g).Perm ys) : ∃ zs : List α, zs.Perm xs ∧ zs.map g = ys := by
  have hmap : List.Forall₂ (fun y x => y = g x) (xs.map g) xs := by
    rw [List.forall₂_map_left_iff, List.forall₂_same]
    exact fun x _ => rfl
  obtain ⟨zs, hzs, hperm⟩ := List.perm_comp_forall₂ h.symm hmap
  have heq : List.Forall₂ Eq ys (zs.map g) := List.forall₂_map_right_iff.2 hzs
  rw [List.forall₂_eq_eq_eq] at heq
  exact ⟨zs, hperm, heq.symm⟩

/-- A list in another order, with its last part in the order it has there, as places in it. -/
theorem exists_places {xs front back : List α} (hperm : (front ++ back).Perm xs)
    (hsub : back.Sublist xs) :
    ∃ places : List (Fin xs.length), places.Perm (List.finRange xs.length) ∧
      front ++ back = places.map xs.get ∧ (places.drop front.length).Pairwise (· < ·) := by
  -- equal entries have several places: the last part takes those it is embedded at, the others go
  -- to the first part in the order that it needs
  obtain ⟨place, hplace⟩ := List.sublist_iff_exists_fin_orderEmbedding_get_eq.1 hsub
  let last : List (Fin xs.length) := (List.finRange back.length).map place
  let others : List (Fin xs.length) := (List.finRange xs.length).filter (· ∉ last)
  have hlast : last.map xs.get = back := by
    have hget : xs.get ∘ place = back.get := funext fun i => (hplace i).symm
    rw [List.map_map, hget, List.map_get_finRange]
  have hascending : last.Pairwise (· < ·) :=
    (List.pairwise_lt_finRange _).map place fun _ _ h => place.lt_iff_lt.2 h
  have hall : (others ++ last).Perm (List.finRange xs.length) := by
    have hdisjoint : List.Disjoint others last := by
      intro i hi hlast
      simp only [others, List.mem_filter, decide_eq_true_eq] at hi
      exact hi.2 hlast
    have hnodup : (others ++ last).Nodup :=
      List.Nodup.append ((List.nodup_finRange _).filter _)
        (hascending.imp fun h => ne_of_lt h) hdisjoint
    rw [List.perm_ext_iff_of_nodup hnodup (List.nodup_finRange _)]
    intro i
    by_cases hi : i ∈ last <;> simp [others, hi]
  have hothers : (others.map xs.get).Perm front := by
    have hmap := (hall.map xs.get).trans (List.Perm.of_eq (List.map_get_finRange xs))
    rw [List.map_append, hlast] at hmap
    exact (List.perm_append_right_iff back).1 (hmap.trans hperm.symm)
  obtain ⟨first, hfirst, hmap⟩ := exists_perm_of_map_perm hothers
  have hlength : first.length = front.length := by rw [← hmap, List.length_map]
  refine ⟨first ++ last, (hfirst.append_right last).trans hall, ?_, ?_⟩
  · rw [List.map_append, hmap, hlast]
  · rw [← hlength, List.drop_left]
    exact hascending

end

theorem Shape.maxPasses_lt (s : Shape) : s.maxPasses < UInt32.size := by
  unfold maxPasses
  cases s.repetition with
  | none => decide
  | some r => exact r.max_lt

namespace Scan

/-- The slots done and to be done are those at these places of the group, each place once. The first
slot to be done is at the place that the number of slots done leads to, and the places after that
one ascend. -/
structure Arranges (f : Frame) (order : List (Fin f.slots.length)) (s : State) : Prop where
  perm : order.Perm (List.finRange f.slots.length)
  slots : s.done.reverse ++ s.todo = order.map f.slots.get
  current : s.todo.head? = order[s.done.length]?.map f.slots.get
  ascending : (order.drop (s.done.length + 1)).Pairwise (· < ·)

/-- The absorbing leaf is the current slot. Its tokens are those of the current pass from its start
on, and what they read as is the last reading under its name. -/
structure Holds (ts : List String) (s : State) (a : Absorbing) : Prop where
  current : ∃ slot later, s.todo = slot :: later ∧ slot.node = .leaf a.leaf
  greedy : a.leaf.isGreedy = true
  not_literal : a.leaf.literal = false
  passStart_le : s.passStart ≤ a.start
  start_lt : a.start < s.pos
  last : ∃ r, a.leaf.read (Text.spaced (a.span ts s)) = .matched r ∧
    (s.args.readings a.leaf.name).getLast? = some r

/-- How the parts of a state hang together. -/
structure Orderly (f : Frame) (ts : List String) (s : State) : Prop where
  order : ∃ order, Arranges f order s
  unfinished_iff : s.todo ≠ [] ↔ s.done.length < f.slots.length
  mark_pos_le : s.mark.pos ≤ s.pos
  pos_le : s.pos ≤ ts.length
  passStart_le : s.passStart ≤ s.pos
  mark_passes : s.mark.passes = s.passes
  passes_le : s.passes ≤ f.shape.maxPasses
  unfinished : s.todo ≠ [] → s.passes < f.shape.maxPasses ∧ s.mark.pos = s.passStart
  countable : s.passes < UInt32.size ∧ (s.todo ≠ [] → s.passes + 1 < UInt32.size)
  held : ∀ a, s.absorbing = some a → Holds ts s a

section
variable {g : Group} {ts : List String} {s s' : State}

theorem Loose.exists_order {f : Frame} (h : Loose f ts s) : ∃ order, Arranges f order s := by
  -- only behind the current slot is the order sure to be the declared one
  have hsplit : s.done.reverse ++ s.todo.take 1 ++ s.todo.tail = s.done.reverse ++ s.todo := by
    rw [List.append_assoc, ← List.drop_one, List.take_append_drop]
  obtain ⟨order, hperm, hslots, hascending⟩ := exists_places (hsplit ▸ h.arranged) h.ascending
  rw [hsplit] at hslots
  have htodo : s.todo = (order.drop s.done.length).map f.slots.get := by
    rw [List.map_drop, ← hslots, ← List.length_reverse, List.drop_left]
  have hfront : (s.done.reverse ++ s.todo.take 1).length ≤ s.done.length + 1 := by
    rw [List.length_append, List.length_reverse]
    exact Nat.add_le_add_left (List.length_take_le 1 _) _
  refine ⟨order, hperm, hslots, ?_, ?_⟩
  · rw [htodo, List.head?_map, List.head?_drop]
  · exact hascending.sublist (List.drop_sublist_drop_left order hfront)

theorem Derived.holds (h : Derived g ts s) (hc : Coherent g.frame ts s) {a : Absorbing}
    (habs : s.absorbing = some a) : Holds ts s a := by
  obtain ⟨slot, later, htodo, hgreedy, hpass, hstart⟩ := hc.held a habs
  obtain ⟨hnode, hleaf⟩ := Node.eq_leaf_of_greedyLeaf? hgreedy
  obtain ⟨r, hread, us, zs, -, -, hargs⟩ := h.held a habs
  refine ⟨⟨slot, later, htodo, hnode⟩, hleaf, Leaf.literal_of_isGreedy hleaf, hpass, hstart, r,
    hread, ?_⟩
  rw [hargs, Args.record_append, Args.record_singleton, Args.readings_push, if_pos rfl,
    List.getLast?_concat]

theorem Derived.orderly (h : Derived g ts s) (hc : Coherent g.frame ts s) :
    Orderly g.frame ts s where
  order := hc.exists_order
  unfinished_iff := by
    have hlength := hc.arranged.length_eq
    rw [List.length_append, List.length_reverse] at hlength
    rw [← List.length_pos_iff]
    omega
  mark_pos_le := hc.mark_pos_le
  pos_le := hc.pos_le
  passStart_le := hc.passStart_le
  mark_passes := hc.mark_passes
  passes_le := hc.passes_le
  unfinished := hc.unfinished
  countable := by
    have hmax := g.frame.shape.maxPasses_lt
    refine ⟨Nat.lt_of_le_of_lt hc.passes_le hmax, fun hne => ?_⟩
    exact Nat.lt_of_le_of_lt (hc.unfinished hne).1 hmax
  held a habs := h.holds hc habs

theorem Reached.derived (hne : g.children ≠ []) (hs : Reached g.frame ts s) :
    Derived g ts s := by
  induction hs with
  | start => exact start_derived g ts
  | step hs hopen hstep ih =>
    have hc := hs.coherent g.bounded (Group.frame_slots_ne_nil hne)
    exact ih.move hc (fun c _ => c.sound) g.bounded (move_of_step hstep)

/-- Closings keep what a state says of the tokens and of the derivation behind it. -/
theorem Derived.closings (h : Derived g ts s) (hc : Coherent g.frame ts s)
    (hclose : Relation.ReflTransGen (Closing g.frame) s s') :
    Coherent g.frame ts s' ∧ Derived g ts s' := by
  induction hclose with
  | refl => exact ⟨hc, h⟩
  | tail _ hlast ih => exact ⟨ih.1.closing hlast, ih.2.closing ih.1 (fun c _ => c.sound) hlast⟩

/-- What the end of the tokens does to a state is a sequence of closings. -/
theorem closings_of_drain {f : Frame} (h : drain f s = .matched s') :
    Relation.ReflTransGen (Closing f) s s' :=
  (drain_cases (P := Relation.ReflTransGen (Closing f) s) (fun _ _ hs hc => hs.tail hc) .refl h).1

end

end Scan

namespace Group

open Scan

/-- Every state of a scan is orderly: those that steps lead to, and from each of them those that the
end of the tokens leads to. There the rest of the pass can be gone through without a failure. -/
theorem states_are_orderly {g : Group} (hne : g.children ≠ []) (ts : List String) {s : State}
    (hs : Reached g.frame ts s) :
    Orderly g.frame ts s ∧
    (∃ s', drain g.frame s = .matched s' ∧ Relation.ReflTransGen (Closing g.frame) s s') ∧
    ∀ s', Relation.ReflTransGen (Closing g.frame) s s' → Orderly g.frame ts s' := by
  have hc := hs.coherent g.bounded (frame_slots_ne_nil hne)
  have hd := hs.derived hne
  have hvalid : ∀ slot ∈ g.frame.slots, ∀ e, slot.attempt [] ≠ .invalid e := by
    intro slot hslot e
    obtain ⟨c, -, rfl⟩ := mem_frame_slots.1 hslot
    exact c.attempt_nil_ne_invalid e
  refine ⟨hd.orderly hc, ?_, fun s' hclose => ?_⟩
  · cases hdrain : drain g.frame s with
    | matched s' => exact ⟨s', rfl, closings_of_drain hdrain⟩
    | noMatch => exact absurd hdrain (drain_ne_noMatch _ _)
    | invalid e => exact absurd hdrain (hc.drain_ne_invalid hvalid e)
  · obtain ⟨hc', hd'⟩ := hd.closings hc hclose
    exact hd'.orderly hc'

/-- A short note, and in how many minutes it is due. -/
def dueNote : Group :=
  { children := [.leaf (.boundedText "note" 8), .leaf (.word "in"), .leaf (.integer "minutes")] }

/-- The state in which the note has its first word. -/
def noteBegun : State := (start dueNote.frame).taking (.boundedText "note" 8) ["a"]

theorem noteBegun_reached (rest : List String) : Reached dueNote.frame ("a" :: rest) noteBegun := by
  have htakes : (Leaf.boundedText "note" 8).Takes ["a"] :=
    Leaf.takes_boundedText "note" 8 (by decide) (by decide)
  have hopen : (start dueNote.frame).Open ("a" :: rest) :=
    ⟨List.cons_ne_nil _ _, Nat.zero_lt_succ _⟩
  have hstep : step dueNote.frame ("a" :: rest) (start dueNote.frame) = .matched noteBegun :=
    step_text rfl rfl htakes rfl
  exact Reached.start.step hopen hstep

theorem note_is_orderly_to_its_end :
    dueNote.children ≠ [] ∧ Reached dueNote.frame ["a", "b", "in", "5"] noteBegun ∧
    Orderly dueNote.frame ["a", "b", "in", "5"] noteBegun ∧
    ∃ s, drain dueNote.frame noteBegun = .matched s ∧
      Orderly dueNote.frame ["a", "b", "in", "5"] s := by
  have hne : dueNote.children ≠ [] := List.cons_ne_nil _ _
  have hreached := noteBegun_reached ["b", "in", "5"]
  obtain ⟨horderly, ⟨s, hdrain, hclose⟩, hall⟩ := states_are_orderly hne _ hreached
  exact ⟨hne, hreached, horderly, s, hdrain, hall s hclose⟩

end Group
end Chatline
