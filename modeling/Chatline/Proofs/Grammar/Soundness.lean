import Chatline.Proofs.Grammar.Derivation
import Chatline.Proofs.Scan.Coherence

/-! What a group matches is in its grammar: the tokens taken have a derivation, and the arguments
are what the derivation yields. The scan keeps a derivation of the passes up to its mark, and one
of the slots done since. -/
namespace Chatline

theorem Text.spaced_singleton (t : String) : Text.spaced [t] = t := rfl

theorem Leaf.attempt_eq_matched {l : Leaf} {ts : List String} {found : Found}
    (h : l.attempt ts = .matched found) : ∃ t rest r, ts = t :: rest ∧ l.read t = .matched r ∧
      found = { args := if l.literal then ∅ else Args.single l.name r, consumed := 1 } := by
  cases ts with
  | nil => simp [attempt] at h
  | cons t rest =>
    cases hr : l.read t with
    | matched r =>
      refine ⟨t, rest, r, rfl, hr, ?_⟩
      simp only [attempt, hr, Verdict.map, Verdict.matched.injEq] at h
      exact h.symm
    | noMatch => simp [attempt, hr, Verdict.map] at h
    | invalid e => simp [attempt, hr, Verdict.map] at h

theorem Node.eq_leaf_of_greedyLeaf? {n : Node} {l : Leaf} (h : n.greedyLeaf? = some l) :
    n = .leaf l ∧ l.isGreedy = true := by
  cases n with
  | leaf l' =>
    simp only [greedyLeaf?] at h
    split at h
    · rename_i hg
      cases h
      exact ⟨rfl, hg⟩
    · cases h
  | group _ _ => cases h

/-- Every match of this place is a derivation, and its arguments are the yield. -/
def Node.Sound (n : Node) : Prop :=
  ∀ ts found, n.attempt ts = .matched found → found.consumed ≤ ts.length ∧
    ∃ ys, n.Derives (ts.take found.consumed) ys ∧
      found.args = (Args.ofNames n.names).record ys

theorem Leaf.sound (l : Leaf) : (Node.leaf l).Sound := by
  intro ts found h
  rw [Node.attempt] at h
  obtain ⟨t, rest, r, rfl, hr, rfl⟩ := attempt_eq_matched h
  refine ⟨Nat.succ_le_succ (Nat.zero_le _), ?_⟩
  cases hl : l.literal with
  | true =>
    have ht : t = l.name := by
      unfold read at hr
      rw [hl, if_pos rfl] at hr
      split at hr
      · assumption
      · cases hr
    subst ht
    refine ⟨[], .literal hl, ?_⟩
    simp [Node.names, Node.leaves, hl, Args.ofNames]
  | false =>
    refine ⟨[(l.name, r)], .token hl hr, ?_⟩
    apply Args.ext_readings <;> intro k <;>
      simp [Node.names, Node.leaves, hl, Args.single, Args.record_singleton, Args.readings_push]

namespace Scan

/-- The slots in `done` have taken the tokens after the mark up to a last span, and what stands
in the arguments after those of the mark is their yield and that of the span. -/
def Covers (g : Group) (ts : List String) (s : State) (done : List Slot) (span : List String)
    (last : Yield) : Prop :=
  ∃ us zs, Node.Visits g.shape (done.reverse.map Slot.node) us zs ∧
    ts.take s.pos = ts.take s.mark.pos ++ (us ++ span) ∧
    s.args = s.mark.args.record (zs ++ last)

/-- The tokens that the absorbing leaf has taken. -/
def Absorbing.span (ts : List String) (a : Absorbing) (s : State) : List String :=
  (ts.drop a.start).take (s.pos - a.start)

/-- There are derivations behind the mark and behind the current pass. -/
structure Derived (g : Group) (ts : List String) (s : State) : Prop where
  marked : ∃ ys, Node.Passes g.shape g.children s.mark.passes (ts.take s.mark.pos) ys ∧
    s.mark.args = g.seed.record ys
  idle : s.absorbing = none → s.todo ≠ [] → Covers g ts s s.done [] []
  held : ∀ a, s.absorbing = some a → ∃ r, a.leaf.read (Text.spaced (a.span ts s)) = .matched r ∧
    Covers g ts s s.done (a.span ts s) [(a.leaf.name, r)]

section
variable {g : Group} {ts : List String} {s : State} {slot : Slot} {later done : List Slot}

theorem start_derived (g : Group) (ts : List String) : Derived g ts (start g.frame) where
  marked := ⟨[], .none, rfl⟩
  idle _ _ := ⟨[], [], .none, rfl, rfl⟩
  held a h := by cases h

theorem Covers.absent (h : Covers g ts s done [] []) (hl : g.shape.MayLack slot.node) :
    Covers g ts s (slot :: done) [] [] := by
  obtain ⟨us, zs, hv, htake, hargs⟩ := h
  refine ⟨us, zs, ?_, htake, hargs⟩
  have hone : Node.Visits g.shape [slot.node] [] [] := .absent hl .none
  simpa using hv.append hone

theorem Covers.present {span : List String} {last : Yield} (h : Covers g ts s done span last)
    (hd : slot.node.Derives span last) : Covers g ts s (slot :: done) [] [] := by
  obtain ⟨us, zs, hv, htake, hargs⟩ := h
  refine ⟨us ++ span, zs ++ last, ?_, by simpa using htake, by simpa using hargs⟩
  have hone : Node.Visits g.shape [slot.node] span last := by
    simpa using Node.Visits.present hd .none
  simpa using hv.append hone

/-- The tokens that come next are added to the span, and their yield is recorded. -/
theorem Covers.forward (h : Covers g ts s done [] []) (k : Nat) (ys : Yield)
    (absorbing : Option Absorbing) :
    Covers g ts { s with args := s.args.record ys, pos := s.pos + k, absorbing } done
      ((ts.drop s.pos).take k) ys := by
  obtain ⟨us, zs, hv, htake, hargs⟩ := h
  refine ⟨us, zs, hv, ?_, ?_⟩
  · dsimp only
    rw [List.take_add, htake]
    simp
  · dsimp only
    rw [hargs, ← Args.record_append]
    simp

/-- The slots done make up a pass once there are no others. -/
theorem Covers.pass (h : Covers g ts s done [] [])
    (hm : ∃ ys, Node.Passes g.shape g.children s.mark.passes (ts.take s.mark.pos) ys ∧
      s.mark.args = g.seed.record ys) (hperm : (done.reverse).Perm g.frame.slots)
    (horder : g.shape.flexible = false → done.reverse = g.frame.slots) :
    ∃ ys, Node.Passes g.shape g.children (s.mark.passes + 1) (ts.take s.pos) ys ∧
      s.args = g.seed.record ys := by
  obtain ⟨ys, hp, hmark⟩ := hm
  obtain ⟨us, zs, hv, htake, hargs⟩ := h
  refine ⟨ys ++ zs, ?_, ?_⟩
  · rw [htake, List.append_nil]
    refine .next hp ?_ (fun hf => ?_) hv
    · rw [← g.map_node_frame_slots]
      exact hperm.map _
    · rw [horder hf, g.map_node_frame_slots]
  · rw [hargs, List.append_nil, hmark, Args.record_append]

/-- Leaving a slot that is accounted for. -/
theorem Covers.advance (hc : Loose g.frame ts s)
    (hm : ∃ ys, Node.Passes g.shape g.children s.mark.passes (ts.take s.mark.pos) ys ∧
      s.mark.args = g.seed.record ys)
    (hidle : s.absorbing = none) (htodo : s.todo = slot :: later)
    (h : Covers g ts s (slot :: s.done) [] []) : Derived g ts (advance g.frame s) := by
  have hdone := arranged_cons htodo
  have hpass : later = [] → ∃ ys, Node.Passes g.shape g.children (s.passes + 1)
      (ts.take s.pos) ys ∧ s.args = g.seed.record ys := by
    intro hnil
    rw [hnil, List.append_nil] at hdone
    rw [← hc.mark_passes]
    exact h.pass hm (by rw [hdone]; exact hc.arranged)
      (fun hf => by rw [hdone]; exact hc.in_order hf)
  obtain ⟨-, heq⟩ | ⟨hnil, -, heq⟩ | ⟨hnil, -, heq⟩ := advance_cases g.frame htodo
  · rw [heq]
    exact {
      marked := hm
      idle := fun _ _ => h
      held := fun a ha => by simp [hidle] at ha }
  · rw [heq]
    exact {
      marked := hpass hnil
      idle := fun _ hne => absurd rfl hne
      held := fun a ha => by simp [hidle] at ha }
  · rw [heq]
    exact {
      marked := hpass hnil
      idle := fun _ _ => ⟨[], [], .none, by simp [State.endOfPass], rfl⟩
      held := fun a ha => by simp [hidle] at ha }

/-- The names of a child are present in the arguments while its slot is to be done. -/
theorem Derived.contains (h : Derived g ts s) (hidle : s.absorbing = none) (hne : s.todo ≠ [])
    {c : Node} (hc : c ∈ g.children) : ∀ name ∈ c.names, s.args.contains name := by
  obtain ⟨us, zs, -, -, hargs⟩ := h.idle hidle hne
  obtain ⟨ys, -, hmark⟩ := h.marked
  intro name hname
  rw [hargs, hmark, Args.contains_record, Args.contains_record]
  exact .inl (.inl (Group.contains_seed_of_mem hc name hname))

/-- What a slot of the group takes is a derivation, recorded in the arguments. -/
theorem Derived.found (h : Derived g ts s) (hidle : s.absorbing = none) (hne : s.todo ≠ [])
    (hg : ∀ c ∈ g.children, c.Sound) (hslot : slot ∈ g.frame.slots) {us : List String}
    {found : Found} (hfound : slot.attempt us = .matched found) :
    ∃ ys, slot.node.Derives (us.take found.consumed) ys ∧
      s.args.merge found.args = s.args.record ys := by
  obtain ⟨c, hc, rfl⟩ := Group.mem_frame_slots.1 hslot
  obtain ⟨-, ys, hd, hargs⟩ := hg c hc us found hfound
  refine ⟨ys, hd, ?_⟩
  rw [hargs, Args.merge_record (h.contains hidle hne hc)]

/-- A greedy slot takes one token at first. -/
theorem found_of_greedy (hslot : slot ∈ g.frame.slots) {leaf : Leaf}
    (hgreedy : slot.node.greedyLeaf? = some leaf) {us : List String} {found : Found}
    (hfound : slot.attempt us = .matched found) : ∃ t rest r, us = t :: rest ∧
      leaf.read t = .matched r ∧ found = { args := Args.single leaf.name r, consumed := 1 } := by
  obtain ⟨c, -, rfl⟩ := Group.mem_frame_slots.1 hslot
  obtain ⟨rfl, hgr⟩ := Node.eq_leaf_of_greedyLeaf? (n := c) hgreedy
  have hattempt : leaf.attempt us = .matched found := by
    rw [← Node.attempt]
    exact hfound
  obtain ⟨t, rest, r, hus, hr, rfl⟩ := Leaf.attempt_eq_matched hattempt
  refine ⟨t, rest, r, hus, hr, ?_⟩
  rw [Leaf.literal_of_isGreedy hgr, if_neg Bool.false_ne_true]

theorem Derived.accept (h : Derived g ts s) (hc : Loose g.frame ts s)
    (hg : ∀ c ∈ g.children, c.Sound) (hb : g.frame.Bounded) (hidle : s.absorbing = none)
    (htodo : s.todo = slot :: later) {found : Found}
    (hfound : slot.attempt (ts.drop s.pos) = .matched found) :
    Derived g ts (accept g.frame slot found s) := by
  have hne : s.todo ≠ [] := by simp [htodo]
  have hslot : slot ∈ g.frame.slots := hc.mem_slots (by simp [htodo])
  have hcov := h.idle hidle hne
  cases hgreedy : slot.node.greedyLeaf? with
  | none =>
    obtain ⟨ys, hd, hargs⟩ := h.found hidle hne hg hslot hfound
    have hlen := hb slot hslot _ _ hfound
    rw [List.length_drop] at hlen
    have hle := hc.pos_le
    rw [accept_of_none hgreedy, hargs]
    have hf := hc.forward (s.args.record ys) (s.pos + found.consumed) (Nat.le_add_right _ _)
      (by omega) s.absorbing
    have hdone := (hcov.forward found.consumed ys s.absorbing).present hd
    exact hdone.advance hf h.marked hidle htodo
  | some leaf =>
    obtain ⟨t, rest, r, hdrop, hr, rfl⟩ := found_of_greedy hslot hgreedy hfound
    rw [accept_greedy hgreedy, Args.merge_single, ← Args.record_singleton]
    refine {
      marked := h.marked
      idle := (by simp)
      held := fun a ha => ?_ }
    cases ha
    have hspan : Absorbing.span ts { leaf, start := s.pos } { s with pos := s.pos + 1 } = [t] := by
      simp [Absorbing.span, hdrop]
    refine ⟨r, ?_, ?_⟩
    · change leaf.read (Text.spaced
        (Absorbing.span ts { leaf, start := s.pos } { s with pos := s.pos + 1 })) = _
      rw [hspan, Text.spaced_singleton]
      exact hr
    · have hf := hcov.forward 1 [(leaf.name, r)] (some { leaf, start := s.pos })
      simpa [Absorbing.span] using hf

/-- The leaf that absorbed the last span is done with it. -/
theorem Derived.release (h : Derived g ts s) (hc : Coherent g.frame ts s) {a : Absorbing}
    (habs : s.absorbing = some a) : Derived g ts (advance g.frame { s with absorbing := none }) := by
  obtain ⟨slot, later, htodo, hgreedy, -, hstart⟩ := hc.held a habs
  obtain ⟨r, hread, hcov⟩ := h.held a habs
  obtain ⟨hnode, hgr⟩ := Node.eq_leaf_of_greedyLeaf? hgreedy
  have hne : a.span ts s ≠ [] := by
    have hle := hc.pos_le
    intro hnil
    have hlen := congrArg List.length hnil
    simp only [Absorbing.span, List.length_take, List.length_drop, List.length_nil] at hlen
    omega
  have hd : slot.node.Derives (a.span ts s) [(a.leaf.name, r)] := by
    rw [hnode]
    exact .span hgr hne hread
  have hdone : Covers g ts { s with absorbing := none } (slot :: s.done) [] [] := hcov.present hd
  exact hdone.advance hc.toLoose.release h.marked rfl htodo

/-- The span of the absorbing leaf grows by the current token. -/
theorem Absorbing.span_succ {a : Absorbing} (hstart : a.start ≤ s.pos) (args : Args) :
    a.span ts { s with args, pos := s.pos + 1 } = a.span ts s ++ (ts.drop s.pos).take 1 := by
  unfold span
  have hlen : s.pos + 1 - a.start = (s.pos - a.start) + 1 := by omega
  have hpos : a.start + (s.pos - a.start) = s.pos := by omega
  dsimp only
  rw [hlen, List.take_add, List.drop_drop, hpos]

theorem Derived.widen (h : Derived g ts s) (hc : Coherent g.frame ts s) {a : Absorbing}
    (habs : s.absorbing = some a) {r : Reading} (hread : a.leaf.read (widened ts a s) = .matched r) :
    Derived g ts { s with args := s.args.replaceLast a.leaf.name r, pos := s.pos + 1 } := by
  obtain ⟨slot, later, htodo, hgreedy, -, hstart⟩ := hc.held a habs
  obtain ⟨r₀, -, us, zs, hv, htake, hargs⟩ := h.held a habs
  refine {
    marked := h.marked
    idle := (by simp [habs])
    held := fun a' ha => ?_ }
  obtain rfl : a = a' := by simpa [habs] using ha
  refine ⟨r, hread, us, zs, hv, ?_, ?_⟩
  · rw [Absorbing.span_succ (Nat.le_of_lt hstart)]
    dsimp only
    rw [List.take_add, htake]
    simp
  · dsimp only
    rw [hargs, Args.record_append, Args.record_append, Args.record_singleton,
      Args.record_singleton, Args.replaceLast_push]

/-- Every move keeps a derivation behind the state. -/
theorem Derived.move (h : Derived g ts s) (hc : Coherent g.frame ts s)
    (hg : ∀ c ∈ g.children, c.Sound) (hb : g.frame.Bounded) {s' : State}
    (hm : Move g.frame ts s s') : Derived g ts s' := by
  cases hm with
  | take htodo hidle hfound => exact h.accept hc.toLoose hg hb hidle htodo hfound
  | promote htodo hidle hflex _ hpick =>
    obtain ⟨-, -, -, -, hfound⟩ := pick_eq_matched hpick
    have hne : s.todo ≠ [] := by simp [htodo]
    refine Derived.accept ?_ (hc.promote hidle htodo hflex hpick) hg hb hidle rfl hfound
    exact { marked := h.marked, idle := fun hi _ => h.idle hi hne, held := h.held }
  | skip htodo hidle _ _ hskip =>
    have hcov := h.idle hidle (by simp [htodo])
    have hdone := hcov.absent (Shape.skips_eq_true_iff.1 hskip)
    exact hdone.advance hc.toLoose h.marked hidle htodo
  | widen _ habs _ hread => exact h.widen hc habs hread
  | close _ habs _ _ => exact h.release hc habs
  | yield htodo habs hrival hfound _ =>
    have hd := h.release hc habs
    have hcd := hc.toLoose.release.advance rfl htodo
    unfold takeOver
    dsimp only
    split
    · exact hd
    · rename_i hne
      obtain hnil | ⟨rest, hrest⟩ :=
        todo_advance_of_rival (s := { s with absorbing := none }) htodo hrival
      · simp [hnil] at hne
      · refine hd.accept hcd.toLoose hg hb (absorbing_advance _ _) hrest ?_
        rw [pos_advance]
        exact hfound

theorem Derived.closing (h : Derived g ts s) (hc : Coherent g.frame ts s)
    (hg : ∀ c ∈ g.children, c.Sound) {s' : State} (hm : Closing g.frame s s') :
    Derived g ts s' := by
  cases hm with
  | release habs => exact h.release hc habs
  | @blank slot later found htodo hidle hfound =>
    have hne : s.todo ≠ [] := by simp [htodo]
    have hslot : slot ∈ g.frame.slots := hc.mem_slots (by simp [htodo])
    obtain ⟨ys, hd, hargs⟩ := h.found hidle hne hg hslot hfound
    have hf := hc.toLoose.forward (s.args.record ys) s.pos (Nat.le_refl _) hc.pos_le s.absorbing
    have hcov := (h.idle hidle hne).forward 0 ys s.absorbing
    rw [hargs]
    have hdone : Covers g ts { s with args := s.args.record ys } (slot :: s.done) [] [] :=
      hcov.present (by simpa using hd)
    exact hdone.advance hf h.marked hidle htodo
  | absent htodo hidle _ hskip =>
    have hcov := h.idle hidle (by simp [htodo])
    have hdone := hcov.absent (Shape.skips_eq_true_iff.1 hskip)
    exact hdone.advance hc.toLoose h.marked hidle htodo

end

end Scan

theorem Group.bounded_of_sound {g : Group} (hg : ∀ c ∈ g.children, c.Sound) : g.frame.Bounded := by
  intro slot hslot ts found hfound
  obtain ⟨c, hc, rfl⟩ := mem_frame_slots.1 hslot
  exact (hg c hc ts found hfound).1

/-- A group is sound if its children are. -/
theorem Group.sound_of_children {g : Group} (hg : ∀ c ∈ g.children, c.Sound) : g.toNode.Sound := by
  intro ts found h
  rw [g.attempt_toNode] at h
  rw [← g.seed_eq_ofNames]
  by_cases hnil : g.children = []
  · rw [matchPrefix_of_children_eq_nil hnil] at h
    cases h
    refine ⟨Nat.zero_le _, [], ?_, rfl⟩
    unfold toNode
    rw [hnil]
    exact .nothing
  · rw [matchPrefix_of_children_ne_nil hnil] at h
    have hb := bounded_of_sound hg
    obtain ⟨s, ⟨hc, hd⟩, hsettle⟩ := Scan.run_eq_matched
      (P := fun s => Scan.Coherent g.frame ts s ∧ Scan.Derived g ts s)
      (fun s s' hs hpos hm => ⟨hs.1.move hb hpos hm, hs.2.move hs.1 hg hb hm⟩)
      (fun s s' hs hm => ⟨hs.1.closing hm, hs.2.closing hs.1 hg hm⟩)
      ⟨Scan.start_coherent (frame_slots_ne_nil hnil), Scan.start_derived g ts⟩ h
    obtain ⟨hmin, rfl⟩ := Scan.settle_eq_matched hsettle
    obtain ⟨ys, hp, hargs⟩ := hd.marked
    have hmax : s.mark.passes ≤ g.shape.maxPasses := by
      rw [hc.mark_passes]
      exact hc.passes_le
    exact ⟨Nat.le_trans hc.mark_pos_le hc.pos_le, ys, .group hnil hmin hmax hp, hargs⟩

theorem Node.sound (n : Node) : n.Sound := by
  induction n using Node.induct with
  | leaf l => exact l.sound
  | group shape children ih => exact Group.sound_of_children (g := { shape, children }) ih

theorem Group.bounded (g : Group) : g.frame.Bounded :=
  bounded_of_sound fun c _ => c.sound

/-- What a group takes from the start of the tokens is in its grammar: it has a derivation, and
the arguments hold the names of the group's leaves, each with its readings in the yield. -/
theorem Group.derives_of_matchPrefix (g : Group) (ts : List String) (found : Found)
    (h : g.matchPrefix ts = .matched found) : found.consumed ≤ ts.length ∧
      ∃ ys, g.toNode.Derives (ts.take found.consumed) ys ∧ ∀ name, found.args.get? name =
        if name ∈ g.leafNames then some (Yield.under name ys) else none := by
  rw [← g.attempt_toNode] at h
  obtain ⟨hle, ys, hd, hargs⟩ := g.toNode.sound ts found h
  refine ⟨hle, ys, hd, fun name => ?_⟩
  have hin : found.args.contains name ↔ name ∈ g.leafNames := by
    rw [hargs, Args.contains_record, Args.contains_ofNames, decide_eq_true_eq, mem_leafNames]
    constructor
    · rintro (hn | ⟨y, hy, rfl⟩)
      · exact hn
      · exact hd.name_mem y hy
    · exact .inl
  have hreadings : found.args.readings name = Yield.under name ys := by
    rw [hargs, Args.readings_record, Args.readings_ofNames, List.nil_append]
  rw [Args.get?_eq, hreadings]
  by_cases hname : name ∈ g.leafNames
  · rw [if_pos hname, if_pos (hin.2 hname)]
  · rw [if_neg hname, if_neg (mt hin.1 hname)]

/-- Three alternatives and a word `or` too many, which is left over. -/
theorem derives_three_alternatives :
    ∃ ys, Node.Derives
        (.group {} [.leaf (.text "option"), .leaf (.word "or"), .leaf (.text "option"),
          .group { optional := true, repetition := some ⟨1, 2, by decide, by decide, by decide⟩ }
            [.leaf (.word "or"), .leaf (.text "option")]])
        ["a", "b", "or", "c", "or", "d"] ys ∧
      Yield.under "option" ys = [⟨.text "a b", .text⟩, ⟨.text "c", .text⟩, ⟨.text "d", .text⟩] := by
  let g : Group :=
    { children := [.leaf (.text "option"), .leaf (.word "or"), .leaf (.text "option"),
        .group { optional := true, repetition := some ⟨1, 2, by decide, by decide, by decide⟩ }
          [.leaf (.word "or"), .leaf (.text "option")]] }
  let found : Found :=
    { args := (Args.ofNames ["option"]).record
        [("option", ⟨.text "a b", .text⟩), ("option", ⟨.text "c", .text⟩),
          ("option", ⟨.text "d", .text⟩)]
      consumed := 6 }
  have h : g.matchPrefix ["a", "b", "or", "c", "or", "d", "or"] = .matched found := by
    decide +kernel
  obtain ⟨-, ys, hd, hget⟩ := Group.derives_of_matchPrefix g _ _ h
  refine ⟨ys, hd, ?_⟩
  have hnames : "option" ∈ g.leafNames := by decide
  have hone := hget "option"
  rw [if_pos hnames] at hone
  exact (Option.some.inj hone).symm

end Chatline
