import Chatline.Proofs.Scan.OnePass
import Mathlib.Data.List.Forall2
import Mathlib.Data.List.NodupEquivFin

/-! Leaves in a fixed order, each of which may be left out. A token goes to the first leaf that
takes it, and this refuses no tokens that another choice of leaves would take. -/
namespace Chatline

section
variable {α β : Type} {R : α → β → Prop} {a : α} {b : β} {as : List α} {bs : List β}

/-- The first place that can be given to an element may be given to it. -/
theorem sublistForall₂_cons_cons_iff (h : R a b) :
    List.SublistForall₂ R (a :: as) (b :: bs) ↔ List.SublistForall₂ R as bs := by
  constructor
  · intro hs
    cases hs with
    | cons _ hrest => exact hrest
    | cons_right hlater =>
      -- the element has a later place, which is free now
      obtain ⟨cs, hcs, hsub⟩ := List.sublistForall₂_iff.1 hlater
      obtain ⟨c, cs', -, hrest, rfl⟩ := List.forall₂_cons_left_iff.1 hcs
      exact List.sublistForall₂_iff.2 ⟨cs', hrest, (List.sublist_cons_self c cs').trans hsub⟩
  · intro hs
    exact .cons h hs

theorem sublistForall₂_cons_cons_iff_of_not (h : ¬ R a b) :
    List.SublistForall₂ R (a :: as) (b :: bs) ↔ List.SublistForall₂ R (a :: as) bs := by
  constructor
  · intro hs
    cases hs with
    | cons hab _ => exact absurd hab h
    | cons_right hlater => exact hlater
  · intro hs
    exact .cons_right hs

theorem sublistForall₂_iff_strictMono : List.SublistForall₂ R as bs ↔
    ∃ place : Fin as.length → Fin bs.length, StrictMono place ∧ ∀ i, R as[i] bs[place i] := by
  rw [List.sublistForall₂_iff]
  constructor
  · rintro ⟨cs, hcs, hsub⟩
    obtain ⟨hlength, hget⟩ := List.forall₂_iff_get.1 hcs
    obtain ⟨place, hplace⟩ := List.sublist_iff_exists_fin_orderEmbedding_get_eq.1 hsub
    refine ⟨fun i => place (i.cast hlength), fun i j hij => ?_, fun i => ?_⟩
    · apply place.strictMono
      exact hij
    · have hc := hget i i.isLt (hlength ▸ i.isLt)
      have hb := hplace (i.cast hlength)
      change R (as.get i) (bs.get (place (i.cast hlength)))
      rw [← hb]
      exact hc
  · rintro ⟨place, hmono, hrel⟩
    refine ⟨List.ofFn fun i => bs[place i], ?_, ?_⟩
    · rw [List.forall₂_iff_get]
      refine ⟨by simp, fun i hi _ => ?_⟩
      have := hrel ⟨i, hi⟩
      simpa using this
    · rw [List.sublist_iff_exists_fin_orderEmbedding_get_eq]
      let e : Fin as.length ↪o Fin bs.length := OrderEmbedding.ofStrictMono place hmono
      let c : Fin (List.ofFn fun i => bs[place i]).length ↪o Fin as.length :=
        (Fin.castOrderIso (by simp)).toOrderEmbedding
      refine ⟨c.trans e, fun i => ?_⟩
      exact List.getElem_ofFn _

end

namespace Scan.FirstPass

variable {f : Frame} {ts : List String} {ls : List Leaf} {args : Args} {pos : Nat} {s : State}

/-- Leaves that may all be left out always match, and take all tokens if any choice of leaves
further and further on does. -/
theorem outcome_gaps (honce : f.shape.repetition = none) (hfixed : f.shape.flexible = false)
    (hskip : ∀ l ∈ ls, f.shape.skips (.leaf l) = true) (hsingle : ∀ l ∈ ls, l.isGreedy = false)
    (hvalid : ∀ l ∈ ls, ∀ t ∈ ts, ∀ e, l.read t ≠ .invalid e)
    (h : FirstPass f (Leaf.slots ls) args pos s) (hpos : pos ≤ ts.length) :
    ∃ found, outcome f ts s = .matched found ∧ found.consumed ≤ ts.length ∧
      (found.consumed = ts.length ↔
        List.SublistForall₂ (fun t l => l.accepts t = true) (ts.drop pos) ls) := by
  induction ls generalizing args pos s with
  | nil =>
    refine ⟨_, h.outcome_nil, hpos, ?_⟩
    constructor
    · intro hall
      rw [List.drop_eq_nil_iff.2 (Nat.le_of_eq hall.symm)]
      exact .nil
    · intro hsub
      obtain ⟨cs, hcs, hnil⟩ := List.sublistForall₂_iff.1 hsub
      rw [List.sublist_nil.1 hnil, List.forall₂_nil_right_iff] at hcs
      exact Nat.le_antisymm hpos (List.drop_eq_nil_iff.1 hcs)
  | cons l ls ih =>
    obtain ⟨hl, hls⟩ := List.forall_mem_cons.1 hskip
    obtain ⟨hone, hones⟩ := List.forall_mem_cons.1 hsingle
    obtain ⟨hread, hreads⟩ := List.forall_mem_cons.1 hvalid
    rcases Nat.eq_or_lt_of_le hpos with hend | hlt
    · have hnone : ts.drop pos = [] := List.drop_eq_nil_iff.2 (Nat.le_of_eq hend.symm)
      have hmatched : outcome f ts s = .matched { args, consumed := pos } := by
        rw [h.outcome_ends honce (Nat.le_of_eq hend.symm), if_pos hskip]
      refine ⟨_, hmatched, hpos, iff_of_true hend ?_⟩
      rw [hnone]
      exact .nil
    · have hdrop : ts.drop pos = ts[pos] :: ts.drop (pos + 1) := List.drop_eq_getElem_cons hlt
      cases hacc : l.accepts ts[pos] with
      | true =>
        have htakes : ∃ s',
            FirstPass f (Leaf.slots ls) (args.record (l.yield ts[pos])) (pos + 1) s' ∧
            outcome f ts s = outcome f ts s' :=
          outcome_takes_leaf honce h hdrop (.inl rfl) (by simp) hacc hone
        obtain ⟨s', hs', hout⟩ := htakes
        obtain ⟨found, hfound, hle, hiff⟩ := ih hls hones hreads hs' hlt
        refine ⟨found, hout.trans hfound, hle, ?_⟩
        have hrest : List.SublistForall₂ (fun t l => l.accepts t = true) (ts.drop pos) (l :: ls) ↔
            List.SublistForall₂ (fun t l => l.accepts t = true) (ts.drop (pos + 1)) ls := by
          rw [hdrop]
          exact sublistForall₂_cons_cons_iff hacc
        rw [hiff, hrest]
      | false =>
        have hno : l.read ts[pos] = .noMatch :=
          Leaf.read_eq_noMatch hacc (hread _ (List.getElem_mem hlt))
        obtain ⟨hleft, -⟩ := h.outcome_of_noMatch_leaf honce hdrop hno (by simp [hfixed])
        obtain ⟨s', hs', hout⟩ := hleft hl
        obtain ⟨found, hfound, hle, hiff⟩ := ih hls hones hreads hs' hpos
        refine ⟨found, hout.trans hfound, hle, ?_⟩
        have hrest : List.SublistForall₂ (fun t l => l.accepts t = true) (ts.drop pos) (l :: ls) ↔
            List.SublistForall₂ (fun t l => l.accepts t = true) (ts.drop pos) ls := by
          rw [hdrop]
          exact sublistForall₂_cons_cons_iff_of_not (by simp [hacc])
        rw [hiff, hrest]

end Scan.FirstPass

namespace Group

variable {g : Group} {leaves : List Leaf} {ts : List String}

/-- Leaves of single tokens in a fixed order, each of which may be left out, match exactly the
tokens that can be given to leaves further and further on, each to one that takes it. -/
theorem gaps_lose_no_match (hchildren : g.children = leaves.map .leaf)
    (honce : g.shape.repetition = none) (hfixed : g.shape.flexible = false)
    (hsingle : ∀ l ∈ leaves, l.isGreedy = false)
    (hskip : g.shape.sparse = true ∨ ∀ l ∈ leaves, l.optional = true)
    (hvalid : ∀ l ∈ leaves, ∀ t ∈ ts, ∀ e, l.read t ≠ .invalid e) :
    ((∃ args, g.matchTokens ts = .matched args) ↔
      ∃ place : Fin ts.length → Fin leaves.length,
        StrictMono place ∧ ∀ i, leaves[place i].accepts ts[i] = true) ∧
    ((¬ ∃ place : Fin ts.length → Fin leaves.length,
        StrictMono place ∧ ∀ i, leaves[place i].accepts ts[i] = true) →
      g.matchTokens ts = .noMatch) := by
  have hskips : ∀ l ∈ leaves, g.frame.shape.skips (.leaf l) = true := by
    intro l hl
    rw [frame_shape, Shape.skips_leaf_iff]
    exact hskip.imp_right fun hoptional => hoptional l hl
  obtain ⟨found, hfound, hle, hiff⟩ :=
    (start_of_leaves hchildren).outcome_gaps honce hfixed hskips hsingle hvalid (Nat.zero_le _)
  rw [← g.matchPrefix_eq_outcome] at hfound
  rw [List.drop_zero, sublistForall₂_iff_strictMono] at hiff
  rw [← hiff]
  have hshort : found.consumed ≠ ts.length → g.matchTokens ts = .noMatch := by
    intro hne
    apply matchTokens_of_leavesOver
    rw [hfound]
    exact Nat.lt_of_le_of_ne hle hne
  refine ⟨⟨?_, ?_⟩, hshort⟩
  · rintro ⟨args, hargs⟩
    by_contra hne
    rw [hshort hne] at hargs
    cases hargs
  · intro hall
    exact ⟨_, matchTokens_of_all hfound hall⟩

/-- A span of numbers, either end of which may be left open. -/
def openRange : Group :=
  { shape := { sparse := true }
    children :=
      [ .leaf (.word "from"), .leaf (.integer "first"),
        .leaf (.word "to"), .leaf (.integer "last") ] }

theorem open_range_takes_its_ends_in_order :
    (∃ args, openRange.matchTokens ["to", "9"] = .matched args) ∧
    openRange.matchTokens ["to", "9", "from"] = .noMatch := by
  let leaves : List Leaf := [.word "from", .integer "first", .word "to", .integer "last"]
  have hchildren : openRange.children = leaves.map .leaf := rfl
  have hvalid : ∀ ts : List String, (∀ l ∈ leaves, ∀ t ∈ ts, (l.read t).invalid? = none) →
      ∀ l ∈ leaves, ∀ t ∈ ts, ∀ e, l.read t ≠ .invalid e :=
    fun ts h l hl t ht => Verdict.ne_invalid (h l hl t ht)
  have hfrom : ∀ i : Fin leaves.length, leaves[i].accepts "from" = true → i.val = 0 := by
    decide +kernel
  obtain ⟨hin, -⟩ := gaps_lose_no_match hchildren rfl rfl (by decide) (.inl rfl)
    (hvalid ["to", "9"] (by decide +kernel))
  obtain ⟨-, hout⟩ := gaps_lose_no_match hchildren rfl rfl (by decide) (.inl rfl)
    (hvalid ["to", "9", "from"] (by decide +kernel))
  constructor
  · let place : Fin 2 → Fin 4 := fun i => i.natAdd 2
    have hmono : StrictMono place := Fin.strictMono_natAdd 2
    exact hin.2 ⟨place, hmono, by decide +kernel⟩
  · apply hout
    rintro ⟨place, hmono, hplace⟩
    have hlast : (place 2).val = 0 := hfrom _ (hplace 2)
    have hlt : (place 1).val < (place 2).val := hmono (by decide)
    omega

end Group

end Chatline
