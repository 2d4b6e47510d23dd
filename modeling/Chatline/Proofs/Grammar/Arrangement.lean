import Chatline.Proofs.Scan.OnePass
import Mathlib.Data.List.Basic
import Mathlib.Data.List.Nodup

/-! Leaves in any order. Where no token fits two leaves, a flexible group of leaves takes exactly
the tokens that can be shared out among them, and reads the same from them in any order. -/
namespace Chatline

theorem mem_middle {α : Type} {front back : List α} {x y : α} :
    y ∈ front ++ x :: back ↔ y = x ∨ y ∈ front ++ back := by
  rw [List.perm_middle.mem_iff, List.mem_cons]

theorem Yield.under_of_perm {ys zs : Yield} (h : ys.Perm zs) (hnames : (ys.map Prod.fst).Nodup)
    (name : String) : under name ys = under name zs := by
  have hperm : (under name ys).Perm (under name zs) := (h.filter _).map _
  have hone : (under name ys).length ≤ 1 := by
    have hcount := List.nodup_iff_count_le_one.1 hnames name
    rw [List.count_eq_countP, List.countP_map, List.countP_eq_length_filter] at hcount
    unfold under
    rw [List.length_map]
    exact hcount
  cases hys : under name ys with
  | nil =>
    rw [hys] at hperm
    exact (List.nil_perm.1 hperm).symm
  | cons r rs =>
    have hrs : rs = [] := by
      rw [hys, List.length_cons] at hone
      exact List.length_eq_zero_iff.1 (by omega)
    rw [hys, hrs] at hperm
    rw [hrs]
    exact (List.perm_singleton.1 hperm.symm).symm

theorem Args.record_of_perm {ys zs : Yield} (a : Args) (h : ys.Perm zs)
    (hnames : (ys.map Prod.fst).Nodup) : a.record ys = a.record zs := by
  apply ext_readings
  · intro k
    rw [Bool.eq_iff_iff, contains_record, contains_record]
    simp only [h.mem_iff]
  · intro k
    rw [readings_record, readings_record, Yield.under_of_perm h hnames]

namespace Leaf

/-- No two of the leaves yield values under one name. -/
def NamedApart (ls : List Leaf) : Prop :=
  ls.Pairwise fun l l' => l.literal = false → l'.literal = false → l.name ≠ l'.name

/-- What leaves record of tokens, each by those leaves that take it. -/
def yields (ls : List Leaf) (ts : List String) : Yield :=
  ts.flatMap fun t => ls.flatMap fun l => l.yield t

theorem name_of_mem_yields {ls : List Leaf} {ts : List String} {y : String × Reading}
    (h : y ∈ yields ls ts) : ∃ l ∈ ls, l.literal = false ∧ y.1 = l.name := by
  obtain ⟨t, -, hy⟩ := List.mem_flatMap.1 h
  obtain ⟨l, hl, hy⟩ := List.mem_flatMap.1 hy
  exact ⟨l, hl, name_of_mem_yield hy⟩

end Leaf

/-- The tokens can be shared out among the leaves: each goes to a leaf, no leaf has two, and the
group can do without the leaves that have none. -/
structure Shape.SharesOut (shape : Shape) (ls : List Leaf) (ts : List String) : Prop where
  taken : ∀ t ∈ ts, ∃ l ∈ ls, l.accepts t = true
  single : ∀ l ∈ ls, ts.countP l.accepts ≤ 1
  spare : ∀ l ∈ ls, (∀ t ∈ ts, l.accepts t = false) → shape.sparse = true ∨ l.optional = true

section
variable {shape : Shape} {ls front back : List Leaf} {l : Leaf} {t : String} {us : List String}

theorem Shape.SharesOut.of_perm {ts : List String} (h : shape.SharesOut ls ts)
    (hperm : us.Perm ts) : shape.SharesOut ls us where
  taken u hu := h.taken u (hperm.mem_iff.1 hu)
  single l hl := by
    rw [hperm.countP_eq]
    exact h.single l hl
  spare l hl hnone := h.spare l hl fun t ht => hnone t (hperm.mem_iff.2 ht)

theorem Shape.sharesOut_nil_iff :
    shape.SharesOut ls [] ↔ ∀ l ∈ ls, shape.skips (.leaf l) = true := by
  simp only [skips_leaf_iff]
  constructor
  · intro h l hl
    exact h.spare l hl (by simp)
  · intro h
    exact ⟨by simp, by simp, fun l hl _ => h l hl⟩

/-- A token that one leaf takes is taken by no other, if it fits one leaf at most. -/
theorem Leaf.others_of_countP_le (hl : l.accepts t = true)
    (hone : (front ++ l :: back).countP (fun l => l.accepts t) ≤ 1) :
    ∀ o ∈ front ++ back, o.accepts t = false := by
  have hnone : (front ++ back).countP (fun l => l.accepts t) = 0 := by
    have hcons : (l :: back).countP (fun l => l.accepts t) =
        back.countP (fun l => l.accepts t) + 1 := List.countP_cons_of_pos hl
    rw [List.countP_append, hcons] at hone
    rw [List.countP_append]
    omega
  intro o ho
  simpa using List.countP_eq_zero.1 hnone o ho

/-- A leaf that has taken its only token takes none of the others. -/
theorem Leaf.rest_of_countP_le (hl : l.accepts t = true)
    (hone : (t :: us).countP l.accepts ≤ 1) : ∀ u ∈ us, l.accepts u = false := by
  have hnone : us.countP l.accepts = 0 := by
    rw [List.countP_cons_of_pos hl] at hone
    omega
  intro u hu
  simpa using List.countP_eq_zero.1 hnone u hu

theorem Leaf.countP_cons_of_not_accepts (h : l.accepts t = false) :
    (t :: us).countP l.accepts = us.countP l.accepts :=
  List.countP_cons_of_neg (by simp [h])

namespace Shape.SharesOut

/-- The leaf that takes the first token has no part in sharing out the others. -/
theorem of_cons (hl : l.accepts t = true) (hothers : ∀ o ∈ front ++ back, o.accepts t = false)
    (h : shape.SharesOut (front ++ l :: back) (t :: us)) : shape.SharesOut (front ++ back) us where
  taken u hu := by
    have hnone := Leaf.rest_of_countP_le hl (h.single l (by simp))
    obtain ⟨o, ho, hacc⟩ := h.taken u (List.mem_cons_of_mem t hu)
    rcases mem_middle.1 ho with rfl | ho
    · simp [hnone u hu] at hacc
    · exact ⟨o, ho, hacc⟩
  single o ho := by
    rw [← Leaf.countP_cons_of_not_accepts (hothers o ho)]
    exact h.single o (mem_middle.2 (.inr ho))
  spare o ho hspare :=
    h.spare o (mem_middle.2 (.inr ho)) (List.forall_mem_cons.2 ⟨hothers o ho, hspare⟩)

theorem cons (hl : l.accepts t = true) (hothers : ∀ o ∈ front ++ back, o.accepts t = false)
    (hnone : ∀ u ∈ us, l.accepts u = false) (h : shape.SharesOut (front ++ back) us) :
    shape.SharesOut (front ++ l :: back) (t :: us) where
  taken := by
    refine List.forall_mem_cons.2 ⟨⟨l, by simp, hl⟩, fun u hu => ?_⟩
    obtain ⟨o, ho, hacc⟩ := h.taken u hu
    exact ⟨o, mem_middle.2 (.inr ho), hacc⟩
  single o ho := by
    rcases mem_middle.1 ho with rfl | ho
    · have hzero : us.countP o.accepts = 0 := List.countP_eq_zero.2 (by simpa using hnone)
      have hcons : (t :: us).countP o.accepts = us.countP o.accepts + 1 :=
        List.countP_cons_of_pos hl
      omega
    · rw [Leaf.countP_cons_of_not_accepts (hothers o ho)]
      exact h.single o ho
  spare o ho hspare := by
    rcases mem_middle.1 ho with rfl | ho
    · simp [hl] at hspare
    · exact h.spare o ho fun u hu => hspare u (List.mem_cons_of_mem t hu)

end Shape.SharesOut

theorem Shape.sharesOut_cons_iff (hl : l.accepts t = true)
    (hone : ∀ u ∈ t :: us, (front ++ l :: back).countP (fun l => l.accepts u) ≤ 1) :
    shape.SharesOut (front ++ l :: back) (t :: us) ↔ shape.SharesOut (front ++ back) us := by
  obtain ⟨hfirst, hlater⟩ := List.forall_mem_cons.1 hone
  have hothers := Leaf.others_of_countP_le hl hfirst
  constructor
  · exact SharesOut.of_cons hl hothers
  · intro h
    have hnone : ∀ u ∈ us, l.accepts u = false := by
      intro u hu
      cases hacc : l.accepts u with
      | false => rfl
      | true =>
        obtain ⟨o, ho, hother⟩ := h.taken u hu
        have hno := Leaf.others_of_countP_le hacc (hlater u hu) o ho
        simp [hno] at hother
    exact h.cons hl hothers hnone

/-- The first reading is that of the leaf that takes the first token. -/
theorem Shape.SharesOut.yields_cons (hl : l.accepts t = true)
    (hone : ∀ u ∈ t :: us, (front ++ l :: back).countP (fun l => l.accepts u) ≤ 1)
    (h : shape.SharesOut (front ++ l :: back) (t :: us)) :
    Leaf.yields (front ++ l :: back) (t :: us) = l.yield t ++ Leaf.yields (front ++ back) us := by
  obtain ⟨hfirst, -⟩ := List.forall_mem_cons.1 hone
  have hothers := Leaf.others_of_countP_le hl hfirst
  have hnone := Leaf.rest_of_countP_le hl (h.single l (by simp))
  have hnil : ∀ ls' ⊆ front ++ back, (ls'.flatMap fun o => o.yield t) = [] := by
    intro ls' hls'
    rw [List.flatMap_eq_nil_iff]
    intro o ho
    exact Leaf.yield_of_not_accepts (hothers o (hls' ho))
  unfold Leaf.yields
  rw [List.flatMap_cons]
  congr 1
  · rw [List.flatMap_append, List.flatMap_cons, hnil front (by simp), hnil back (by simp)]
    simp
  · apply List.flatMap_congr
    intro u hu
    have hl' : l.yield u = [] := Leaf.yield_of_not_accepts (hnone u hu)
    rw [List.flatMap_append, List.flatMap_cons, hl', List.flatMap_append]
    rfl

theorem Shape.SharesOut.nodup_names (h : shape.SharesOut ls us)
    (hone : ∀ u ∈ us, ls.countP (fun l => l.accepts u) ≤ 1) (hnames : Leaf.NamedApart ls) :
    ((Leaf.yields ls us).map Prod.fst).Nodup := by
  induction us generalizing ls with
  | nil => exact List.nodup_nil
  | cons t us ih =>
    obtain ⟨l, hmem, hl⟩ := h.taken t List.mem_cons_self
    obtain ⟨front, back, rfl⟩ := List.append_of_mem hmem
    have hrest := (Shape.sharesOut_cons_iff hl hone).1 h
    have hmiddle := (List.pairwise_middle (fun {l l'} hne hl' hl => (hne hl hl').symm)).1 hnames
    obtain ⟨hapart, hothers⟩ := List.pairwise_cons.1 hmiddle
    have hones : ∀ u ∈ us, (front ++ back).countP (fun l => l.accepts u) ≤ 1 := by
      intro u hu
      have hsub := sublist_middle front l back
      exact Nat.le_trans hsub.countP_le (hone u (List.mem_cons_of_mem t hu))
    rw [h.yields_cons hl hone, List.map_append, List.nodup_append]
    refine ⟨?_, ih hrest hones hothers, ?_⟩
    · unfold Leaf.yield
      split
      · cases l.literal <;> simp
      · exact List.nodup_nil
    · intro name hname other hother heq
      obtain ⟨y, hy, rfl⟩ := List.mem_map.1 hname
      obtain ⟨z, hz, rfl⟩ := List.mem_map.1 hother
      obtain ⟨hlit, hyname⟩ := Leaf.name_of_mem_yield hy
      obtain ⟨o, ho, holit, hzname⟩ := Leaf.name_of_mem_yields hz
      exact hapart o ho hlit holit (hyname.symm.trans (heq.trans hzname))

end

namespace Scan.FirstPass

variable {f : Frame} {ts us : List String} {ls : List Leaf} {args : Args} {pos : Nat} {s : State}

theorem leavesOver_of_untaken (honce : f.shape.repetition = none) {t : String}
    (h : FirstPass f (Leaf.slots ls) args pos s) (hts : ts.drop pos = t :: us)
    (hno : ∀ l ∈ ls, l.read t = .noMatch) : LeavesOver ts (outcome f ts s) := by
  induction ls generalizing s with
  | nil =>
    have hnil : outcome f ts s = .matched { args, consumed := pos } := h.outcome_nil
    rw [hnil]
    exact lt_length_of_drop hts (List.cons_ne_nil t us)
  | cons l ls ih =>
    obtain ⟨hl, hls⟩ := List.forall_mem_cons.1 hno
    obtain ⟨hleft, hstops⟩ := h.outcome_of_noMatch_leaf honce hts hl fun _ => hls
    cases hskip : f.shape.skips (.leaf l) with
    | true =>
      obtain ⟨s', hs', hout⟩ := hleft hskip
      rw [hout]
      exact ih hs' hls
    | false =>
      rw [hstops hskip]
      trivial

/-- Leaves in any order take the tokens that can be shared out among them, and leave some over if
the tokens cannot. -/
theorem outcome_shared (honce : f.shape.repetition = none) (hflex : f.shape.flexible = true)
    (hsingle : ∀ l ∈ ls, l.isGreedy = false)
    (hvalid : ∀ l ∈ ls, ∀ t ∈ us, ∀ e, l.read t ≠ .invalid e)
    (hone : ∀ t ∈ us, ls.countP (fun l => l.accepts t) ≤ 1)
    (h : FirstPass f (Leaf.slots ls) args pos s) (hts : ts.drop pos = us)
    (hpos : pos + us.length = ts.length) :
    (f.shape.SharesOut ls us → outcome f ts s =
      .matched { args := args.record (Leaf.yields ls us), consumed := ts.length }) ∧
    (¬ f.shape.SharesOut ls us → LeavesOver ts (outcome f ts s)) := by
  induction us generalizing ls args pos s with
  | nil =>
    have hends := h.outcome_ends honce (List.drop_eq_nil_iff.1 hts)
    have hskips : f.shape.SharesOut ls [] ↔ ∀ l ∈ ls, f.shape.skips (.leaf l) = true :=
      Shape.sharesOut_nil_iff
    have hall : pos = ts.length := hpos
    rw [hends, hall]
    constructor
    · intro hshare
      rw [if_pos (hskips.1 hshare)]
      rfl
    · intro hnot
      rw [if_neg fun hskip => hnot (hskips.2 hskip)]
      trivial
  | cons t us ih =>
    by_cases hex : ∃ l ∈ ls, l.accepts t = true
    · obtain ⟨l, hmem, hl⟩ := hex
      obtain ⟨front, back, rfl⟩ := List.append_of_mem hmem
      have hsub := sublist_middle front l back
      have hothers := Leaf.others_of_countP_le hl (hone t List.mem_cons_self)
      have hfront : ∀ o ∈ front, o.read t = .noMatch := fun o ho =>
        Leaf.read_eq_noMatch (hothers o (List.mem_append_left back ho))
          (hvalid o (List.mem_append_left _ ho) t List.mem_cons_self)
      obtain ⟨s', hs', hout⟩ :=
        h.outcome_takes_leaf honce hts (.inr hflex) hfront hl (hsingle l hmem)
      have hdrop : ts.drop (pos + 1) = us := by
        rw [← List.drop_drop, hts]
        rfl
      have hlength : pos + 1 + us.length = ts.length := by
        rw [List.length_cons] at hpos
        omega
      obtain ⟨hshared, hnot⟩ := ih (fun o ho => hsingle o (hsub.subset ho))
        (fun o ho u hu => hvalid o (hsub.subset ho) u (List.mem_cons_of_mem t hu))
        (fun u hu => Nat.le_trans hsub.countP_le (hone u (List.mem_cons_of_mem t hu)))
        hs' hdrop hlength
      have hiff : f.shape.SharesOut (front ++ l :: back) (t :: us) ↔
          f.shape.SharesOut (front ++ back) us := Shape.sharesOut_cons_iff hl hone
      rw [hout]
      constructor
      · intro hshare
        rw [hshared (hiff.1 hshare), hshare.yields_cons hl hone, Args.record_append]
      · intro hno
        exact hnot fun hshare => hno (hiff.2 hshare)
    · have hno : ∀ l ∈ ls, l.read t = .noMatch := by
        intro l hl
        refine Leaf.read_eq_noMatch ?_ (hvalid l hl t List.mem_cons_self)
        cases hacc : l.accepts t with
        | false => rfl
        | true => exact absurd ⟨l, hl, hacc⟩ hex
      constructor
      · intro hshare
        exact absurd (hshare.taken t List.mem_cons_self) hex
      · intro _
        exact h.leavesOver_of_untaken honce hts hno

end Scan.FirstPass

namespace Group

variable {g : Group} {leaves : List Leaf} {ts : List String}

/-- Leaves of single tokens that may come in any order match exactly the tokens that can be shared
out among them, if no token fits two leaves and none is refused. If their values have names of
their own, they read the same from the tokens in any order. -/
theorem flexible_leaves_share_out (hchildren : g.children = leaves.map .leaf)
    (honce : g.shape.repetition = none) (hflex : g.shape.flexible = true)
    (hsingle : ∀ l ∈ leaves, l.isGreedy = false)
    (hvalid : ∀ l ∈ leaves, ∀ t ∈ ts, ∀ e, l.read t ≠ .invalid e)
    (hone : ∀ t ∈ ts, leaves.countP (fun l => l.accepts t) ≤ 1) :
    ((∃ args, g.matchTokens ts = .matched args) ↔ g.shape.SharesOut leaves ts) ∧
    (¬ g.shape.SharesOut leaves ts → g.matchTokens ts = .noMatch) ∧
    (Leaf.NamedApart leaves → ∀ us, us.Perm ts → ∀ args,
      g.matchTokens ts = .matched args → g.matchTokens us = .matched args) := by
  have hshares : ∀ us : List String, us.Perm ts →
      (g.shape.SharesOut leaves us → g.matchTokens us =
        .matched (g.applyDefaults (g.seed.record (Leaf.yields leaves us)))) ∧
      (¬ g.shape.SharesOut leaves us → g.matchTokens us = .noMatch) := by
    intro us hperm
    have hdrop : us.drop 0 = us := rfl
    obtain ⟨hshared, hnot⟩ := (start_of_leaves hchildren).outcome_shared honce hflex hsingle
      (fun l hl u hu => hvalid l hl u (hperm.mem_iff.1 hu))
      (fun u hu => hone u (hperm.mem_iff.1 hu)) hdrop (Nat.zero_add us.length)
    rw [← g.matchPrefix_eq_outcome] at hshared hnot
    constructor
    · intro hshare
      exact matchTokens_of_all (hshared hshare) rfl
    · intro hno
      exact matchTokens_of_leavesOver (hnot hno)
  obtain ⟨hshared, hnot⟩ := hshares ts (.refl ts)
  refine ⟨⟨?_, fun hshare => ⟨_, hshared hshare⟩⟩, hnot, ?_⟩
  · rintro ⟨args, hargs⟩
    by_contra hno
    rw [hnot hno] at hargs
    cases hargs
  · intro hnames us hperm args hargs
    have hshare : g.shape.SharesOut leaves ts := by
      by_contra hno
      rw [hnot hno] at hargs
      cases hargs
    obtain ⟨hus, -⟩ := hshares us hperm
    have hrecord : g.seed.record (Leaf.yields leaves ts) = g.seed.record (Leaf.yields leaves us) :=
      g.seed.record_of_perm (hperm.symm.flatMap_right _) (hshare.nodup_names hone hnames)
    rw [hus (hshare.of_perm hperm), ← hrecord, ← hshared hshare]
    exact hargs

/-- A colour, a size and a word that may be missing, in any order. -/
def paint : Group :=
  { shape := { flexible := true }
    children :=
      [.leaf (.ofMatcher "color" (.choice ["red", "blue"])), .leaf (.integer "size"),
        .leaf { Leaf.word "please" with optional := true }] }

theorem paint_reads_alike_in_any_order :
    paint.matchTokens ["3", "red"] = .matched ((paint.seed.push "color" ⟨.text "red", .choice⟩).push
      "size" ⟨.int 3, .integer⟩) ∧
    paint.matchTokens ["red", "3", "blue"] = .noMatch := by
  let leaves : List Leaf :=
    [.ofMatcher "color" (.choice ["red", "blue"]), .integer "size",
      { Leaf.word "please" with optional := true }]
  have hchildren : paint.children = leaves.map .leaf := rfl
  have hvalid : ∀ ts : List String, (∀ l ∈ leaves, ∀ t ∈ ts, (l.read t).invalid? = none) →
      ∀ l ∈ leaves, ∀ t ∈ ts, ∀ e, l.read t ≠ .invalid e :=
    fun ts h l hl t ht => Verdict.ne_invalid (h l hl t ht)
  obtain ⟨-, -, hperm⟩ := flexible_leaves_share_out hchildren rfl rfl (by decide)
    (hvalid ["red", "3"] (by decide +kernel)) (by decide +kernel)
  obtain ⟨-, hnot, -⟩ := flexible_leaves_share_out hchildren rfl rfl (by decide)
    (hvalid ["red", "3", "blue"] (by decide +kernel)) (by decide +kernel)
  constructor
  · apply hperm
    · unfold Leaf.NamedApart
      decide
    · decide
    · decide +kernel
  · apply hnot
    intro hshare
    have htwo := hshare.single _ List.mem_cons_self
    revert htwo
    decide +kernel

end Group

end Chatline
