import Chatline.Proofs.Grammar.LooserBounds
import Chatline.Proofs.Grammar.Refusal

/-! Full matches and fallback values. A match of all tokens is a match of their start that leaves
none over, completed by fallback values: under a name without readings, that of the first leaf of
the name that has one. -/
namespace Chatline

/-- What a leaf records under a name for want of readings. -/
def Leaf.fallbackFor? (name : String) (l : Leaf) : Option Reading :=
  if l.name = name then l.fallback.map fun v => ⟨v, l.fallbackKind⟩ else none

namespace Args

variable {a : Args} {l : Leaf} {ls : List Leaf} {name : String}

theorem contains_of_readings_ne_nil (h : a.readings name ≠ []) : a.contains name = true := by
  by_contra hname
  have hnone : a.get? name = none := by
    rw [get?_eq, if_neg hname]
  exact h (by rw [readings, hnone]; rfl)

theorem count_eq_zero_iff : a.count name = 0 ↔ a.readings name = [] := List.length_eq_zero_iff

theorem fill_of_readings_ne_nil (h : l.fallback ≠ none → a.readings l.name ≠ []) : a.fill l = a := by
  unfold fill
  cases hv : l.fallback with
  | none => rfl
  | some v => exact if_neg (mt count_eq_zero_iff.1 (h (by simp [hv])))

theorem fill_of_readings_eq_nil {v : Value} (hv : l.fallback = some v)
    (h : a.readings l.name = []) : a.fill l = a.push l.name ⟨v, l.fallbackKind⟩ := by
  unfold fill
  rw [hv]
  exact if_pos (count_eq_zero_iff.2 h)

/-- One leaf fills in its fallback value under its own name, if nothing stands there. -/
theorem readings_fill : (a.fill l).readings name =
    if a.readings name = [] then (l.fallbackFor? name).toList else a.readings name := by
  unfold Leaf.fallbackFor?
  by_cases hfill : l.fallback ≠ none ∧ a.readings l.name = []
  · obtain ⟨hv, hnil⟩ := hfill
    obtain ⟨v, hv⟩ := Option.ne_none_iff_exists'.1 hv
    rw [fill_of_readings_eq_nil hv hnil, readings_push, hv]
    by_cases hname : l.name = name
    · subst hname
      simp [hnil]
    · rw [if_neg (Ne.symm hname), if_neg hname]
      split
      · rename_i hother
        exact hother
      · rfl
  · rw [fill_of_readings_ne_nil fun hv hnil => hfill ⟨hv, hnil⟩]
    split
    · rename_i hnil
      by_cases hname : l.name = name
      · subst hname
        have hnone : l.fallback = none := by
          by_contra hv
          exact hfill ⟨hv, hnil⟩
        simp [hnil, hnone]
      · simp [hnil, hname]
    · rfl

theorem contains_fill (h : a.contains l.name = true) : (a.fill l).contains name = a.contains name := by
  unfold fill
  cases l.fallback with
  | none => rfl
  | some v =>
    dsimp only
    split
    · rw [contains_push]
      by_cases hname : name = l.name
      · simp [hname, h]
      · simp [hname]
    · rfl

/-- Of several leaves with one name the first that has a fallback value fills it in; those that come
later find it there. -/
theorem readings_foldl_fill : (ls.foldl fill a).readings name =
    if a.readings name = [] then (ls.findSome? (Leaf.fallbackFor? name)).toList
    else a.readings name := by
  induction ls generalizing a with
  | nil =>
    rw [List.foldl_nil, List.findSome?_nil]
    split
    · rename_i hnil
      rw [hnil]
      rfl
    · rfl
  | cons l ls ih =>
    rw [List.foldl_cons, ih, readings_fill, List.findSome?_cons]
    by_cases hnil : a.readings name = []
    · rw [if_pos hnil, if_pos hnil]
      cases l.fallbackFor? name with
      | none => rfl
      | some r => rfl
    · rw [if_neg hnil, if_neg hnil, if_neg hnil]

theorem contains_foldl_fill (h : ∀ l ∈ ls, a.contains l.name = true) :
    (ls.foldl fill a).contains name = a.contains name := by
  induction ls generalizing a with
  | nil => rfl
  | cons l ls ih =>
    obtain ⟨hl, hls⟩ := List.forall_mem_cons.1 h
    have hstep : ∀ name, (a.fill l).contains name = a.contains name := fun _ => contains_fill hl
    rw [List.foldl_cons, ih fun o ho => (hstep o.name).trans (hls o ho), hstep]

theorem foldl_fill_of_readings_ne_nil (h : ∀ l ∈ ls, l.fallback ≠ none → a.readings l.name ≠ []) :
    ls.foldl fill a = a := by
  induction ls with
  | nil => rfl
  | cons l ls ih =>
    obtain ⟨hl, hls⟩ := List.forall_mem_cons.1 h
    rw [List.foldl_cons, fill_of_readings_ne_nil hl, ih hls]

end Args

namespace Group

variable {g : Group} {ts : List String} {args a : Args} {name : String}

/-- The fallback value under a name: that of the first leaf of the name that has one, as if the
first matcher of this leaf had read it. -/
def fallback? (g : Group) (name : String) : Option Reading :=
  g.leaves.findSome? (Leaf.fallbackFor? name)

/-- The arguments `a` hold the names of the group's leaves and, under each, what stands in `args`
or, if that is nothing, the fallback value. -/
structure Completes (g : Group) (args a : Args) : Prop where
  names : ∀ name, a.contains name = true ↔ ∃ l ∈ g.leaves, l.name = name
  readings : ∀ name, a.readings name =
    if args.readings name = [] then (g.fallback? name).toList else args.readings name

theorem contains_matchPrefix {found : Found} (h : g.matchPrefix ts = .matched found) :
    found.args.contains name = true ↔ ∃ l ∈ g.leaves, l.name = name := by
  rw [← g.attempt_toNode] at h
  obtain ⟨-, ys, hd, hargs⟩ := g.toNode.sound ts found h
  have hnames : name ∈ g.toNode.names ↔ ∃ l ∈ g.leaves, l.name = name := List.mem_map
  rw [hargs, Args.contains_record, Args.contains_ofNames, decide_eq_true_eq, ← hnames]
  constructor
  · rintro (hn | ⟨y, hy, rfl⟩)
    · exact hn
    · exact hd.name_mem y hy
  · exact .inl

theorem readings_applyDefaults (g : Group) (a : Args) (name : String) :
    (g.applyDefaults a).readings name =
      if a.readings name = [] then (g.fallback? name).toList else a.readings name :=
  Args.readings_foldl_fill

theorem valuesOf_applyDefaults (g : Group) (ys : Yield) (name : String) :
    (g.applyDefaults (g.seed.record ys)).valuesOf name =
      (if ys.under name = [] then (g.fallback? name).toList else ys.under name).map
        Reading.value := by
  have hreadings : (g.seed.record ys).readings name = ys.under name := by
    rw [Args.readings_record, seed_eq_ofNames, Args.readings_ofNames, List.nil_append]
  rw [Args.valuesOf, readings_applyDefaults, hreadings]

theorem completes_applyDefaults {found : Found} (h : g.matchPrefix ts = .matched found) :
    g.Completes found.args (g.applyDefaults found.args) where
  names name := by
    have hall : ∀ l ∈ g.leaves, found.args.contains l.name = true := fun l hl =>
      (contains_matchPrefix h).2 ⟨l, hl, rfl⟩
    rw [applyDefaults, Args.contains_foldl_fill hall, contains_matchPrefix h]
  readings name := g.readings_applyDefaults _ name

theorem Completes.unique {b : Args} (ha : g.Completes args a) (hb : g.Completes args b) : a = b := by
  apply Args.ext_readings
  · intro name
    rw [Bool.eq_iff_iff, ha.names, hb.names]
  · intro name
    rw [ha.readings, hb.readings]

theorem fallback?_ne_none {l : Leaf} (hl : l ∈ g.leaves) (hv : l.fallback ≠ none) :
    g.fallback? l.name ≠ none := by
  intro hnone
  have hl' := List.findSome?_eq_none_iff.1 hnone l hl
  rw [Leaf.fallbackFor?, if_pos rfl, Option.map_eq_none_iff] at hl'
  exact hv hl'

theorem applyDefaults_applyDefaults (g : Group) (a : Args) :
    g.applyDefaults (g.applyDefaults a) = g.applyDefaults a := by
  refine Args.foldl_fill_of_readings_ne_nil fun l hl hv => ?_
  obtain ⟨r, hr⟩ := Option.ne_none_iff_exists'.1 (fallback?_ne_none hl hv)
  rw [readings_applyDefaults]
  split
  · simp [hr]
  · assumption

theorem get?_applyDefaults_of_readings_ne_nil (h : a.readings name ≠ []) :
    (g.applyDefaults a).get? name = a.get? name := by
  have hsame : (g.applyDefaults a).readings name = a.readings name := by
    rw [readings_applyDefaults, if_neg h]
  have hname : (g.applyDefaults a).contains name = true :=
    Args.contains_of_readings_ne_nil (by rw [hsame]; exact h)
  rw [Args.get?_eq, Args.get?_eq, hname, hsame, Args.contains_of_readings_ne_nil h]

/-- All tokens match exactly if their start matches and takes them all. The arguments then hold the
names of the group's leaves, the readings of that match, and the first fallback value of each name
that has none. Completing arguments twice is completing them once, and leaves what stands under a
name as it is. A failure is the same for all tokens as for their start. -/
theorem full_match_completes_prefix (g : Group) :
    (∀ ts a, g.matchTokens ts = .matched a ↔
      ∃ args, g.matchPrefix ts = .matched { args, consumed := ts.length } ∧ g.Completes args a) ∧
    (∀ a, g.applyDefaults (g.applyDefaults a) = g.applyDefaults a) ∧
    (∀ a name, a.readings name ≠ [] → (g.applyDefaults a).get? name = a.get? name) ∧
    (∀ ts e, g.matchTokens ts = .invalid e ↔ g.matchPrefix ts = .invalid e) := by
  refine ⟨fun ts a => ?_, g.applyDefaults_applyDefaults,
    fun a name => get?_applyDefaults_of_readings_ne_nil, fun ts e => matchTokens_eq_invalid_iff⟩
  rw [matchTokens_eq_matched_iff]
  constructor
  · rintro ⟨⟨args, consumed⟩, hfound, rfl, rfl⟩
    exact ⟨args, hfound, completes_applyDefaults hfound⟩
  · rintro ⟨args, hfound, hcompletes⟩
    exact ⟨_, hfound, rfl, hcompletes.unique (completes_applyDefaults hfound)⟩

-- the group is left out, and yet the fallback value of its leaf comes first
example : ({ children :=
    [ .group { optional := true } [.leaf { Leaf.integer "n" with fallback := some (.int 1) }],
      .leaf { Leaf.text "n" with optional := true, fallback := some (.int 2) } ] } : Group).matchTokens
        [] = .matched ((∅ : Args).push "n" ⟨.int 1, .integer⟩) := by decide +kernel

end Group
end Chatline
