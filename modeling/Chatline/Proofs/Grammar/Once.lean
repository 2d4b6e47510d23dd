import Chatline.Proofs.Grammar.LooserBounds
import Chatline.Proofs.Grammar.Nesting
import Chatline.Proofs.Integers

/-! Derivations of groups that occur once, in their order and without greedy leaves: leaf by leaf,
one token each. Words and integers as such leaves. -/
namespace Chatline

namespace Node

/-- A leaf that is not greedy stands for one token. -/
theorem Derives.of_single {l : Leaf} {ts : List String} {ys : Yield} (hsingle : l.isGreedy = false)
    (h : (Node.leaf l).Derives ts ys) : ∃ t, ts = [t] ∧ l.accepts t = true := by
  cases h with
  | literal hl =>
    have hread : l.read l.name = .matched ⟨.bool true, .literal⟩ := by
      unfold Leaf.read
      rw [if_pos hl, if_pos rfl]
    exact ⟨l.name, rfl, Leaf.accepts_iff.2 ⟨_, hread⟩⟩
  | @token _ t r hl hr => exact ⟨t, rfl, Leaf.accepts_iff.2 ⟨r, hr⟩⟩
  | span hl hne hr => simp [hsingle] at hl

/-- A group that occurs once and keeps its order stands for one visit to its children. -/
theorem Derives.visits {shape : Shape} {children : List Node} {ts : List String} {ys : Yield}
    (hfixed : shape.flexible = false) (honce : shape.repetition = none)
    (h : (Node.group shape children).Derives ts ys) : Visits shape children ts ys := by
  cases h with
  | nothing => exact .none
  | @group _ _ p _ _ hne hmin hmax hp =>
    have hone : p = 1 := by
      simp only [Shape.minPasses, Shape.maxPasses, honce, Option.map_none, Option.getD_none]
        at hmin hmax
      omega
    subst hone
    cases hp with
    | next before perm declared pass =>
      cases before with
      | none =>
        rw [← declared hfixed]
        exact pass

section
variable {shape : Shape} {l : Leaf} {later : List Node} {ts : List String} {ys : Yield}

theorem Visits.leaf_cases (hsingle : l.isGreedy = false)
    (h : Visits shape (.leaf l :: later) ts ys) :
    (shape.skips (.leaf l) = true ∧ Visits shape later ts ys) ∨
      ∃ t us zs, ts = t :: us ∧ l.accepts t = true ∧ Visits shape later us zs := by
  cases h with
  | absent hlack hrest => exact .inl ⟨Shape.skips_eq_true_iff.2 hlack, hrest⟩
  | present hleaf hrest =>
    obtain ⟨t, rfl, hacc⟩ := hleaf.of_single hsingle
    exact .inr ⟨t, _, _, rfl, hacc, hrest⟩

theorem Visits.of_mandatory_leaf (hsingle : l.isGreedy = false)
    (hskip : shape.skips (.leaf l) = false) (h : Visits shape (.leaf l :: later) ts ys) :
    ∃ t us zs, ts = t :: us ∧ l.accepts t = true ∧ Visits shape later us zs :=
  (h.leaf_cases hsingle).resolve_left fun habsent => by simp [hskip] at habsent

end
end Node

/-- The readings of an integer under a name, if there is one. -/
def Yield.ofInt? (name : String) (v? : Option Int64) : Yield :=
  v?.toList.map fun v => (name, ⟨.int v, .integer⟩)

theorem Yield.under_ofInt? (name k : String) (v? : Option Int64) :
    Yield.under k (ofInt? name v?) = if name = k then v?.toList.map (⟨.int ·, .integer⟩) else [] := by
  cases v? with
  | none => simp [ofInt?]
  | some v => by_cases h : name = k <;> simp [ofInt?, Yield.under, h]

namespace Leaf

theorem accepts_word {w t : String} : (word w).accepts t = true ↔ t = w := by
  by_cases h : t = w <;> simp [accepts, read, word, h, Verdict.isMatched]

theorem yield_word {w t : String} : (word w).yield t = [] := by
  by_cases h : t = w <;> simp [yield, read, word, h]

/-- The leaf reads the integers between these bounds. -/
structure TakesIntegers (l : Leaf) (min max : Int64) : Prop where
  not_literal : l.literal = false
  matchers : l.matchers = [.integer min max]

namespace TakesIntegers

variable {l : Leaf} {min max v : Int64} {t : String} (hl : l.TakesIntegers min max)
include hl

theorem isGreedy : l.isGreedy = false := by
  simp [Leaf.isGreedy, hl.matchers, Matcher.isGreedy]

theorem read_eq : l.read t = match Matcher.readInteger min max t with
    | .matched v => .matched ⟨v, .integer⟩
    | .noMatch => .noMatch
    | .invalid cause => .invalid { argument := l.name, kind := .integer, cause } := by
  have hread : (Matcher.integer min max).read t = Matcher.readInteger min max t := rfl
  unfold read
  rw [hl.not_literal, if_neg Bool.false_ne_true, hl.matchers, readFirst, readFirst, hread]
  cases Matcher.readInteger min max t <;> rfl

theorem read_of_noMatch (h : ∀ n, ¬ Text.Writes t.toList n) : l.read t = .noMatch := by
  rw [hl.read_eq, Matcher.readInteger_eq_noMatch_iff.2 h]

theorem accepts_iff : l.accepts t = true ↔ ∃ v, Text.IsInteger min max t v := by
  have hmatched : l.accepts t = true ↔ ∃ v, Matcher.readInteger min max t = .matched v := by
    unfold accepts
    rw [hl.read_eq]
    cases Matcher.readInteger min max t <;> simp [Verdict.isMatched]
  rw [hmatched]
  constructor
  · rintro ⟨v, hv⟩
    obtain ⟨n, -, hn⟩ := Matcher.readInteger_eq_matched_iff.1 hv
    exact ⟨n, hn⟩
  · rintro ⟨n, hn⟩
    exact ⟨.int n, Matcher.readInteger_eq_matched_iff.2 ⟨n, rfl, hn⟩⟩

theorem yield_eq (h : Text.IsInteger min max t v) : l.yield t = Yield.ofInt? l.name (some v) := by
  have hread : Matcher.readInteger min max t = .matched (.int v) :=
    Matcher.readInteger_eq_matched_iff.2 ⟨v, rfl, h⟩
  unfold yield
  rw [hl.read_eq, hread, hl.not_literal]
  rfl

end TakesIntegers
end Leaf

namespace Group

/-- Tokens that a group matches have a derivation. -/
theorem exists_derives {g : Group} {ts : List String} {args : Args}
    (h : g.matchTokens ts = .matched args) :
    ∃ ys, g.toNode.Derives ts ys := by
  obtain ⟨found, hfound, hall, -⟩ := matchTokens_eq_matched_iff.1 h
  rw [← g.attempt_toNode] at hfound
  obtain ⟨-, ys, hd, -⟩ := g.toNode.sound ts found hfound
  rw [hall, List.take_length] at hd
  exact ⟨ys, hd⟩

end Group
end Chatline
