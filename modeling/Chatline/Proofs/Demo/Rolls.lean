import Chatline.Demo.Basic
import Chatline.Proofs.Grammar.Defaults
import Chatline.Proofs.Grammar.Once

/-! The tokens that ask for a roll: a number of dice, the letter `d`, the sides and a bonus, or the
sides alone. The grammars of the two versions take these tokens and no others. -/
namespace Chatline.Demo

open Scan

/-- A number of dice, which need not be given. -/
inductive CountTokens : List String → Option Int64 → Prop
  | absent : CountTokens [] none
  | present {t : String} {v : Int64} (h : Text.IsInteger 1 100 t v) : CountTokens [t] (some v)

/-- A bonus behind a plus sign, which need not be given. -/
inductive BonusTokens : List String → Option Int64 → Prop
  | absent : BonusTokens [] none
  | present {t : String} {v : Int64} (h : Text.IsInteger (-1000) 1000 t v) :
      BonusTokens ["+", t] (some v)

/-- The tokens that ask for dice: a number of them, the letter `d`, the sides and a bonus. -/
inductive DiceTokens : List String → Option Int64 → Int64 → Option Int64 → Prop
  | intro {cts bts : List String} {t : String} {count bonus : Option Int64} {sides : Int64}
      (hcount : CountTokens cts count) (hsides : Text.IsInteger 2 1000 t sides)
      (hbonus : BonusTokens bts bonus) : DiceTokens (cts ++ "d" :: t :: bts) count sides bonus

theorem DiceTokens.two_le_length {ts : List String} {count bonus : Option Int64} {sides : Int64}
    (h : DiceTokens ts count sides bonus) : 2 ≤ ts.length := by
  cases h with
  | intro hcount hsides hbonus =>
    simp only [List.length_append, List.length_cons]
    omega

def countLeaf : Leaf :=
  { Leaf.ofMatcher "count" (.integer 1 maxDice) with optional := true, fallback := some (.int 1) }

def sidesLeaf : Leaf := Leaf.ofMatcher "sides" (.integer 2 1000)

def bonusLeaf : Leaf := Leaf.ofMatcher "bonus" (.integer (-1000) 1000)

def bonusGroup : Group :=
  { shape := { optional := true }, children := [.leaf (.word "+"), .leaf bonusLeaf] }

theorem dice_children : dice.children =
    [.leaf countLeaf, .leaf (.word "d"), .leaf sidesLeaf, bonusGroup.toNode] := rfl

theorem takesIntegers_count : countLeaf.TakesIntegers 1 100 := ⟨rfl, rfl⟩

theorem takesIntegers_sides : sidesLeaf.TakesIntegers 2 1000 := ⟨rfl, rfl⟩

theorem takesIntegers_bonus : bonusLeaf.TakesIntegers (-1000) 1000 := ⟨rfl, rfl⟩

theorem not_writes_d (n : Int) : ¬ Text.Writes "d".toList n := by
  have hnone : Text.readInt? "d".toList = none := by decide
  intro h
  rw [Text.readInt?_eq_some_iff.2 h] at hnone
  cases hnone

/-- The readings of a roll. -/
def rollYield (count : Option Int64) (sides : Int64) (bonus : Option Int64) : Yield :=
  .ofInt? "count" count ++ (.ofInt? "sides" (some sides) ++ .ofInt? "bonus" bonus)

section
variable {shape : Shape} {ts : List String} {ys : Yield} {later : List Node}

theorem exists_countTokens (h : Node.Visits shape (.leaf countLeaf :: later) ts ys) :
    ∃ cts us count zs, ts = cts ++ us ∧ CountTokens cts count ∧ Node.Visits shape later us zs := by
  obtain ⟨-, hrest⟩ | ⟨t, us, zs, rfl, hacc, hrest⟩ := h.leaf_cases takesIntegers_count.isGreedy
  · exact ⟨[], ts, none, ys, rfl, .absent, hrest⟩
  · obtain ⟨v, hv⟩ := takesIntegers_count.accepts_iff.1 hacc
    exact ⟨[t], us, some v, zs, rfl, .present hv, hrest⟩

theorem exists_bonusTokens (h : Node.Visits shape [bonusGroup.toNode] ts ys) :
    ∃ bonus, BonusTokens ts bonus := by
  cases h with
  | absent _ hrest =>
    cases hrest
    exact ⟨none, .absent⟩
  | present hgroup hrest =>
    cases hrest
    obtain ⟨t, us, zs, rfl, hplus, hvisits⟩ := (hgroup.visits rfl rfl).of_mandatory_leaf rfl rfl
    obtain ⟨t', us', zs', rfl, hacc, hnone⟩ := hvisits.of_mandatory_leaf rfl rfl
    obtain rfl := Leaf.accepts_word.1 hplus
    obtain ⟨v, hv⟩ := takesIntegers_bonus.accepts_iff.1 hacc
    cases hnone
    exact ⟨some v, .present hv⟩

end

/-- Dice are matched by these tokens only. -/
theorem exists_diceTokens {ts : List String} {args : Args} (h : dice.matchTokens ts = .matched args) :
    ∃ count sides bonus, DiceTokens ts count sides bonus := by
  obtain ⟨ys, hderives⟩ := Group.exists_derives h
  have hvisits := hderives.visits rfl rfl
  rw [dice_children] at hvisits
  obtain ⟨cts, us, count, zs, rfl, hcount, hword⟩ := exists_countTokens hvisits
  obtain ⟨d, us, zs, rfl, hd, hdie⟩ := hword.of_mandatory_leaf rfl rfl
  obtain ⟨t, us, zs, rfl, ht, hlast⟩ := hdie.of_mandatory_leaf rfl rfl
  obtain ⟨bonus, hbonus⟩ := exists_bonusTokens hlast
  obtain rfl := Leaf.accepts_word.1 hd
  obtain ⟨sides, hsides⟩ := takesIntegers_sides.accepts_iff.1 ht
  exact ⟨count, sides, bonus, .intro hcount hsides hbonus⟩

/-- A single die is matched by its sides only. -/
theorem exists_sides {ts : List String} {args : Args} (h : singleDie.matchTokens ts = .matched args) :
    ∃ t sides, ts = [t] ∧ Text.IsInteger 2 1000 t sides := by
  obtain ⟨ys, hd⟩ := Group.exists_derives h
  obtain ⟨t, us, zs, rfl, hacc, hnone⟩ := (hd.visits rfl rfl).of_mandatory_leaf rfl rfl
  obtain ⟨sides, hsides⟩ := takesIntegers_sides.accepts_iff.1 hacc
  cases hnone
  exact ⟨t, sides, rfl, hsides⟩

section
variable {ts cts bts rest : List String} {args : Args} {pos : Nat} {count bonus : Option Int64}
  {sides : Int64} {later : List Slot}

theorem through_count (h : CountTokens cts count) (hts : ts.drop pos = cts ++ "d" :: rest) :
    through {} ts ((Node.leaf countLeaf).slot :: later) args pos =
      through {} ts later (args.record (.ofInt? "count" count)) (pos + cts.length) := by
  cases h with
  | absent =>
    have hanswer : (Node.leaf countLeaf).slot.attempt (ts.drop pos) = .noMatch := by
      rw [hts]
      exact Leaf.attempt_of_noMatch (takesIntegers_count.read_of_noMatch not_writes_d) rest
    exact through_absent hanswer rfl
  | present hv =>
    rw [through_leaf hts (takesIntegers_count.accepts_iff.2 ⟨_, hv⟩),
      takesIntegers_count.yield_eq hv]
    rfl

theorem matchPrefix_bonusGroup {t : String} {v : Int64} (h : Text.IsInteger (-1000) 1000 t v) :
    bonusGroup.matchPrefix ["+", t] =
      .matched { args := (Args.ofNames ["bonus"]).record (.ofInt? "bonus" (some v)), consumed := 2 } := by
  have hacc := takesIntegers_bonus.accepts_iff.2 ⟨v, h⟩
  have hsingle : ∀ l ∈ bonusGroup.leaves, l.isGreedy = false := by decide
  rw [Group.matchPrefix_of_once rfl rfl hsingle (List.cons_ne_nil _ _), Group.frame_slots]
  refine (through_leaf rfl (Leaf.accepts_word.2 rfl)).trans ?_
  refine (through_leaf rfl hacc).trans ?_
  rw [Leaf.yield_word, takesIntegers_bonus.yield_eq h]
  rfl

theorem through_bonus (h : BonusTokens bts bonus) (hts : ts.drop pos = bts)
    (hname : args.contains "bonus") : through {} ts [bonusGroup.toNode.slot] args pos =
      .matched { args := args.record (.ofInt? "bonus" bonus), consumed := pos + bts.length } := by
  cases h with
  | absent =>
    have hanswer : bonusGroup.toNode.slot.attempt (ts.drop pos) = .noMatch := by
      rw [hts]
      decide +kernel
    exact through_absent hanswer rfl
  | @present t v hv =>
    have hanswer : bonusGroup.toNode.slot.attempt (ts.drop pos) = .matched
        { args := (Args.ofNames ["bonus"]).record (.ofInt? "bonus" (some v)), consumed := 2 } := by
      rw [hts, ← matchPrefix_bonusGroup hv]
      exact bonusGroup.attempt_toNode _
    have hnames : ∀ name ∈ ["bonus"], args.contains name := by simpa using hname
    rw [through, hanswer]
    dsimp only
    rw [Args.merge_record hnames]
    rfl

/-- A scan of dice finds all of these tokens. -/
theorem matchPrefix_dice (h : DiceTokens ts count sides bonus) : dice.matchPrefix ts =
    .matched { args := dice.seed.record (rollYield count sides bonus), consumed := ts.length } := by
  cases h with
  | @intro cts bts t _ _ _ hcount hsides hbonus =>
    have hsingle : ∀ l ∈ dice.leaves, l.isGreedy = false := by decide
    have hstart : (cts ++ "d" :: t :: bts).drop 0 = cts ++ "d" :: t :: bts := rfl
    have hword : (cts ++ "d" :: t :: bts).drop (0 + cts.length) = "d" :: t :: bts := by
      rw [Nat.zero_add, List.drop_left]
    have hdie : (cts ++ "d" :: t :: bts).drop (0 + cts.length + 1) = t :: bts := by
      rw [← List.drop_drop, hword]
      rfl
    have hlast : (cts ++ "d" :: t :: bts).drop (0 + cts.length + 1 + 1) = bts := by
      rw [← List.drop_drop, hdie]
      rfl
    have hname : dice.seed.contains "bonus" := by decide
    rw [Group.matchPrefix_of_once rfl rfl hsingle (List.cons_ne_nil _ _), Group.frame_slots,
      dice_children]
    refine (through_count hcount hstart).trans ?_
    refine (through_leaf hword (Leaf.accepts_word.2 rfl)).trans ?_
    refine (through_leaf hdie (takesIntegers_sides.accepts_iff.2 ⟨_, hsides⟩)).trans ?_
    refine (through_bonus hbonus hlast ?_).trans ?_
    · simp only [Args.contains_record, hname, true_or]
    · have hlength : 0 + cts.length + 1 + 1 + bts.length = (cts ++ "d" :: t :: bts).length := by
        simp only [List.length_append, List.length_cons]
        omega
      rw [hlength, Leaf.yield_word, Args.record_nil, takesIntegers_sides.yield_eq hsides, rollYield,
        Args.record_append, Args.record_append]
      rfl

end

/-- What a roll is asked for with: a version, and a value or none under each of its names. -/
structure Request where
  version : String
  count : Option Int64
  sides : Int64
  bonus : Option Int64

/-- The tokens that ask for a roll, and what they ask for. Without a number of dice, one is meant;
the sides alone are a single die. -/
inductive RollTokens : List String → Request → Prop
  | dice {ts : List String} {count bonus : Option Int64} {sides : Int64}
      (h : DiceTokens ts count sides bonus) :
      RollTokens ts { version := "dice", count := some (count.getD 1), sides, bonus }
  | single {t : String} {sides : Int64} (h : Text.IsInteger 2 1000 t sides) :
      RollTokens [t] { version := "single", count := none, sides, bonus := none }

/-- The values of the request stand under their names. -/
structure Request.Holds (r : Request) (args : Args) : Prop where
  count : args.valuesOf "count" = r.count.toList.map .int
  sides : args.valuesOf "sides" = [.int r.sides]
  bonus : args.valuesOf "bonus" = r.bonus.toList.map .int

section
variable {ts : List String} {count bonus : Option Int64} {sides : Int64}

theorem holds_dice : Request.Holds { version := "dice", count := some (count.getD 1), sides, bonus }
    (dice.applyDefaults (dice.seed.record (rollYield count sides bonus))) where
  count := by
    have hfallback : dice.fallback? "count" = some ⟨.int 1, .integer⟩ := by decide
    rw [Group.valuesOf_applyDefaults, hfallback]
    cases count <;> simp [rollYield, Yield.under_ofInt?]
  sides := by
    rw [Group.valuesOf_applyDefaults]
    simp [rollYield, Yield.under_ofInt?]
  bonus := by
    have hfallback : dice.fallback? "bonus" = none := by decide
    rw [Group.valuesOf_applyDefaults, hfallback]
    cases bonus <;> simp [rollYield, Yield.under_ofInt?]

theorem holds_single : Request.Holds { version := "single", count := none, sides, bonus := none }
    (singleDie.applyDefaults (singleDie.seed.record (.ofInt? "sides" (some sides)))) where
  count := by
    have hfallback : singleDie.fallback? "count" = none := by decide
    rw [Group.valuesOf_applyDefaults, hfallback]
    simp [Yield.under_ofInt?]
  sides := by
    rw [Group.valuesOf_applyDefaults]
    simp [Yield.under_ofInt?]
  bonus := by
    have hfallback : singleDie.fallback? "bonus" = none := by decide
    rw [Group.valuesOf_applyDefaults, hfallback]
    simp [Yield.under_ofInt?]

theorem matchTokens_dice (h : DiceTokens ts count sides bonus) : dice.matchTokens ts =
    .matched (dice.applyDefaults (dice.seed.record (rollYield count sides bonus))) :=
  Group.matchTokens_of_all (matchPrefix_dice h) rfl

theorem matchTokens_singleDie {t : String} (h : Text.IsInteger 2 1000 t sides) :
    singleDie.matchTokens [t] =
      .matched (singleDie.applyDefaults (singleDie.seed.record (.ofInt? "sides" (some sides)))) := by
  have hsingle : ∀ l ∈ singleDie.leaves, l.isGreedy = false := by decide
  have hacc := takesIntegers_sides.accepts_iff.2 ⟨sides, h⟩
  have hprefix : singleDie.matchPrefix [t] = .matched
      { args := singleDie.seed.record (.ofInt? "sides" (some sides)), consumed := 1 } := by
    rw [Group.matchPrefix_of_once rfl rfl hsingle (List.cons_ne_nil _ _), Group.frame_slots]
    refine (through_leaf rfl hacc).trans ?_
    rw [takesIntegers_sides.yield_eq h]
    rfl
  exact Group.matchTokens_of_all hprefix rfl

/-- The first version of a roll that matches all tokens, and what it reads. -/
def rollMatch (lead : String) (ts : List String) : Option (Version × Args) :=
  (rollVersions lead).findSome? fun v => (v.root.matchTokens ts).matched?.map fun args => (v, args)

theorem rollMatch_of_rollTokens (lead : String) {r : Request} (h : RollTokens ts r) :
    ∃ v args, rollMatch lead ts = some (v, args) ∧ v.label = r.version ∧ r.Holds args := by
  unfold rollMatch rollVersions
  cases h with
  | dice hdice =>
    rw [List.findSome?_cons, matchTokens_dice hdice]
    exact ⟨_, _, rfl, rfl, holds_dice⟩
  | @single t sides hsides =>
    -- dice need two tokens
    have hdice : (dice.matchTokens [t]).matched? = none := by
      cases hanswer : dice.matchTokens [t] with
      | matched args =>
        obtain ⟨count, sides, bonus, htokens⟩ := exists_diceTokens hanswer
        have hlength := htokens.two_le_length
        simp at hlength
      | noMatch => rfl
      | invalid e => rfl
    rw [List.findSome?_cons, hdice, List.findSome?_cons, matchTokens_singleDie hsides]
    exact ⟨_, _, rfl, rfl, holds_single⟩

theorem rollMatch_eq_none (lead : String) (h : ∀ r, ¬ RollTokens ts r) : rollMatch lead ts = none := by
  unfold rollMatch
  refine List.findSome?_eq_none_iff.2 fun v hv => ?_
  cases hanswer : v.root.matchTokens ts with
  | matched args =>
    simp only [rollVersions, List.mem_cons, List.not_mem_nil, or_false] at hv
    rcases hv with rfl | rfl
    · obtain ⟨count, sides, bonus, htokens⟩ := exists_diceTokens hanswer
      exact absurd (.dice htokens) (h _)
    · obtain ⟨t, sides, rfl, hsides⟩ := exists_sides hanswer
      exact absurd (.single hsides) (h _)
  | noMatch => rfl
  | invalid e => rfl

end
end Chatline.Demo
