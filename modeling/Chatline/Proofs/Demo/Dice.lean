import Chatline.Demo.Basic
import Chatline.Proofs.Integers

/-! The arithmetic of a roll. The throws are added to the bonus one by one in 64 bits, and since
they are not negative, a sum leaves 64 bits on the way only if the whole sum lies outside them. -/
namespace Chatline.Demo

variable {σ : Type}

/-- Throws of a die, each made in the state that the one before it left. -/
inductive Throws (die : Nat → σ → Nat × σ) (sides : Nat) : σ → List Nat → σ → Prop
  | none {st : σ} : Throws die sides st [] st
  | next {st st' : σ} {throws : List Nat} (rest : Throws die sides (die sides st).2 throws st') :
      Throws die sides st ((die sides st).1 :: throws) st'

section
variable (die : Nat → σ → Nat × σ) (sides n : Nat) (st : σ)

theorem throws_throwDice :
    Throws die sides st (throwDice die sides n st).1 (throwDice die sides n st).2 := by
  induction n generalizing st with
  | zero => exact .none
  | succ n ih => exact .next (ih _)

theorem length_throwDice : (throwDice die sides n st).1.length = n := by
  induction n generalizing st with
  | zero => rfl
  | succ n ih => exact congrArg (· + 1) (ih _)

end

theorem sumFrom_nil (bonus : Int64) : sumFrom bonus [] = some bonus := rfl

theorem sumFrom_cons (bonus : Int64) (v : Nat) (throws : List Nat) :
    sumFrom bonus (v :: throws) = (int64? (bonus.toInt + v)).bind fun total => sumFrom total throws :=
  List.foldlM_cons

/-- Adding the throws one by one is adding them all at once. -/
theorem sumFrom_eq (bonus : Int64) (throws : List Nat) :
    sumFrom bonus throws = int64? (bonus.toInt + (throws.sum : Nat)) := by
  induction throws generalizing bonus with
  | nil =>
    rw [sumFrom_nil, List.sum_nil]
    exact (int64?_eq_some_iff.2 (Int.add_zero _).symm).symm
  | cons v throws ih =>
    have hsum : ((v :: throws).sum : Int) = v + (throws.sum : Nat) := by
      rw [List.sum_cons, Int.natCast_add]
    rw [sumFrom_cons, hsum]
    cases hstep : int64? (bonus.toInt + v) with
    | none =>
      -- the sum is too large already, and the throws that are left do not make it smaller
      have hlow := bonus.le_toInt
      have hover := int64?_eq_none_iff.1 hstep
      exact (int64?_eq_none_iff.2 (by omega)).symm
    | some total =>
      have htotal := int64?_eq_some_iff.1 hstep
      rw [Option.bind_some, ih, htotal, Int.add_assoc]

theorem rollText_ends_with_total (count sides bonus : Int) (throws : List Nat) (total : Int) :
    ∃ front, rollText count sides bonus throws total = front ++ " = " ++ toString total := by
  unfold rollText
  dsimp only
  split
  · exact ⟨_, rfl⟩
  · exact ⟨_, rfl⟩

/-- The arguments ask for so many dice with so many sides, and for a bonus. One die is thrown if
the number is not given as an integer, and no bonus is added if the bonus is not. -/
structure Asks (args : Args) (sides count bonus : Int64) : Prop where
  sides_eq : args.int? "sides" = some sides
  count_eq : (args.int? "count").getD 1 = count
  bonus_eq : (args.int? "bonus").getD 0 = bonus
  sides_pos : 1 ≤ sides.toInt
  count_pos : 1 ≤ count.toInt
  count_le : count.toInt ≤ 100

theorem roll_of_asks {args : Args} {sides count bonus : Int64} (h : Asks args sides count bonus)
    (die : Nat → σ → Nat × σ) (st : σ) : roll die args st =
      ((sumFrom bonus (throwDice die sides.toInt.toNat count.toInt.toNat st).1).map fun total =>
          rollText count.toInt sides.toInt bonus.toInt
            (throwDice die sides.toInt.toNat count.toInt.toNat st).1 total.toInt,
        (throwDice die sides.toInt.toNat count.toInt.toNat st).2) := by
  have hall : ¬ (sides < 1 ∨ count < 1 ∨ maxDice < count) := by
    have hone : (1 : Int64).toInt = 1 := by decide
    have hmax : maxDice.toInt = 100 := by decide
    have := h.sides_pos
    have := h.count_pos
    have := h.count_le
    simp only [Int64.lt_iff_toInt_lt, hone, hmax]
    omega
  unfold roll
  rw [h.sides_eq, h.count_eq, h.bonus_eq]
  dsimp only
  rw [if_neg hall]

theorem roll_of_not_asks {args : Args} (h : ∀ sides count bonus, ¬ Asks args sides count bonus)
    (die : Nat → σ → Nat × σ) (st : σ) : roll die args st = (none, st) := by
  unfold roll
  cases hsides : args.int? "sides" with
  | none => rfl
  | some sides =>
    have hnone : sides < 1 ∨ (args.int? "count").getD 1 < 1 ∨
        maxDice < (args.int? "count").getD 1 := by
      have hone : (1 : Int64).toInt = 1 := by decide
      have hmax : maxDice.toInt = 100 := by decide
      simp only [Int64.lt_iff_toInt_lt, hone, hmax]
      by_contra hall
      exact h sides _ _ ⟨hsides, rfl, rfl, by omega, by omega, by omega⟩
    dsimp only
    rw [if_pos hnone]

/-- A roll that is asked for throws exactly the dice asked for, and its reply shows the exact sum of
the bonus and the throws if that fits 64 bits; otherwise there is no reply. If no roll is asked for,
there is no reply and nothing is thrown. -/
theorem roll_sums_exactly (die : Nat → σ → Nat × σ) (args : Args) (st : σ) :
    (∀ sides count bonus, Asks args sides count bonus →
      ∃ throws st', Throws die sides.toInt.toNat st throws st' ∧
        (throws.length : Int) = count.toInt ∧ (roll die args st).2 = st' ∧
        ∃ total : Int, total = bonus.toInt + (throws.sum : Nat) ∧
          (roll die args st).1 = (if -2 ^ 63 ≤ total ∧ total < 2 ^ 63 then
            some (rollText count.toInt sides.toInt bonus.toInt throws total) else none) ∧
          ∃ front, rollText count.toInt sides.toInt bonus.toInt throws total =
            front ++ " = " ++ toString total) ∧
    ((∀ sides count bonus, ¬ Asks args sides count bonus) → roll die args st = (none, st)) := by
  constructor
  · intro sides count bonus hasks
    have hcount := hasks.count_pos
    have hlength := length_throwDice die sides.toInt.toNat count.toInt.toNat st
    rw [roll_of_asks hasks]
    refine ⟨_, _, throws_throwDice die _ _ st, by omega, rfl, _, rfl, ?_,
      rollText_ends_with_total ..⟩
    rw [sumFrom_eq]
    split
    · rename_i hfits
      rw [int64?_of_fits hfits, Option.map_some, Int64.toInt_ofInt_of_le hfits.1 hfits.2]
    · rename_i hover
      rw [int64?_eq_none_iff.2 hover, Option.map_none]
  · exact fun h => roll_of_not_asks h die st

-- the largest sum that fits is shown; with one more the die is thrown all the same
example :
    (roll (fun _ n => (2, n + 1)) (((∅ : Args).push "sides" ⟨.int 6, .integer⟩).push "bonus"
      ⟨.int (Int64.maxValue - 2), .integer⟩) 0).1 =
        some "1d6+9223372036854775805: [2] +9223372036854775805 = 9223372036854775807" ∧
    roll (fun _ n => (2, n + 1)) (((∅ : Args).push "sides" ⟨.int 6, .integer⟩).push "bonus"
      ⟨.int (Int64.maxValue - 1), .integer⟩) 0 = (none, 1) := by decide +kernel

end Chatline.Demo
