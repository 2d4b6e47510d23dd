import Chatline.Grammar.Matcher
import Mathlib.Data.List.Induction
import Mathlib.Data.Nat.Digits.Defs

/-! Integers of 64 bits and the texts that write integers. What a bounded integer matcher reads is
exact arithmetic: the value of the digits, however many there are, compared with the bounds. -/
namespace Chatline

theorem int64?_of_fits {n : Int} (h : -2 ^ 63 ≤ n ∧ n < 2 ^ 63) : int64? n = some (Int64.ofInt n) := by
  have hmin : Int64.minValue.toInt = -2 ^ 63 := by decide
  have hmax : Int64.maxValue.toInt = 2 ^ 63 - 1 := by decide
  unfold int64?
  rw [hmin, hmax, if_pos ⟨h.1, by omega⟩]

theorem int64?_eq_none_iff {n : Int} : int64? n = none ↔ ¬ (-2 ^ 63 ≤ n ∧ n < 2 ^ 63) := by
  have hmin : Int64.minValue.toInt = -2 ^ 63 := by decide
  have hmax : Int64.maxValue.toInt = 2 ^ 63 - 1 := by decide
  unfold int64?
  rw [hmin, hmax]
  split
  · rename_i h
    exact ⟨fun hnone => (by cases hnone), fun hn => absurd ⟨h.1, by omega⟩ hn⟩
  · rename_i h
    exact ⟨fun _ hn => h ⟨hn.1, by omega⟩, fun _ => rfl⟩

theorem int64?_eq_some_iff {n : Int} {v : Int64} : int64? n = some v ↔ v.toInt = n := by
  have hv : -2 ^ 63 ≤ v.toInt ∧ v.toInt < 2 ^ 63 := ⟨v.le_toInt, v.toInt_lt⟩
  constructor
  · intro h
    have hn : -2 ^ 63 ≤ n ∧ n < 2 ^ 63 := by
      by_contra hn
      rw [int64?_eq_none_iff.2 hn] at h
      cases h
    rw [int64?_of_fits hn] at h
    rw [← Option.some.inj h, Int64.toInt_ofInt_of_le hn.1 hn.2]
  · rintro rfl
    rw [int64?_of_fits hv, Int64.ofInt_toInt]

namespace Text

/-- The number that digits write in base ten. -/
def value (ds : List Char) : Nat := Nat.ofDigits 10 (ds.map digitValue).reverse

/-- The characters are one or more ASCII digits, perhaps with a minus sign in front, and this is
the integer that they write. -/
inductive Writes : List Char → Int → Prop
  | plain {ds : List Char} (hne : ds ≠ []) (hds : ∀ d ∈ ds, isDigit d = true) : Writes ds (value ds)
  | minus {ds : List Char} (hne : ds ≠ []) (hds : ∀ d ∈ ds, isDigit d = true) :
      Writes ('-' :: ds) (-value ds)

/-- The token writes this integer, which lies between the bounds. -/
structure IsInteger (min max : Int64) (token : String) (v : Int64) : Prop where
  writes : Writes token.toList v.toInt
  min_le : min ≤ v
  le_max : v ≤ max

theorem natOfDigits_eq_value (ds : List Char) : natOfDigits ds = value ds := by
  induction ds using List.reverseRecOn with
  | nil => rfl
  | append_singleton ds d ih =>
    have hlast : natOfDigits (ds ++ [d]) = 10 * natOfDigits ds + digitValue d := by
      simp [natOfDigits]
    have hvalue : value (ds ++ [d]) = digitValue d + 10 * value ds := by
      simp [value, Nat.ofDigits_cons]
    rw [hlast, hvalue, ih, Nat.add_comm]

theorem readNat?_eq_some_iff {cs : List Char} {n : Nat} :
    readNat? cs = some n ↔ (cs ≠ [] ∧ ∀ d ∈ cs, isDigit d = true) ∧ value cs = n := by
  have hdigits : (!cs.isEmpty && cs.all isDigit) = true ↔
      cs ≠ [] ∧ ∀ d ∈ cs, isDigit d = true := by
    rw [Bool.and_eq_true, Bool.not_eq_true', List.isEmpty_eq_false_iff, List.all_eq_true]
  unfold readNat?
  rw [natOfDigits_eq_value, Option.ite_none_right_eq_some, hdigits, Option.some.injEq]

theorem readInt?_minus (ds : List Char) :
    readInt? ('-' :: ds) = (readNat? ds).map fun n : Nat => -(n : Int) := by
  rw [readInt?]
  cases readNat? ds <;> rfl

theorem readInt?_of_ne {cs : List Char} (h : ∀ ds, cs ≠ '-' :: ds) :
    readInt? cs = (readNat? cs).map fun n : Nat => (n : Int) := by
  unfold readInt?
  split
  · exact absurd rfl (h _)
  · cases readNat? cs <;> rfl

theorem readInt?_eq_some_iff {cs : List Char} {v : Int} : readInt? cs = some v ↔ Writes cs v := by
  by_cases hminus : ∃ ds, cs = '-' :: ds
  · obtain ⟨ds, rfl⟩ := hminus
    rw [readInt?_minus, Option.map_eq_some_iff]
    constructor
    · rintro ⟨n, hn, rfl⟩
      obtain ⟨⟨hne, hds⟩, rfl⟩ := readNat?_eq_some_iff.1 hn
      exact .minus hne hds
    · intro h
      cases h with
      | minus hne hds => exact ⟨_, readNat?_eq_some_iff.2 ⟨⟨hne, hds⟩, rfl⟩, rfl⟩
      | plain _ hds =>
        -- a minus sign is no digit
        exact absurd (hds '-' List.mem_cons_self) (by decide)
  · rw [readInt?_of_ne fun ds hds => hminus ⟨ds, hds⟩, Option.map_eq_some_iff]
    constructor
    · rintro ⟨n, hn, rfl⟩
      obtain ⟨⟨hne, hds⟩, rfl⟩ := readNat?_eq_some_iff.1 hn
      exact .plain hne hds
    · intro h
      cases h with
      | minus hne hds => exact absurd ⟨_, rfl⟩ hminus
      | plain hne hds => exact ⟨_, readNat?_eq_some_iff.2 ⟨⟨hne, hds⟩, rfl⟩, rfl⟩

theorem isInteger_iff {min max v : Int64} {token : String} :
    IsInteger min max token v ↔ readInt? token.toList = some v.toInt ∧ min ≤ v ∧ v ≤ max := by
  rw [readInt?_eq_some_iff]
  exact ⟨fun h => ⟨h.writes, h.min_le, h.le_max⟩, fun h => ⟨h.1, h.2.1, h.2.2⟩⟩

end Text

namespace Matcher

variable {min max : Int64} {span : String}

/-- An integer matcher reads the values between its bounds. -/
theorem readInteger_eq_matched_iff {v : Value} : readInteger min max span = .matched v ↔
    ∃ n, v = .int n ∧ Text.IsInteger min max span n := by
  simp only [Text.isInteger_iff]
  unfold readInteger
  cases hread : Text.readInt? span.toList with
  | none => simp
  | some i =>
    dsimp only
    cases hfits : int64? i with
    | none =>
      have hwide : ∀ n : Int64, i ≠ n.toInt := by
        rintro n rfl
        rw [int64?_eq_some_iff.2 rfl] at hfits
        cases hfits
      simp only [reduceCtorEq, Option.some.injEq, false_iff]
      exact fun ⟨n, _, hn, _⟩ => hwide n hn
    | some n =>
      obtain rfl := int64?_eq_some_iff.1 hfits
      simp only [Option.some.injEq]
      split
      · rename_i hin
        constructor
        · intro h
          cases h
          exact ⟨n, rfl, rfl, hin⟩
        · rintro ⟨n', rfl, hn, -⟩
          rw [Int64.toInt_inj.1 hn]
      · rename_i hout
        simp only [reduceCtorEq, false_iff]
        rintro ⟨n', -, hn, hin⟩
        exact hout (Int64.toInt_inj.1 hn ▸ hin)

/-- It answers nothing to what is no integer. -/
theorem readInteger_eq_noMatch_iff : readInteger min max span = .noMatch ↔
    ∀ v, ¬ Text.Writes span.toList v := by
  simp only [← Text.readInt?_eq_some_iff]
  unfold readInteger
  cases hread : Text.readInt? span.toList with
  | none => simp
  | some i =>
    simp only [Option.some.injEq, forall_eq']
    cases int64? i with
    | none => simp
    | some n =>
      dsimp only
      split <;> simp

end Matcher
end Chatline
