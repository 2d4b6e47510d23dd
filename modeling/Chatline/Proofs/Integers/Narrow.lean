import Chatline.Proofs.Integers
import Mathlib.Tactic.Ring

/-! Integers that are read in 64 bits. The spelling is judged first, and then the digits are taken
one after the other until a step overflows. Main statement: this is the exact arithmetic of the
integer matcher, for digits of any number. -/
namespace Chatline

section
variable {sign n m : Int}

theorem le_behind (hsign : sign = 1 ∨ sign = -1) (hn : 0 ≤ sign * n) (k v : Nat) :
    sign * n ≤ sign * (n * 10 ^ k + sign * v) := by
  have hpow : (1 : Int) ≤ 10 ^ k := one_le_pow₀ (by norm_num)
  have hsquare : sign * sign = 1 := by rcases hsign with rfl | rfl <;> rfl
  calc
    sign * n ≤ sign * n * 10 ^ k := le_mul_of_one_le_right hn hpow
    _ ≤ sign * n * 10 ^ k + sign * sign * v := by rw [hsquare]; omega
    _ = sign * (n * 10 ^ k + sign * v) := by ring

/-- What lies outside 64 bits does not come back when it moves away from zero. -/
theorem int64?_eq_none_of_le (hsign : sign = 1 ∨ sign = -1) (hn : 0 ≤ sign * n)
    (hle : sign * n ≤ sign * m) (h : int64? n = none) : int64? m = none := by
  rw [int64?_eq_none_iff] at h ⊢
  rcases hsign with rfl | rfl <;> omega

end

namespace Text

/-- What stands behind a minus sign, or the whole if there is none. -/
def unsigned : List Char → List Char
  | '-' :: cs => cs
  | cs => cs

def spellsInteger (cs : List Char) : Bool := !(unsigned cs).isEmpty && (unsigned cs).all isDigit

/-- Puts a digit behind a number of 64 bits, away from zero. -/
def shiftIn (sign : Int) (acc : Int64) (d : Char) : Option Int64 :=
  if isDigit d then
    (int64? (acc.toInt * 10)).bind fun shifted => int64? (shifted.toInt + sign * digitValue d)
  else none

/-- Reads one or more digits in 64 bits, up to the first step that overflows. -/
def narrow? (sign : Int) (ds : List Char) : Option Int64 :=
  if ds.isEmpty then none else ds.foldlM (shiftIn sign) 0

/-- Reads an integer in 64 bits. A negative one is read downwards, so that the least one of all
is reached. A plus sign may stand in front. -/
def readInt64? : List Char → Option Int64
  | '-' :: ds => narrow? (-1) ds
  | '+' :: ds => narrow? 1 ds
  | ds => narrow? 1 ds

theorem value_cons (d : Char) (ds : List Char) :
    value (d :: ds) = digitValue d * 10 ^ ds.length + value ds := by
  simp [value, Nat.ofDigits_append, Nat.ofDigits_singleton]
  ring

/-- An overflow on the way is an overflow in the end, so nothing is lost by stopping at it. -/
theorem foldlM_shiftIn {sign : Int} (hsign : sign = 1 ∨ sign = -1) {ds : List Char}
    (hds : ∀ d ∈ ds, isDigit d = true) {acc : Int64} (hacc : 0 ≤ sign * acc.toInt) :
    ds.foldlM (shiftIn sign) acc = int64? (acc.toInt * 10 ^ ds.length + sign * value ds) := by
  induction ds generalizing acc with
  | nil =>
    have hfits : int64? acc.toInt = some acc := int64?_eq_some_iff.2 rfl
    simpa [value] using hfits.symm
  | cons d ds ih =>
    obtain ⟨hd, hds⟩ := List.forall_mem_cons.1 hds
    have hshifted : 0 ≤ sign * (acc.toInt * 10) := by
      have := le_behind hsign hacc 1 0
      simp only [pow_one, Nat.cast_zero, mul_zero, add_zero] at this
      omega
    have hadded : 0 ≤ sign * (acc.toInt * 10 + sign * digitValue d) := by
      have := le_behind hsign hshifted 0 (digitValue d)
      simp only [pow_zero, mul_one] at this
      omega
    have hbehind : acc.toInt * 10 ^ (d :: ds).length + sign * value (d :: ds) =
        acc.toInt * 10 * 10 ^ ds.length + sign * (digitValue d * 10 ^ ds.length + value ds : Nat) := by
      rw [value_cons, List.length_cons]
      ring
    have hrest : acc.toInt * 10 ^ (d :: ds).length + sign * value (d :: ds) =
        (acc.toInt * 10 + sign * digitValue d) * 10 ^ ds.length + sign * value ds := by
      rw [hbehind]
      push_cast
      ring
    rw [List.foldlM_cons, shiftIn, if_pos hd]
    cases hten : int64? (acc.toInt * 10) with
    | none =>
      rw [hbehind, int64?_eq_none_of_le hsign hshifted (le_behind hsign hshifted _ _) hten]
      rfl
    | some shifted =>
      have hvalue := int64?_eq_some_iff.1 hten
      rw [Option.bind_some, hvalue]
      cases hsum : int64? (acc.toInt * 10 + sign * digitValue d) with
      | none =>
        rw [hrest, int64?_eq_none_of_le hsign hadded (le_behind hsign hadded _ _) hsum]
        rfl
      | some next =>
        have hnext := int64?_eq_some_iff.1 hsum
        rw [hrest, ← hnext]
        exact ih hds (by rwa [hnext])

theorem narrow?_eq {sign : Int} (hsign : sign = 1 ∨ sign = -1) {ds : List Char} (hne : ds ≠ [])
    (hds : ∀ d ∈ ds, isDigit d = true) : narrow? sign ds = int64? (sign * value ds) := by
  have hfold : ds.foldlM (shiftIn sign) 0 =
      int64? ((0 : Int64).toInt * 10 ^ ds.length + sign * value ds) :=
    foldlM_shiftIn hsign hds (by simp)
  unfold narrow?
  rw [if_neg (by simpa using hne), hfold]
  simp

theorem ne_sign_of_isDigit {c : Char} (h : isDigit c = true) : c ≠ '-' ∧ c ≠ '+' := by
  constructor <;> rintro rfl <;> exact absurd h (by decide)

theorem unsigned_cases (cs : List Char) : (∃ ds, cs = '-' :: ds) ∨ unsigned cs = cs := by
  unfold unsigned
  split
  · exact .inl ⟨_, rfl⟩
  · exact .inr rfl

theorem unsigned_of_digits {ds : List Char} (hds : ∀ d ∈ ds, isDigit d = true) :
    unsigned ds = ds := by
  obtain ⟨rest, rfl⟩ | hplain := unsigned_cases ds
  · exact absurd rfl (ne_sign_of_isDigit (hds '-' List.mem_cons_self)).1
  · exact hplain

theorem spellsInteger_iff {cs : List Char} : spellsInteger cs = true ↔ ∃ v, Writes cs v := by
  have hdigits : spellsInteger cs = true ↔
      unsigned cs ≠ [] ∧ ∀ d ∈ unsigned cs, isDigit d = true := by
    unfold spellsInteger
    rw [Bool.and_eq_true, Bool.not_eq_true', List.isEmpty_eq_false_iff, List.all_eq_true]
  rw [hdigits]
  constructor
  · rintro ⟨hne, hds⟩
    obtain ⟨ds, rfl⟩ | hplain := unsigned_cases cs
    · exact ⟨_, .minus hne hds⟩
    · rw [hplain] at hne hds
      exact ⟨_, .plain hne hds⟩
  · rintro ⟨v, h⟩
    cases h with
    | plain hne hds =>
      rw [unsigned_of_digits hds]
      exact ⟨hne, hds⟩
    | minus hne hds => exact ⟨hne, hds⟩

theorem readInt64?_eq {cs : List Char} {v : Int} (h : Writes cs v) : readInt64? cs = int64? v := by
  cases h with
  | plain hne hds =>
    have hplain : readInt64? cs = narrow? 1 cs := by
      unfold readInt64?
      split
      · exact absurd rfl (ne_sign_of_isDigit (hds '-' List.mem_cons_self)).1
      · exact absurd rfl (ne_sign_of_isDigit (hds '+' List.mem_cons_self)).2
      · rfl
    rw [hplain, narrow?_eq (.inl rfl) hne hds, one_mul]
  | minus hne hds => rw [readInt64?, narrow?_eq (.inr rfl) hne hds, neg_one_mul]

end Text

namespace Matcher

/-- Reads an integer in two parts: the spelling is judged first, and then the value is read in 64
bits and compared with the bounds. -/
def readNarrow (min max : Int64) (span : String) : Verdict Cause Value :=
  if Text.spellsInteger span.toList then
    match Text.readInt64? span.toList with
    | none => .invalid (.tooWide span min max)
    | some n =>
      if n < min ∨ max < n then .invalid (.outOfBounds n min max) else .matched (.int n)
  else .noMatch

variable {min max : Int64} {span : String}

/-- Why an integer is refused: it lies outside the bounds, and perhaps outside 64 bits. -/
def outside (min max : Int64) (span : String) (v : Int) : Cause :=
  if -2 ^ 63 ≤ v ∧ v < 2 ^ 63 then .outOfBounds (Int64.ofInt v) min max else .tooWide span min max

theorem readInteger_of_writes {v : Int} (h : Text.Writes span.toList v) :
    readInteger min max span =
      if min.toInt ≤ v ∧ v ≤ max.toInt then .matched (.int (Int64.ofInt v))
      else .invalid (outside min max span v) := by
  unfold readInteger outside
  rw [Text.readInt?_eq_some_iff.2 h]
  dsimp only
  by_cases hfits : -2 ^ 63 ≤ v ∧ v < 2 ^ 63
  · have hexact := Int64.toInt_ofInt_of_le hfits.1 hfits.2
    rw [int64?_of_fits hfits, if_pos hfits]
    simp only [Int64.le_iff_toInt_le, hexact]
  · have hmin := min.le_toInt
    have hmax := max.toInt_lt
    have hout : ¬ (min.toInt ≤ v ∧ v ≤ max.toInt) := by omega
    rw [int64?_eq_none_iff.2 hfits, if_neg hout, if_neg hfits]

theorem readInteger_eq_readNarrow : readInteger min max span = readNarrow min max span := by
  cases hspelled : Text.spellsInteger span.toList with
  | true =>
    obtain ⟨v, hv⟩ := Text.spellsInteger_iff.1 hspelled
    unfold readInteger readNarrow
    rw [if_pos hspelled, Text.readInt64?_eq hv, Text.readInt?_eq_some_iff.2 hv]
    dsimp only
    cases int64? v with
    | none => rfl
    | some n =>
      dsimp only
      by_cases hin : min ≤ n ∧ n ≤ max
      · have hout : ¬ (n < min ∨ max < n) := by
          simp only [Int64.le_iff_toInt_le, Int64.lt_iff_toInt_lt] at hin ⊢
          omega
        rw [if_pos hin, if_neg hout]
      · have hout : n < min ∨ max < n := by
          simp only [Int64.le_iff_toInt_le, Int64.lt_iff_toInt_lt] at hin ⊢
          omega
        rw [if_neg hin, if_pos hout]
  | false =>
    have hno : ∀ v, ¬ Text.Writes span.toList v := fun v hv => by
      rw [Text.spellsInteger_iff.2 ⟨v, hv⟩] at hspelled
      cases hspelled
    unfold readNarrow
    rw [readInteger_eq_noMatch_iff.2 hno, hspelled]
    rfl

/-- An integer matcher, which judges the spelling first and then reads the digits in 64 bits, is
exact. It answers nothing to what is no integer. To an integer with any number of digits it answers
the value that they write if that lies between the bounds, and otherwise it refuses the span, with
the value where that fits 64 bits. Where the digits overflow, the value is out of all bounds. -/
theorem integers_are_read_exactly (min max : Int64) (span : String) :
    readInteger min max span = readNarrow min max span ∧
    (readInteger min max span = .noMatch ↔ ∀ v, ¬ Text.Writes span.toList v) ∧
    ∀ v, Text.Writes span.toList v →
      (∀ found, readInteger min max span = .matched found ↔
        ∃ n : Int64, found = .int n ∧ n.toInt = v ∧ min.toInt ≤ v ∧ v ≤ max.toInt) ∧
      (∀ cause, readInteger min max span = .invalid cause ↔
        ¬ (min.toInt ≤ v ∧ v ≤ max.toInt) ∧ cause = outside min max span v) ∧
      (Text.readInt64? span.toList = none → ¬ (min.toInt ≤ v ∧ v ≤ max.toInt)) := by
  refine ⟨readInteger_eq_readNarrow, readInteger_eq_noMatch_iff, fun v hv => ?_⟩
  have hmin := min.le_toInt
  have hmax := max.toInt_lt
  have hread := @readInteger_of_writes min max _ _ hv
  by_cases hin : min.toInt ≤ v ∧ v ≤ max.toInt
  · have hexact : (Int64.ofInt v).toInt = v := Int64.toInt_ofInt_of_le (by omega) (by omega)
    rw [if_pos hin] at hread
    refine ⟨fun found => ⟨fun h => ?_, ?_⟩, fun cause => ?_, fun hover => ?_⟩
    · rw [hread] at h
      cases h
      exact ⟨_, rfl, hexact, hin⟩
    · rintro ⟨n, rfl, rfl, -⟩
      rw [hread, Int64.ofInt_toInt]
    · simp [hread, hin]
    · rw [Text.readInt64?_eq hv, int64?_eq_none_iff] at hover
      omega
  · rw [if_neg hin] at hread
    refine ⟨fun found => ?_, fun cause => ?_, fun _ => hin⟩
    · simp only [hread, reduceCtorEq, false_iff]
      rintro ⟨n, -, -, hbounds⟩
      exact hin hbounds
    · rw [hread, Verdict.invalid.injEq, eq_comm]
      exact (and_iff_right hin).symm

/-- The least integer of 64 bits with zeros in front is read, and the one below it is refused. -/
theorem least_integer_is_read_and_the_next_is_not :
    readInteger Int64.minValue Int64.maxValue "-009223372036854775808" =
      .matched (.int Int64.minValue) ∧
    readInteger Int64.minValue Int64.maxValue "-9223372036854775809" =
      .invalid (.tooWide "-9223372036854775809" Int64.minValue Int64.maxValue) := by
  obtain ⟨-, -, hleast⟩ :=
    integers_are_read_exactly Int64.minValue Int64.maxValue "-009223372036854775808"
  obtain ⟨-, -, hnext⟩ :=
    integers_are_read_exactly Int64.minValue Int64.maxValue "-9223372036854775809"
  obtain ⟨hread, -⟩ := hleast (-9223372036854775808) (Text.readInt?_eq_some_iff.1 (by decide +kernel))
  obtain ⟨-, hrefused, -⟩ :=
    hnext (-9223372036854775809) (Text.readInt?_eq_some_iff.1 (by decide +kernel))
  exact ⟨(hread _).2 ⟨_, rfl, by decide⟩, (hrefused _).2 ⟨by decide, by decide +kernel⟩⟩

end Matcher
end Chatline
