import Chatline.Args
import Chatline.Proofs.NameMap
import Mathlib.Tactic.Tauto

/-! Arguments through their two observers: which names are present, and the readings under each.
Two collections of arguments that agree in both are equal. -/
namespace Chatline

/-- Readings with the names that they are recorded under, in the order in which they were read. -/
abbrev Yield := List (String × Reading)

/-- The readings of a yield under one name. -/
def Yield.under (name : String) (ys : Yield) : List Reading :=
  (ys.filter fun y => y.1 = name).map Prod.snd

@[simp] theorem Yield.under_nil (name : String) : Yield.under name [] = [] := rfl

@[simp] theorem Yield.under_append (name : String) (xs ys : Yield) :
    Yield.under name (xs ++ ys) = Yield.under name xs ++ Yield.under name ys := by
  simp [Yield.under]

namespace Args

/-- Adds the readings of a yield, one after the other. -/
def record (a : Args) (ys : Yield) : Args := ys.foldl (fun a y => a.push y.1 y.2) a

theorem ext_readings {a b : Args} (hc : ∀ k, a.contains k = b.contains k)
    (hr : ∀ k, a.readings k = b.readings k) : a = b := by
  apply NameMap.ext_get?
  intro k
  have hck := hc k
  have hrk := hr k
  simp only [NameMap.contains, readings] at hck hrk
  cases ha : a.get? k <;> cases hb : b.get? k <;> simp_all

theorem get?_eq (a : Args) (k : String) :
    a.get? k = if a.contains k then some (a.readings k) else none := by
  cases h : a.get? k <;> simp [NameMap.contains, readings, h]

@[simp] theorem contains_empty (k : String) : (∅ : Args).contains k = false := rfl

@[simp] theorem readings_empty (k : String) : (∅ : Args).readings k = [] := rfl

section
variable (a b : Args) (name k : String) (r r' : Reading)

@[simp] theorem contains_seed : (a.seed name).contains k = (decide (k = name) || a.contains k) := by
  by_cases h : k = name <;> simp [NameMap.contains, seed, NameMap.get?_alter, h]

@[simp] theorem readings_seed : (a.seed name).readings k = a.readings k := by
  by_cases h : k = name <;> simp [readings, seed, NameMap.get?_alter, h]

@[simp] theorem contains_push :
    (a.push name r).contains k = (decide (k = name) || a.contains k) := by
  by_cases h : k = name <;> simp [NameMap.contains, push, NameMap.get?_alter, h]

theorem readings_push : (a.push name r).readings k =
    if k = name then a.readings k ++ [r] else a.readings k := by
  by_cases h : k = name <;> simp [readings, push, NameMap.get?_alter, h]

@[simp] theorem contains_replaceLast :
    (a.replaceLast name r).contains k = (decide (k = name) || a.contains k) := by
  by_cases h : k = name <;> simp [NameMap.contains, replaceLast, NameMap.get?_alter, h]

theorem readings_replaceLast : (a.replaceLast name r).readings k =
    if k = name then (a.readings k).dropLast ++ [r] else a.readings k := by
  by_cases h : k = name <;> simp [readings, replaceLast, NameMap.get?_alter, h]

@[simp] theorem contains_merge : (a.merge b).contains k = (a.contains k || b.contains k) := by
  simp only [NameMap.contains, merge, NameMap.get?_unionWith]
  cases a.get? k <;> cases b.get? k <;> simp

@[simp] theorem readings_merge : (a.merge b).readings k = a.readings k ++ b.readings k := by
  simp only [readings, merge, NameMap.get?_unionWith]
  cases a.get? k <;> cases b.get? k <;> simp

theorem replaceLast_push : (a.push name r).replaceLast name r' = a.push name r' := by
  apply ext_readings
  · simp
  · intro k
    by_cases h : k = name <;> simp [readings_replaceLast, readings_push, h]

theorem merge_single : a.merge (single name r) = a.push name r := by
  apply ext_readings
  · intro k
    simp [single, Bool.or_comm]
  · intro k
    by_cases h : k = name <;> simp [single, readings_push, h]

end

@[simp] theorem merge_empty (a : Args) : a.merge ∅ = a := by
  apply ext_readings <;> simp

theorem empty_merge (a : Args) : (∅ : Args).merge a = a := by
  apply ext_readings <;> simp

theorem merge_assoc (a b c : Args) : (a.merge b).merge c = a.merge (b.merge c) := by
  apply ext_readings <;> simp [Bool.or_assoc]

theorem contains_foldl_seed (names : List String) (a : Args) (k : String) :
    (names.foldl seed a).contains k = (decide (k ∈ names) || a.contains k) := by
  induction names generalizing a with
  | nil => simp
  | cons n names ih =>
    rw [List.foldl_cons, ih]
    by_cases hk : k = n <;> simp [hk]

theorem readings_foldl_seed (names : List String) (a : Args) (k : String) :
    (names.foldl seed a).readings k = a.readings k := by
  induction names generalizing a with
  | nil => rfl
  | cons n names ih => rw [List.foldl_cons, ih, readings_seed]

@[simp] theorem contains_ofNames (names : List String) (k : String) :
    (ofNames names).contains k = decide (k ∈ names) := by
  rw [ofNames, contains_foldl_seed, contains_empty, Bool.or_false]

@[simp] theorem readings_ofNames (names : List String) (k : String) :
    (ofNames names).readings k = [] := by
  rw [ofNames, readings_foldl_seed, readings_empty]

@[simp] theorem record_nil (a : Args) : a.record [] = a := rfl

theorem record_append (a : Args) (xs ys : Yield) : a.record (xs ++ ys) = (a.record xs).record ys :=
  List.foldl_append

theorem record_singleton (a : Args) (name : String) (r : Reading) :
    a.record [(name, r)] = a.push name r := rfl

@[simp] theorem readings_record (a : Args) (ys : Yield) (k : String) :
    (a.record ys).readings k = a.readings k ++ Yield.under k ys := by
  induction ys generalizing a with
  | nil => simp
  | cons y ys ih =>
    obtain ⟨n, r⟩ := y
    change ((a.push n r).record ys).readings k = _
    rw [ih, readings_push]
    by_cases h : k = n
    · simp [Yield.under, h]
    · simp [Yield.under, h, Ne.symm h]

theorem contains_record {a : Args} {ys : Yield} {k : String} :
    (a.record ys).contains k ↔ a.contains k ∨ ∃ y ∈ ys, y.1 = k := by
  induction ys generalizing a with
  | nil => simp
  | cons y ys ih =>
    change ((a.push y.1 y.2).record ys).contains k ↔ _
    rw [ih, contains_push]
    simp only [Bool.or_eq_true, decide_eq_true_eq, List.mem_cons, exists_eq_or_imp]
    rw [eq_comm (a := k)]
    tauto

/-- Merging what was recorded over names that are present already is recording it here. -/
theorem merge_record {a : Args} {names : List String} (h : ∀ n ∈ names, a.contains n)
    (ys : Yield) : a.merge ((ofNames names).record ys) = a.record ys := by
  apply ext_readings
  · intro k
    rw [Bool.eq_iff_iff, contains_merge, Bool.or_eq_true, contains_record, contains_record,
      contains_ofNames, decide_eq_true_eq]
    have hk := h k
    tauto
  · simp

end Args
end Chatline
