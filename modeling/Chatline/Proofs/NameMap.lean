import Chatline.NameMap
import Mathlib.Data.List.Perm.Basic
import Mathlib.Logic.Function.Basic

/-! Finite maps as functions: look-ups after each operation, and the names that are present. -/
namespace Chatline

namespace NameMap

variable {α : Type}

theorem find?_isSome_iff {k : String} {es : List (String × α)} :
    (find? k es).isSome ↔ ∃ e ∈ es, e.1 = k := by
  induction es with
  | nil => simp [find?]
  | cons e es ih =>
    obtain ⟨j, v⟩ := e
    by_cases hjk : j = k
    · simp [find?, hjk]
    · simp [find?, hjk, ih]

theorem get?_foldl_alter (join : α → α → α) (k : String) {es : List (String × α)}
    (h : es.Pairwise (fun a b => a.1 < b.1)) (m : NameMap α) :
    (es.foldl (fun m e => m.alter e.1 fun
      | none => e.2
      | some v => join v e.2) m).get? k = Option.merge join (m.get? k) (find? k es) := by
  induction es generalizing m with
  | nil => simp [find?]
  | cons e es ih =>
    obtain ⟨j, v⟩ := e
    obtain ⟨hj, hes⟩ := List.pairwise_cons.1 h
    rw [List.foldl_cons, ih hes, get?_alter]
    by_cases hkj : k = j
    · subst hkj
      have hnone : find? k es = none := find?_eq_none_of_lt hj
      cases hm : m.get? k <;> simp [find?, hnone]
    · simp [find?, hkj, Ne.symm hkj]

theorem get?_unionWith (join : α → α → α) (a b : NameMap α) (k : String) :
    (a.unionWith join b).get? k = Option.merge join (a.get? k) (b.get? k) :=
  get?_foldl_alter join k b.ascending a

theorem get?_insert_eq_update (m : NameMap α) (k : String) (v : α) :
    (m.insert k v).get? = Function.update m.get? k (some v) := by
  funext i
  rw [get?_insert, Function.update_apply]

theorem get?_erase_eq_update (m : NameMap α) (k : String) :
    (m.erase k).get? = Function.update m.get? k none := by
  funext i
  rw [get?_erase, Function.update_apply]

theorem mem_keys {m : NameMap α} {k : String} : k ∈ m.keys ↔ (m.get? k).isSome := by
  rw [get?, find?_isSome_iff, keys, List.mem_map]

theorem keys_ascending (m : NameMap α) : m.keys.Pairwise (· < ·) := List.pairwise_map.2 m.ascending

theorem keys_nodup (m : NameMap α) : m.keys.Nodup :=
  m.keys_ascending.imp fun h => String.ne_of_lt h

theorem length_keys (m : NameMap α) : m.keys.length = m.size := List.length_map _

theorem get?_foldl_insert (k : String) {es : List (String × α)} (h : (es.map Prod.fst).Nodup)
    (m : NameMap α) :
    (es.foldl (fun m e => m.insert e.1 e.2) m).get? k = (find? k es).or (m.get? k) := by
  induction es generalizing m with
  | nil => rfl
  | cons e es ih =>
    obtain ⟨j, v⟩ := e
    obtain ⟨hj, hes⟩ := List.nodup_cons.1 h
    rw [List.foldl_cons, ih hes, get?_insert]
    by_cases hkj : k = j
    · subst hkj
      have hnone : find? k es = none := by
        rw [← Option.not_isSome_iff_eq_none, find?_isSome_iff, ← List.mem_map]
        exact hj
      simp [find?, hnone]
    · simp [find?, hkj, Ne.symm hkj]

theorem get?_ofList (k : String) {es : List (String × α)} (h : (es.map Prod.fst).Nodup) :
    (ofList es).get? k = find? k es := by
  have hfold := get?_foldl_insert k h empty
  rw [get?_empty, Option.or_none] at hfold
  exact hfold

theorem find?_of_mem {es : List (String × α)} (h : (es.map Prod.fst).Nodup) {e : String × α}
    (he : e ∈ es) : find? e.1 es = some e.2 := by
  induction es with
  | nil => cases he
  | cons e' es ih =>
    obtain ⟨j, v⟩ := e'
    obtain ⟨hj, hes⟩ := List.nodup_cons.1 h
    rcases List.mem_cons.1 he with rfl | he
    · simp [find?]
    · have hne : j ≠ e.1 := fun heq => hj (List.mem_map.2 ⟨e, he, heq.symm⟩)
      rw [find?, if_neg hne, ih hes he]

theorem get?_ofList_of_mem {es : List (String × α)} (h : (es.map Prod.fst).Nodup) {k : String}
    {v : α} (he : (k, v) ∈ es) : (ofList es).get? k = some v :=
  (get?_ofList k h).trans (find?_of_mem h he)

/-- Entries that are in order already are those of the map that is made from them. -/
theorem ofList_eq_mk {es : List (String × α)} (h : es.Pairwise (fun a b => a.1 < b.1)) :
    ofList es = ⟨es, h⟩ :=
  ext_get? fun k => get?_ofList k (keys_nodup ⟨es, h⟩)

theorem mem_keys_foldl_insert (es : List (String × α)) (m : NameMap α) (k : String) :
    k ∈ (es.foldl (fun m e => m.insert e.1 e.2) m).keys ↔ k ∈ es.map Prod.fst ∨ k ∈ m.keys := by
  induction es generalizing m with
  | nil => simp
  | cons e es ih =>
    have hinsert : k ∈ (m.insert e.1 e.2).keys ↔ k = e.1 ∨ k ∈ m.keys := by
      rw [mem_keys, mem_keys, get?_insert]
      by_cases hk : k = e.1 <;> simp [hk]
    rw [List.foldl_cons, ih, hinsert, List.map_cons, List.mem_cons, or_left_comm, or_assoc]

theorem mem_sortedNames {names : List String} {name : String} :
    name ∈ sortedNames names ↔ name ∈ names := by
  have hfold := mem_keys_foldl_insert (names.map fun n => (n, ())) empty name
  have hempty : (empty : NameMap Unit).keys = [] := rfl
  rw [hempty] at hfold
  unfold sortedNames ofList
  simpa using hfold

theorem sortedNames_ascending (names : List String) : (sortedNames names).Pairwise (· < ·) :=
  keys_ascending _

instance : RightCommutative fun (m : NameMap Unit) (e : String × Unit) => m.insert e.1 e.2 where
  right_comm m a b := by
    apply ext_get?
    intro k
    simp only [get?_insert]
    split <;> split <;> rfl

theorem sortedNames_of_perm {names names' : List String} (h : names.Perm names') :
    sortedNames names = sortedNames names' := by
  have hmap := h.map fun n => (n, ())
  have hfold := hmap.foldl_eq (f := fun (m : NameMap Unit) e => m.insert e.1 e.2) empty
  exact congrArg keys hfold

theorem sortedNames_of_ascending {names : List String} (h : names.Pairwise (· < ·)) :
    sortedNames names = names := by
  have hpairs : (names.map fun n => (n, ())).Pairwise (fun a b => a.1 < b.1) :=
    List.pairwise_map.2 h
  unfold sortedNames keys
  rw [ofList_eq_mk hpairs, List.map_map]
  exact List.map_id names

end NameMap
end Chatline
