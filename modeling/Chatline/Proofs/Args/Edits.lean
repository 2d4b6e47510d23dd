import Chatline.Proofs.Args

/-! Arguments as they are put together: what any run of edits leaves, and merging as concatenation,
name by name. A reading that is still to be replaced may wait while other names are recorded. -/
namespace Chatline.Args

/-- A change to arguments. -/
inductive Edit where
  | seed (name : String)
  | push (name : String) (r : Reading)
  | replaceLast (name : String) (r : Reading)
  | merge (other : Args)

def edit (a : Args) : Edit → Args
  | .seed name => a.seed name
  | .push name r => a.push name r
  | .replaceLast name r => a.replaceLast name r
  | .merge other => a.merge other

/-- The arguments after these changes, one after the other. -/
def edited (a : Args) (es : List Edit) : Args := es.foldl edit a

/-- Makes a name present and changes the readings under it. -/
def revise (a : Args) (name : String) (change : List Reading → List Reading) : Args :=
  a.alter name fun rs => change (rs.getD [])

namespace Edit

/-- The names that are present after the change. -/
def names : Edit → List String
  | seed name => [name]
  | push name _ => [name]
  | replaceLast name _ => [name]
  | merge other => other.keys

/-- The change makes a name present, or adds a reading under a name other than this one. -/
def Aside (name : String) : Edit → Prop
  | seed _ => True
  | push other _ => other ≠ name
  | replaceLast _ _ => False
  | merge _ => False

end Edit

section
variable (a b : Args) (name k : String) (r : Reading)

theorem mem_keys_iff : k ∈ a.keys ↔ a.contains k = true := NameMap.mem_keys

theorem mem_keys_edit (e : Edit) : k ∈ (a.edit e).keys ↔ k ∈ a.keys ∨ k ∈ e.names := by
  cases e with
  | seed name => simp [mem_keys_iff, edit, Edit.names, or_comm]
  | push name r => simp [mem_keys_iff, edit, Edit.names, or_comm]
  | replaceLast name r => simp [mem_keys_iff, edit, Edit.names, or_comm]
  | merge other => simp [mem_keys_iff, edit, Edit.names]

theorem mem_keys_edited (es : List Edit) :
    k ∈ (a.edited es).keys ↔ k ∈ a.keys ∨ ∃ e ∈ es, k ∈ e.names := by
  induction es generalizing a with
  | nil => simp [edited]
  | cons e es ih =>
    have hmore := ih (a.edit e)
    rw [mem_keys_edit] at hmore
    simpa [edited, or_assoc] using hmore

variable {a name} (change : List Reading → List Reading)

theorem get?_revise : (a.revise name change).get? k =
    if k = name then some (change (a.readings k)) else a.get? k := by
  unfold revise readings
  rw [NameMap.get?_alter]
  by_cases hk : k = name <;> simp [hk]

/-- The readings of a name can be changed before a change aside is made. -/
theorem revise_edit {e : Edit} (he : e.Aside name) :
    (a.edit e).revise name change = (a.revise name change).edit e := by
  apply NameMap.ext_get?
  intro k
  cases e with
  | seed other =>
    -- making a name present keeps its readings, so the two may have the same name
    change ((a.revise other id).revise name change).get? k =
      ((a.revise name change).revise other id).get? k
    simp only [get?_revise, readings]
    by_cases hk : k = name
    · by_cases hother : name = other <;> simp [hk, hother]
    · simp [hk]
  | push other r =>
    have hne : name ≠ other := fun h => he h.symm
    change ((a.revise other (· ++ [r])).revise name change).get? k =
      ((a.revise name change).revise other (· ++ [r])).get? k
    simp only [get?_revise, readings]
    by_cases hk : k = name
    · simp [hk, hne]
    · simp [hk]
  | replaceLast _ _ => exact he.elim
  | merge _ => exact he.elim

theorem revise_edited {es : List Edit} (hes : ∀ e ∈ es, e.Aside name) :
    (a.edited es).revise name change = (a.revise name change).edited es := by
  induction es generalizing a with
  | nil => rfl
  | cons e es ih =>
    obtain ⟨he, hes⟩ := List.forall_mem_cons.1 hes
    have hmore := ih (a := a.edit e) hes
    rw [revise_edit change he] at hmore
    exact hmore

variable {es : List Edit} (hes : ∀ e ∈ es, e.Aside name) (r' : Reading)
include hes

theorem push_edited : (a.edited es).push name r = (a.push name r).edited es :=
  revise_edited (· ++ [r]) hes

/-- A reading that is replaced after changes aside might as well not have been recorded. -/
theorem replaceLast_edited_push :
    ((a.push name r).edited es).replaceLast name r' = (a.push name r').edited es := by
  have hswap : ((a.push name r).edited es).replaceLast name r' =
      ((a.push name r).replaceLast name r').edited es :=
    revise_edited (fun rs => rs.dropLast ++ [r']) hes
  rw [hswap, replaceLast_push]

end

/-- Arguments hold their names in ascending order, each once, however they came about. Merging joins
the names and appends the readings name by name: it is associative, the empty arguments are neutral,
and adding a reading is merging it alone. Making a name present adds no reading. A reading that is
replaced, changes aside in between, leaves what its replacement alone would have left. -/
theorem merging_concatenates (a b c : Args) (name : String) :
    (∀ es, (a.edited es).keys.Pairwise (· < ·) ∧
      ∀ k, k ∈ (a.edited es).keys ↔ k ∈ a.keys ∨ ∃ e ∈ es, k ∈ e.names) ∧
    (∀ k, (k ∈ (a.merge b).keys ↔ k ∈ a.keys ∨ k ∈ b.keys) ∧
      (a.merge b).readings k = a.readings k ++ b.readings k) ∧
    (a.merge b).merge c = a.merge (b.merge c) ∧ a.merge ∅ = a ∧ (∅ : Args).merge a = a ∧
    (∀ r, a.push name r = a.merge (single name r)) ∧
    (∀ k, (a.seed name).readings k = a.readings k) ∧
    ∀ es r r', (∀ e ∈ es, e.Aside name) →
      ((a.push name r).edited es).replaceLast name r' = (a.push name r').edited es ∧
      ((a.push name r).edited es).replaceLast name r' = (a.edited es).push name r' := by
  refine ⟨fun es => ⟨NameMap.keys_ascending _, fun k => mem_keys_edited a k es⟩, fun k => ⟨?_, ?_⟩,
    merge_assoc a b c, merge_empty a, empty_merge a, fun r => (merge_single a name r).symm,
    fun k => readings_seed a name k, fun es r r' hes => ⟨?_, ?_⟩⟩
  · exact mem_keys_edit a k (.merge b)
  · exact readings_merge a b k
  · exact replaceLast_edited_push r hes r'
  · rw [push_edited r' hes]
    exact replaceLast_edited_push r hes r'

/-- A text that grows by a word while its own name is made present again and a number is read. -/
theorem text_grows_beside_a_number :
    (∀ e ∈ [Edit.seed "text", .push "number" ⟨.int 3, .integer⟩], e.Aside "text") ∧
    ((((∅ : Args).push "text" ⟨.text "a", .text⟩).edited
        [.seed "text", .push "number" ⟨.int 3, .integer⟩]).replaceLast "text"
          ⟨.text "a b", .text⟩).entries =
      [("number", [⟨.int 3, .integer⟩]), ("text", [⟨.text "a b", .text⟩])] := by
  have haside : ∀ e ∈ [Edit.seed "text", .push "number" ⟨.int 3, .integer⟩], e.Aside "text" := by
    simp [Edit.Aside]
  obtain ⟨-, -, -, -, -, -, -, hreplaced⟩ := merging_concatenates ∅ ∅ ∅ "text"
  refine ⟨haside, ?_⟩
  rw [(hreplaced _ ⟨.text "a", .text⟩ ⟨.text "a b", .text⟩ haside).1]
  decide

end Chatline.Args
