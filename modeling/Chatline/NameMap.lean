/-! Finite maps from names to values, kept in ascending order of the names. Names compare by
code point. Two maps are equal as soon as they answer every look-up alike. -/
namespace Chatline

/-- A finite map with its entries in ascending order of their names. -/
structure NameMap (α : Type) where
  entries : List (String × α)
  ascending : entries.Pairwise (fun a b => a.1 < b.1)

namespace NameMap

variable {α : Type}

def empty : NameMap α := ⟨[], .nil⟩

instance : EmptyCollection (NameMap α) := ⟨empty⟩

instance : Inhabited (NameMap α) := ⟨empty⟩

instance [DecidableEq α] : DecidableEq (NameMap α) := fun a b =>
  if h : a.entries = b.entries then
    isTrue (by cases a; cases b; simpa using h)
  else isFalse (fun e => h (by rw [e]))

/-- The value stored under a name in a list of entries. -/
def find? (k : String) : List (String × α) → Option α
  | [] => none
  | (j, v) :: es => if j = k then some v else find? k es

def get? (m : NameMap α) (k : String) : Option α := find? k m.entries

def contains (m : NameMap α) (k : String) : Bool := (m.get? k).isSome

/-- The names, in ascending order. -/
def keys (m : NameMap α) : List String := m.entries.map Prod.fst

/-- The values, in the order of their names. -/
def values (m : NameMap α) : List α := m.entries.map Prod.snd

def size (m : NameMap α) : Nat := m.entries.length

/-- Stores `f` of the present value under `k`, at the place that keeps the order. -/
def place (k : String) (f : Option α → α) : List (String × α) → List (String × α)
  | [] => [(k, f none)]
  | (j, v) :: es =>
    if k < j then (k, f none) :: (j, v) :: es
    else if j = k then (k, f (some v)) :: es
    else (j, v) :: place k f es

theorem mem_place {k : String} {f : Option α → α} {es : List (String × α)} {e : String × α}
    (h : e ∈ place k f es) : e.1 = k ∨ e ∈ es := by
  induction es with
  | nil => simp [place] at h; simp [h]
  | cons a es ih =>
    obtain ⟨j, v⟩ := a
    simp only [place] at h
    split at h
    · rcases List.mem_cons.1 h with rfl | h
      · exact .inl rfl
      · exact .inr h
    · split at h
      · rcases List.mem_cons.1 h with rfl | h
        · exact .inl rfl
        · exact .inr (List.mem_cons_of_mem _ h)
      · rcases List.mem_cons.1 h with rfl | h
        · exact .inr List.mem_cons_self
        · rcases ih h with h | h
          · exact .inl h
          · exact .inr (List.mem_cons_of_mem _ h)

theorem place_ascending (k : String) (f : Option α → α) {es : List (String × α)}
    (h : es.Pairwise (fun a b => a.1 < b.1)) :
    (place k f es).Pairwise (fun a b => a.1 < b.1) := by
  induction es with
  | nil => simp [place]
  | cons a es ih =>
    obtain ⟨j, v⟩ := a
    obtain ⟨hj, hes⟩ := List.pairwise_cons.1 h
    simp only [place]
    split
    · rename_i hkj
      refine List.pairwise_cons.2 ⟨fun b hb => ?_, h⟩
      rcases List.mem_cons.1 hb with rfl | hb
      · exact hkj
      · exact String.lt_trans hkj (hj b hb)
    · rename_i hkj
      split
      · rename_i hjk
        subst hjk
        exact List.pairwise_cons.2 ⟨hj, hes⟩
      · rename_i hjk
        refine List.pairwise_cons.2 ⟨fun b hb => ?_, ih hes⟩
        rcases mem_place hb with hb | hb
        · have hle : j ≤ k := String.not_lt.1 hkj
          rw [hb]
          rcases Decidable.em (j < k) with hlt | hlt
          · exact hlt
          · exact absurd (String.le_antisymm hle (String.not_lt.1 hlt)) hjk
        · exact hj b hb

/-- Stores `f` of the present value under `k`. -/
def alter (m : NameMap α) (k : String) (f : Option α → α) : NameMap α :=
  ⟨place k f m.entries, place_ascending k f m.ascending⟩

/-- Stores a value under a name, in the place of any value already there. -/
def insert (m : NameMap α) (k : String) (v : α) : NameMap α := m.alter k fun _ => v

def erase (m : NameMap α) (k : String) : NameMap α :=
  ⟨m.entries.filter (fun e => e.1 != k), m.ascending.filter _⟩

/-- The map with these entries; of two with one name the later counts. -/
def ofList (es : List (String × α)) : NameMap α :=
  es.foldl (fun m e => m.insert e.1 e.2) empty

/-- The names in ascending order, each once. -/
def sortedNames (names : List String) : List String :=
  (ofList (names.map fun n => (n, ()))).keys

/-- Adds the entries of `b` to `a`, joining the values that share a name. -/
def unionWith (join : α → α → α) (a b : NameMap α) : NameMap α :=
  b.entries.foldl (fun m e => m.alter e.1 fun
    | none => e.2
    | some v => join v e.2) a

theorem find?_eq_none_of_lt {k : String} {es : List (String × α)}
    (h : ∀ e ∈ es, k < e.1) : find? k es = none := by
  induction es with
  | nil => rfl
  | cons a es ih =>
    obtain ⟨j, v⟩ := a
    have hkj : k < j := h (j, v) List.mem_cons_self
    simp only [find?]
    rw [if_neg (String.ne_of_lt hkj).symm]
    exact ih fun e he => h e (List.mem_cons_of_mem _ he)

theorem find?_place (k : String) (f : Option α → α) (i : String) {es : List (String × α)}
    (h : es.Pairwise (fun a b => a.1 < b.1)) :
    find? i (place k f es) = if i = k then some (f (find? k es)) else find? i es := by
  induction es with
  | nil =>
    simp only [place, find?]
    by_cases hik : i = k
    · simp [hik]
    · simp [hik, Ne.symm hik]
  | cons a es ih =>
    obtain ⟨j, v⟩ := a
    obtain ⟨hj, hes⟩ := List.pairwise_cons.1 h
    simp only [place]
    split
    · rename_i hkj
      have hk : find? k ((j, v) :: es) = none := by
        refine find?_eq_none_of_lt fun e he => ?_
        rcases List.mem_cons.1 he with rfl | he
        · exact hkj
        · exact String.lt_trans hkj (hj e he)
      rw [hk]
      by_cases hik : i = k
      · simp [find?, hik]
      · simp [find?, hik, Ne.symm hik]
    · split
      · rename_i hjk
        subst hjk
        by_cases hij : i = j
        · simp [find?, hij]
        · simp [find?, hij, Ne.symm hij]
      · rename_i hjk
        by_cases hik : i = k
        · subst hik
          simp [find?, hjk, ih hes]
        · simp [find?, hik, ih hes]

theorem get?_alter (m : NameMap α) (k : String) (f : Option α → α) (i : String) :
    (m.alter k f).get? i = if i = k then some (f (m.get? k)) else m.get? i :=
  find?_place k f i m.ascending

theorem get?_insert (m : NameMap α) (k : String) (v : α) (i : String) :
    (m.insert k v).get? i = if i = k then some v else m.get? i :=
  get?_alter m k _ i

@[simp] theorem get?_empty (k : String) : (empty : NameMap α).get? k = none := rfl

theorem get?_erase (m : NameMap α) (k i : String) :
    (m.erase k).get? i = if i = k then none else m.get? i := by
  simp only [get?, erase]
  induction m.entries with
  | nil => simp [find?]
  | cons a es ih =>
    obtain ⟨j, v⟩ := a
    by_cases hjk : j = k
    · subst hjk
      simp only [bne_self_eq_false, Bool.false_eq_true, not_false_eq_true, List.filter_cons_of_neg, ih]
      by_cases hij : i = j
      · simp [hij]
      · simp [find?, hij, Ne.symm hij]
    · have hb : (j != k) = true := by simpa using hjk
      rw [List.filter_cons_of_pos (by simpa using hjk)]
      simp only [find?, ih]
      by_cases hik : i = k
      · subst hik; simp [hjk]
      · simp [hik]

/-- Two lists of entries in ascending order that answer every look-up alike are equal. -/
theorem entries_ext {es fs : List (String × α)} (he : es.Pairwise (fun a b => a.1 < b.1))
    (hf : fs.Pairwise (fun a b => a.1 < b.1)) (h : ∀ k, find? k es = find? k fs) : es = fs := by
  induction es generalizing fs with
  | nil =>
    cases fs with
    | nil => rfl
    | cons b fs =>
      obtain ⟨j, w⟩ := b
      have := h j
      simp [find?] at this
  | cons a es ih =>
    obtain ⟨i, v⟩ := a
    obtain ⟨hi, hes⟩ := List.pairwise_cons.1 he
    cases fs with
    | nil =>
      have := h i
      simp [find?] at this
    | cons b fs =>
      obtain ⟨j, w⟩ := b
      obtain ⟨hj, hfs⟩ := List.pairwise_cons.1 hf
      have hnil : ∀ {k : String} {gs : List (String × α)}, (∀ e ∈ gs, k < e.1) → find? k gs = none :=
        fun hk => find?_eq_none_of_lt hk
      have hij : i = j := by
        have h1 := h i
        have h2 := h j
        simp only [find?, if_true] at h1 h2
        by_cases hij : i = j
        · exact hij
        · exfalso
          rw [if_neg (Ne.symm hij)] at h1
          rw [if_neg hij] at h2
          have hlt1 : ¬ i < j := fun hlt => by
            rw [hnil (fun e he => String.lt_trans hlt (hj e he))] at h1
            simp at h1
          have hlt2 : ¬ j < i := fun hlt => by
            rw [hnil (fun e he => String.lt_trans hlt (hi e he))] at h2
            simp at h2
          exact hij (String.le_antisymm (String.not_lt.1 hlt2) (String.not_lt.1 hlt1))
      subst hij
      have hvw : v = w := by
        have := h i
        simpa [find?] using this
      subst hvw
      rw [ih hes hfs]
      intro k
      by_cases hki : i = k
      · subst hki
        rw [hnil hi, hnil hj]
      · have := h k
        simpa [find?, hki] using this

@[ext] theorem ext_get? {a b : NameMap α} (h : ∀ k, a.get? k = b.get? k) : a = b := by
  cases a with
  | mk es he =>
    cases b with
    | mk fs hf =>
      have : es = fs := entries_ext he hf h
      subst this
      rfl

end NameMap
end Chatline
