import Chatline.Proofs.NameMap
import Chatline.Source

/-! The operations on the loaded commands against a partial function from ids to commands: what
each of them may answer and leave behind, and whole runs of them over sources that change. -/
namespace Chatline

variable {σ : Type}

/-- The loaded commands as a partial function of the id. -/
abbrev Loaded (σ : Type) := String → Option (Command σ)

namespace Loaded

/-- Exactly `n` ids have a command. -/
def HasSize (m : Loaded σ) (n : Nat) : Prop :=
  ∃ ids : List String, ids.Nodup ∧ ids.length = n ∧ ∀ id, id ∈ ids ↔ (m id).isSome

/-- Those of the ids that have no command. -/
def missing (m : Loaded σ) (ids : List String) : List String := ids.filter fun id => (m id).isNone

theorem HasSize.unique {m : Loaded σ} {n k : Nat} (hn : m.HasSize n)
    (hk : m.HasSize k) : n = k := by
  obtain ⟨ids, hids, rfl, hmem⟩ := hn
  obtain ⟨ids', hids', rfl, hmem'⟩ := hk
  have hperm : ids.Perm ids' :=
    (List.perm_ext_iff_of_nodup hids hids').2 fun id => (hmem id).trans (hmem' id).symm
  exact hperm.length_eq

end Loaded

namespace Supply

def Distinct (s : Supply σ) : Prop := ∀ ids, s.ids = .ok ids → ids.Nodup

def Serves (s : Supply σ) (ids : List String) : Prop := ∀ id ∈ ids, ∃ c, s.load id = .ok c

/-- The first of the ids that cannot be loaded fails with `e`. -/
def FailsWith (s : Supply σ) (ids : List String) (e : Error) : Prop :=
  ∃ before id after, ids = before ++ id :: after ∧ s.Serves before ∧ s.load id = .error e

/-- A fresh command for each of the ids that can be loaded. -/
def fresh (s : Supply σ) (ids : List String) : Loaded σ :=
  fun id => if id ∈ ids then (s.load id).toOption else none

theorem hasSize_fresh {s : Supply σ} {ids : List String} (hids : ids.Nodup) (h : s.Serves ids) :
    (s.fresh ids).HasSize ids.length := by
  refine ⟨ids, hids, rfl, fun id => ?_⟩
  unfold Supply.fresh
  by_cases hmem : id ∈ ids
  · obtain ⟨c, hc⟩ := h id hmem
    simp [hmem, hc, Except.toOption]
  · simp [hmem]

end Supply

namespace Registry

def loaded (r : Registry σ) : Loaded σ := r.get?

/-- The answer that an operation has to give over the source `s` when the commands `m` are
loaded, and the commands that have to be loaded afterwards. -/
inductive Step (s : Supply σ) (m : Loaded σ) :
    Operation → Except Error (Option Nat) → Loaded σ → Prop where
  | load {id c} (absent : m id = none) (made : s.load id = .ok c) :
      Step s m (.load id) (.ok none) (Function.update m id (some c))
  | loadPresent {id c} (present : m id = some c) :
      Step s m (.load id) (.error (.duplicateCommand id)) m
  | loadFailed {id e} (absent : m id = none) (failed : s.load id = .error e) :
      Step s m (.load id) (.error e) m
  | unload {id c} (present : m id = some c) :
      Step s m (.unload id) (.ok none) (Function.update m id none)
  | unloadAbsent {id} (absent : m id = none) :
      Step s m (.unload id) (.error (.unknownCommand id)) m
  | reload {id old c} (present : m id = some old) (made : s.load id = .ok c) :
      Step s m (.reload id) (.ok none) (Function.update m id (some c))
  | reloadAbsent {id} (absent : m id = none) :
      Step s m (.reload id) (.error (.unknownCommand id)) m
  | reloadFailed {id old e} (present : m id = some old) (failed : s.load id = .error e) :
      Step s m (.reload id) (.error e) m
  | loadAll {ids} (listed : s.ids = .ok ids) (served : s.Serves (m.missing ids)) :
      Step s m .loadAll (.ok (some (m.missing ids).length)) fun id => (m id).or (s.fresh ids id)
  | loadAllUnlisted {e} (unlisted : s.ids = .error e) : Step s m .loadAll (.error e) m
  | loadAllFailed {ids e} (listed : s.ids = .ok ids) (failed : s.FailsWith (m.missing ids) e) :
      Step s m .loadAll (.error e) m
  | unloadAll {n} (size : m.HasSize n) : Step s m .unloadAll (.ok (some n)) fun _ => none
  | reloadAll {ids} (listed : s.ids = .ok ids) (served : s.Serves ids) :
      Step s m .reloadAll (.ok (some ids.length)) (s.fresh ids)
  | reloadAllUnlisted {e} (unlisted : s.ids = .error e) : Step s m .reloadAll (.error e) m
  | reloadAllFailed {ids e} (listed : s.ids = .ok ids) (failed : s.FailsWith ids e) :
      Step s m .reloadAll (.error e) m

/-- An operation as it was carried out: the source at that moment, the commands loaded before it,
its answer, and the commands loaded after it. -/
structure Record (σ : Type) where
  supply : Supply σ
  operation : Operation
  before : Registry σ
  answer : Except Error (Option Nat)
  after : Registry σ

/-- Carries out operations one after the other, each over the source as it then is. -/
def run (r : Registry σ) : List (Supply σ × Operation) → List (Record σ)
  | [] => []
  | (s, op) :: ops =>
    let result := r.perform s op
    { supply := s, operation := op, before := r, answer := result.1, after := result.2 } ::
      run result.2 ops

/-- Records of the operations, each of which goes on from where the one before it ended, and
takes the step that it has to take. -/
inductive Refines : Registry σ → List (Supply σ × Operation) → List (Record σ) → Prop where
  | nil (r : Registry σ) : Refines r [] []
  | cons {r r' : Registry σ} {s op answer ops records} (step : Step s r.loaded op answer r'.loaded)
      (later : Refines r' ops records) :
      Refines r ((s, op) :: ops)
        ({ supply := s, operation := op, before := r, answer, after := r' } :: records)

section
variable {s : Supply σ} {r : Registry σ} {ids : List String} {cs : List (String × Command σ)}

theorem fetch_eq_ok (h : fetch s ids = .ok cs) :
    cs.map Prod.fst = ids ∧ ∀ e ∈ cs, s.load e.1 = .ok e.2 := by
  induction ids generalizing cs with
  | nil =>
    cases h
    simp
  | cons id ids ih =>
    unfold fetch at h
    cases hc : s.load id with
    | error e =>
      rw [hc] at h
      cases h
    | ok c =>
      cases hcs : fetch s ids with
      | error e =>
        rw [hc, hcs] at h
        cases h
      | ok cs' =>
        rw [hc, hcs] at h
        cases h
        obtain ⟨hids, hload⟩ := ih hcs
        exact ⟨by rw [List.map_cons, hids], List.forall_mem_cons.2 ⟨hc, hload⟩⟩

theorem fetch_eq_error {e : Error} (h : fetch s ids = .error e) : s.FailsWith ids e := by
  induction ids with
  | nil => cases h
  | cons id ids ih =>
    unfold fetch at h
    cases hc : s.load id with
    | error e' =>
      rw [hc] at h
      cases h
      exact ⟨[], id, ids, rfl, by simp [Supply.Serves], hc⟩
    | ok c =>
      cases hcs : fetch s ids with
      | ok cs =>
        rw [hc, hcs] at h
        cases h
      | error e' =>
        rw [hc, hcs] at h
        cases h
        obtain ⟨before, bad, after, rfl, hbefore, hbad⟩ := ih hcs
        exact ⟨id :: before, bad, after, rfl, List.forall_mem_cons.2 ⟨⟨c, hc⟩, hbefore⟩, hbad⟩

theorem serves_of_fetch (h : fetch s ids = .ok cs) : s.Serves ids := by
  obtain ⟨rfl, hload⟩ := fetch_eq_ok h
  intro id hid
  obtain ⟨e, he, rfl⟩ := List.mem_map.1 hid
  exact ⟨e.2, hload e he⟩

theorem loaded_insertAll (h : fetch s ids = .ok cs) (r : Registry σ) (id : String) :
    (r.insertAll cs).loaded id = (s.fresh ids id).or (r.loaded id) := by
  obtain ⟨rfl, hload⟩ := fetch_eq_ok h
  clear h
  induction cs generalizing r with
  | nil => simp [insertAll, Supply.fresh]
  | cons e cs ih =>
    obtain ⟨hhead, hrest⟩ := List.forall_mem_cons.1 hload
    have hstep : (r.insertAll (e :: cs)).loaded id =
        (insertAll (r.insert e.1 e.2) cs).loaded id := rfl
    have hinsert : loaded (r.insert e.1 e.2) id = if id = e.1 then some e.2 else r.loaded id :=
      r.get?_insert e.1 e.2 id
    rw [hstep, ih _ hrest, hinsert]
    unfold Supply.fresh
    by_cases hid : id = e.1
    · subst hid
      by_cases hmem : e.1 ∈ cs.map Prod.fst <;> simp [hhead, hmem, Except.toOption]
    · by_cases hmem : id ∈ cs.map Prod.fst <;> simp [hid, hmem]

/-- Fresh commands for the missing ids leave the others as they are. -/
theorem loaded_insertAll_missing (h : fetch s (r.loaded.missing ids) = .ok cs) :
    (r.insertAll cs).loaded = fun id => (r.loaded id).or (s.fresh ids id) := by
  funext id
  rw [loaded_insertAll h]
  cases hid : r.loaded id with
  | none => simp [Supply.fresh, Loaded.missing, hid]
  | some c => simp [Supply.fresh, Loaded.missing, hid]

theorem loaded_insertAll_empty (h : fetch s ids = .ok cs) :
    (insertAll ∅ cs).loaded = s.fresh ids := by
  funext id
  rw [loaded_insertAll h]
  exact Option.or_none

theorem hasSize_loaded (r : Registry σ) : r.loaded.HasSize r.size :=
  ⟨r.keys, r.keys_nodup, r.length_keys, fun _ => NameMap.mem_keys⟩

end

section
variable (s : Supply σ) (r : Registry σ) (id : String)

theorem loaded_insert (c : Command σ) :
    loaded (r.insert id c) = Function.update r.loaded id (some c) := r.get?_insert_eq_update id c

theorem loaded_erase : loaded (r.erase id) = Function.update r.loaded id none :=
  r.get?_erase_eq_update id

theorem contains_eq_isSome_loaded : r.contains id = (r.loaded id).isSome := rfl

theorem load_step : Step s r.loaded (.load id)
    (perform.single r (r.load s id)).1 (perform.single r (r.load s id)).2.loaded := by
  unfold load
  rw [contains_eq_isSome_loaded]
  cases hm : r.loaded id with
  | some c => exact .loadPresent hm
  | none =>
    cases hc : s.load id with
    | error e => exact .loadFailed hm hc
    | ok c =>
      change Step s r.loaded (.load id) (.ok none) (loaded (r.insert id c))
      rw [loaded_insert]
      exact .load hm hc

theorem unload_step : Step s r.loaded (.unload id)
    (perform.single r (r.unload id)).1 (perform.single r (r.unload id)).2.loaded := by
  unfold unload
  rw [contains_eq_isSome_loaded]
  cases hm : r.loaded id with
  | none => exact .unloadAbsent hm
  | some c =>
    change Step s r.loaded (.unload id) (.ok none) (loaded (r.erase id))
    rw [loaded_erase]
    exact .unload hm

theorem reload_step : Step s r.loaded (.reload id)
    (perform.single r (r.reload s id)).1 (perform.single r (r.reload s id)).2.loaded := by
  unfold reload
  rw [contains_eq_isSome_loaded]
  cases hm : r.loaded id with
  | none => exact .reloadAbsent hm
  | some old =>
    cases hc : s.load id with
    | error e => exact .reloadFailed hm hc
    | ok c =>
      change Step s r.loaded (.reload id) (.ok none) (loaded (r.insert id c))
      rw [loaded_insert]
      exact .reload hm hc

theorem filter_not_contains (ids : List String) :
    (ids.filter fun id => !r.contains id) = r.loaded.missing ids := by
  unfold Loaded.missing
  congr 1
  funext id
  rw [contains_eq_isSome_loaded, Option.not_isSome]

theorem loadAll_of_listed {ids : List String} (hids : s.ids = .ok ids) :
    r.loadAll s =
      (fetch s (r.loaded.missing ids)).map fun cs => (r.insertAll cs, cs.length) := by
  unfold loadAll
  rw [hids, ← filter_not_contains]
  rfl

theorem reloadAll_of_listed {ids : List String} (hids : s.ids = .ok ids) :
    reloadAll s = (fetch s ids).map fun cs => (insertAll ∅ cs, (insertAll ∅ cs).size) := by
  unfold reloadAll
  rw [hids]
  rfl

theorem loadAll_step : Step s r.loaded .loadAll
    (perform.batch r (r.loadAll s)).1 (perform.batch r (r.loadAll s)).2.loaded := by
  cases hids : s.ids with
  | error e =>
    rw [loadAll, hids]
    exact .loadAllUnlisted hids
  | ok ids =>
    rw [loadAll_of_listed s r hids]
    cases hcs : fetch s (r.loaded.missing ids) with
    | error e => exact .loadAllFailed hids (fetch_eq_error hcs)
    | ok cs =>
      have hlength : cs.length = (r.loaded.missing ids).length := by
        rw [← (fetch_eq_ok hcs).1, List.length_map]
      change Step s r.loaded .loadAll (.ok (some cs.length)) (r.insertAll cs).loaded
      rw [hlength, loaded_insertAll_missing hcs]
      exact .loadAll hids (serves_of_fetch hcs)

theorem unloadAll_step : Step s r.loaded .unloadAll (.ok (some r.size)) (loaded ∅) :=
  .unloadAll r.hasSize_loaded

/-- The number of commands is the number of listed ids because no id is listed twice. -/
theorem reloadAll_step (hs : s.Distinct) : Step s r.loaded .reloadAll
    (perform.batch r (reloadAll s)).1 (perform.batch r (reloadAll s)).2.loaded := by
  cases hids : s.ids with
  | error e =>
    rw [reloadAll, hids]
    exact .reloadAllUnlisted hids
  | ok ids =>
    rw [reloadAll_of_listed s hids]
    cases hcs : fetch s ids with
    | error e => exact .reloadAllFailed hids (fetch_eq_error hcs)
    | ok cs =>
      have hserves := serves_of_fetch hcs
      have hloaded := loaded_insertAll_empty hcs
      have hsize : (insertAll ∅ cs).size = ids.length :=
        (hloaded ▸ hasSize_loaded (insertAll ∅ cs)).unique (Supply.hasSize_fresh (hs ids hids) hserves)
      change Step s r.loaded .reloadAll (.ok (some (insertAll ∅ cs).size)) (insertAll ∅ cs).loaded
      rw [hsize, hloaded]
      exact .reloadAll hids hserves

/-- Every operation takes the step that it has to take. -/
theorem perform_step (hs : s.Distinct) (op : Operation) :
    Step s r.loaded op (r.perform s op).1 (r.perform s op).2.loaded := by
  cases op with
  | load id => exact load_step s r id
  | unload id => exact unload_step s r id
  | reload id => exact reload_step s r id
  | loadAll => exact loadAll_step s r
  | unloadAll => exact unloadAll_step s r
  | reloadAll => exact reloadAll_step s r hs

theorem single_error {e : Error} {res : Except Error (Registry σ)}
    (h : (perform.single r res).1 = .error e) : (perform.single r res).2 = r := by
  cases res with
  | ok r' => cases h
  | error e' => rfl

theorem batch_error {e : Error} {res : Except Error (Registry σ × Nat)}
    (h : (perform.batch r res).1 = .error e) : (perform.batch r res).2 = r := by
  cases res with
  | ok found => cases h
  | error e' => rfl

theorem perform_error {e : Error} {op : Operation} (h : (r.perform s op).1 = .error e) :
    (r.perform s op).2 = r := by
  cases op with
  | load id => exact single_error r h
  | unload id => exact single_error r h
  | reload id => exact single_error r h
  | loadAll => exact batch_error r h
  | unloadAll => cases h
  | reloadAll => exact batch_error r h

end

theorem run_refines {r : Registry σ} {ops : List (Supply σ × Operation)}
    (hs : ∀ o ∈ ops, o.1.Distinct) : Refines r ops (r.run ops) := by
  induction ops generalizing r with
  | nil => exact .nil r
  | cons o ops ih =>
    obtain ⟨hhead, hrest⟩ := List.forall_mem_cons.1 hs
    exact .cons (perform_step o.1 r hhead o.2) (ih hrest)

theorem after_eq_before {r : Registry σ} {ops : List (Supply σ × Operation)} {p : Record σ}
    (hp : p ∈ r.run ops) {e : Error} (he : p.answer = .error e) : p.after = p.before := by
  induction ops generalizing r with
  | nil => cases hp
  | cons o ops ih =>
    rcases List.mem_cons.1 hp with rfl | hp
    · exact perform_error o.1 r he
    · exact ih hp

theorem run_prefix (r : Registry σ) (ops more : List (Supply σ × Operation)) :
    r.run ops <+: r.run (ops ++ more) := by
  induction ops generalizing r with
  | nil => exact List.nil_prefix
  | cons o ops ih => exact List.cons_prefix_cons.2 ⟨rfl, ih _⟩

end Registry

/-- Neither kind of source lists an id twice. -/
theorem Source.supply_distinct (files : FileTree) (source : Source σ) :
    (source.supply files).Distinct := by
  intro ids hids
  cases source with
  | listed commands =>
    cases hids
    exact commands.keys_nodup
  | directory dir lead handlers =>
    change idsIn files dir = .ok ids at hids
    unfold idsIn at hids
    split at hids
    · cases hids
      exact NameMap.keys_nodup _
    · cases hids

namespace Registry

/-- Any sequence of operations, over sources that may change and fail in between, acts on the
loaded commands as on a finite map. After an error they are what they were before, and what was
published by then stays as it is, whatever operations follow. -/
theorem run_refines_map (r : Registry σ) (ops more : List (Supply σ × Operation))
    (hs : ∀ o ∈ ops, o.1.Distinct) :
    Refines r ops (r.run ops) ∧
    (∀ p ∈ r.run ops, ∀ e, p.answer = .error e → p.after = p.before) ∧
    r.run ops <+: r.run (ops ++ more) :=
  ⟨run_refines hs, fun _ hp _ he => after_eq_before hp he, run_prefix r ops more⟩

def silent (name : String) : Command Unit :=
  { name, versions := [], handler := fun _ _ st => (none, st) }

/-- With `a` loaded, `b` fails to be made: first as the only missing id, then as the second of
three. -/
theorem refines_map_failing_source :
    let s := (Source.listed (.ofList
      [("a", .ok (silent "a")), ("b", .error (.unknownCommand "b")), ("c", .ok (silent "c"))])).supply {}
    let ops := [(s, .load "a"), (s, .load "c"), (s, .loadAll), (s, .reloadAll), (s, .unloadAll)]
    (∀ o ∈ ops, o.1.Distinct) ∧ Refines ∅ ops (run ∅ ops) ∧
    (∀ p ∈ run ∅ ops, ∀ e, p.answer = .error e → p.after = p.before) ∧
    run ∅ ops <+: run ∅ (ops ++ [(s, .reload "a")]) ∧
    (run ∅ ops).map (fun p => (p.answer.toOption, p.after.keys)) =
      [(some none, ["a"]), (some none, ["a", "c"]), (none, ["a", "c"]), (none, ["a", "c"]),
        (some (some 2), [])] := by
  intro s ops
  have hs : ∀ o ∈ ops, o.1.Distinct := by
    simp only [ops, List.forall_mem_cons]
    simp [s, Source.supply_distinct]
  obtain ⟨hrun, herror, hprefix⟩ := run_refines_map ∅ ops [(s, .reload "a")] hs
  exact ⟨hs, hrun, herror, hprefix, by decide +kernel⟩

end Registry
end Chatline
