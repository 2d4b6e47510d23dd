import Chatline.Registry

/-! Dispatch as a search: the versions of all loaded commands in order, the first one that
matches, and what becomes of a message that none of them matches. -/
namespace Chatline

namespace Outcome

@[simp] theorem failures_ofFailures (fs : List Failure) : (ofFailures fs).failures = fs := by
  cases fs <;> rfl

theorem ofFailures_ne_executed (fs : List Failure) (e : Execution) :
    ofFailures fs ≠ executed e := by
  cases fs <;> simp [ofFailures]

end Outcome

namespace Version

/-- Why the version refuses a message that is for it; the failure carries the version's label. -/
def refusal? (v : Version) (message : String) : Option Failure :=
  (v.rest? message).bind fun rest =>
    (v.root.matchTokens (Text.words rest)).invalid?.map (·.withVersion v.label)

theorem invalid?_tryMatch (v : Version) (message : String) :
    (v.tryMatch message).invalid? = v.refusal? message := by
  unfold tryMatch refusal?
  cases v.rest? message with
  | none => rfl
  | some rest =>
    dsimp only [Option.bind]
    cases v.root.matchTokens (Text.words rest) <;> rfl

end Version

variable {σ : Type}

namespace Command

/-- The failures that the versions of a command raise, in their order. -/
def failures (c : Command σ) (message : String) : List Failure :=
  c.versions.filterMap fun v => v.refusal? message

/-- What is reported of a command that did not execute a message. -/
def report? (c : Command σ) (message : String) : Option Report :=
  if (c.failures message).isEmpty then none
  else some { command := c.name, failures := c.failures message }

/-- The first version that matches, with what it read. -/
def hit? (c : Command σ) (message : String) : Option (Version × Args) :=
  c.versions.findSome? fun v => (v.tryMatch message).matched?.map fun args => (v, args)

theorem firstMatch_snd (message : String) (vs : List Version) : (firstMatch message vs).2 =
    vs.findSome? fun v => (v.tryMatch message).matched?.map fun args => (v, args) := by
  induction vs with
  | nil => rfl
  | cons v vs ih =>
    unfold firstMatch
    rw [List.findSome?_cons]
    cases h : v.tryMatch message with
    | matched args => rfl
    | noMatch => exact ih
    | invalid e => exact ih

theorem firstMatch_fst (message : String) (vs : List Version)
    (hnone : (firstMatch message vs).2 = none) :
    (firstMatch message vs).1 = vs.filterMap fun v => v.refusal? message := by
  induction vs with
  | nil => rfl
  | cons v vs ih =>
    unfold firstMatch at hnone ⊢
    rw [List.filterMap_cons, ← v.invalid?_tryMatch]
    cases h : v.tryMatch message with
    | matched args =>
      rw [h] at hnone
      cases hnone
    | noMatch =>
      rw [h] at hnone
      exact ih hnone
    | invalid e =>
      rw [h] at hnone
      exact congrArg (e :: ·) (ih hnone)

/-- The reaction of a command whose version `v` matched. -/
def executes (c : Command σ) (v : Version) (args : Args) (ctx : Context) (st : σ) : Reaction σ :=
  let run := c.handler args ctx st
  { outcome := .executed { command := c.name, version := v.label, args, reply := run.1 }
    reports := []
    state := run.2 }

theorem dispatch_eq (c : Command σ) (message : String) (ctx : Context) (st : σ) :
    c.dispatch message ctx st = match c.hit? message with
      | some (v, args) => c.executes v args ctx st
      | none =>
        { outcome := .ofFailures (c.failures message)
          reports := (c.report? message).toList
          state := st } := by
  have hsnd := firstMatch_snd message c.versions
  have hfst := firstMatch_fst message c.versions
  unfold dispatch hit?
  cases hf : firstMatch message c.versions with
  | mk fs hit =>
    rw [hf] at hsnd hfst
    dsimp only at hsnd hfst
    rw [← hsnd]
    cases hit with
    | some found => rfl
    | none =>
      have hfs : fs = c.failures message := hfst rfl
      subst hfs
      dsimp only
      congr 1
      unfold report?
      split <;> rfl

theorem dispatchAll_of_hit {message : String} (ctx : Context) {c : Command σ}
    (cs : List (Command σ)) (st : σ) {found : Version × Args} (hc : c.hit? message = some found) :
    dispatchAll message ctx (c :: cs) st = c.executes found.1 found.2 ctx st := by
  unfold dispatchAll
  rw [c.dispatch_eq, hc]
  rfl

theorem dispatchAll_of_no_hit {message : String} (ctx : Context) {c : Command σ}
    (cs : List (Command σ)) (st : σ) (hc : c.hit? message = none) :
    dispatchAll message ctx (c :: cs) st =
      match (dispatchAll message ctx cs st).outcome with
      | .executed _ => dispatchAll message ctx cs st
      | later =>
        { outcome := .ofFailures (c.failures message ++ later.failures)
          reports := (c.report? message).toList ++ (dispatchAll message ctx cs st).reports
          state := (dispatchAll message ctx cs st).state } := by
  rw [dispatchAll, c.dispatch_eq, hc]
  dsimp only
  split
  · next heq => exact absurd heq (Outcome.ofFailures_ne_executed _ _)
  · have hfs := Outcome.failures_ofFailures (c.failures message)
    cases (dispatchAll message ctx cs st).outcome <;> simp only [hfs]

end Command

/-- A version that a message is offered to, and the command it belongs to, under its id. -/
structure Offer (σ : Type) where
  id : String
  command : Command σ
  version : Version

namespace Offer

/-- The versions of several commands: those of one command stand together, in their order. -/
def all (es : List (String × Command σ)) : List (Offer σ) :=
  es.flatMap fun e => e.2.versions.map fun v => { id := e.1, command := e.2, version := v }

/-- The first offer whose version matches, with what it read. -/
def accepted? (message : String) (offers : List (Offer σ)) : Option (Offer σ × Args) :=
  offers.findSome? fun o => (o.version.tryMatch message).matched?.map fun args => (o, args)

theorem all_cons (id : String) (c : Command σ) (es : List (String × Command σ)) :
    all ((id, c) :: es) =
      (c.versions.map fun v => { id, command := c, version := v }) ++ all es :=
  List.flatMap_cons

theorem accepted?_all_cons (message id : String) (c : Command σ) (es : List (String × Command σ)) :
    accepted? message (all ((id, c) :: es)) =
      ((c.hit? message).map fun found =>
        ({ id, command := c, version := found.1 }, found.2)).or (accepted? message (all es)) := by
  unfold accepted? Command.hit?
  rw [all_cons, List.findSome?_append, List.findSome?_map, List.map_findSome?]
  congr 2
  funext v
  dsimp only [Function.comp_apply]
  rw [Option.map_map]
  rfl

end Offer

theorem Command.dispatchAll_eq (message : String) (ctx : Context) (es : List (String × Command σ))
    (st : σ) :
    dispatchAll message ctx (es.map Prod.snd) st = match Offer.accepted? message (Offer.all es) with
      | some (o, args) => o.command.executes o.version args ctx st
      | none =>
        { outcome := .ofFailures ((es.map Prod.snd).flatMap fun c => c.failures message)
          reports := (es.map Prod.snd).filterMap fun c => c.report? message
          state := st } := by
  induction es with
  | nil => rfl
  | cons e es ih =>
    obtain ⟨id, c⟩ := e
    rw [List.map_cons, Offer.accepted?_all_cons]
    cases hc : c.hit? message with
    | some found => rw [dispatchAll_of_hit ctx _ st hc]; rfl
    | none =>
      rw [dispatchAll_of_no_hit ctx _ st hc, ih, Option.map_none, Option.none_or]
      cases Offer.accepted? message (Offer.all es) with
      | some found => rfl
      | none =>
        dsimp only
        rw [List.flatMap_cons, List.filterMap_cons]
        split
        · next heq => exact absurd heq (Outcome.ofFailures_ne_executed _ _)
        · rw [Outcome.failures_ofFailures]
          cases c.report? message <;> rfl

/-- One run of a handler. -/
structure Call where
  id : String
  args : Args
  context : Context

/-- The command with a handler that also notes its calls, under the id `id`. -/
def Command.journaled (id : String) (c : Command σ) : Command (σ × List Call) :=
  { name := c.name
    versions := c.versions
    handler := fun args ctx st =>
      let run := c.handler args ctx st.1
      (run.1, run.2, st.2 ++ [{ id, args, context := ctx }]) }

def Offer.journaled (o : Offer σ) : Offer (σ × List Call) :=
  { id := o.id, command := o.command.journaled o.id, version := o.version }

theorem Offer.all_journaled (es : List (String × Command σ)) :
    all (es.map fun e => (e.1, e.2.journaled e.1)) = (all es).map journaled := by
  unfold all
  rw [List.flatMap_map, List.map_flatMap]
  congr 1
  funext e
  rw [List.map_map]
  rfl

theorem Offer.accepted?_journaled (message : String) (offers : List (Offer σ)) :
    accepted? message (offers.map journaled) =
      (accepted? message offers).map fun found => (found.1.journaled, found.2) := by
  unfold accepted?
  rw [List.findSome?_map, List.map_findSome?]
  congr 1
  funext o
  dsimp only [Function.comp_apply]
  rw [Option.map_map]
  rfl

namespace Registry

/-- The registry with handlers that note their calls, in the order in which they are made. -/
def journaled (r : Registry σ) : Registry (σ × List Call) :=
  ⟨r.entries.map fun e => (e.1, e.2.journaled e.1),
    List.pairwise_map.2 r.ascending⟩

/-- The first version that matches, by the order of the ids and then of the versions. -/
def accepted? (r : Registry σ) (message : String) : Option (Offer σ × Args) :=
  Offer.accepted? message (Offer.all r.entries)

theorem accepted?_journaled (r : Registry σ) (message : String) :
    r.journaled.accepted? message =
      (r.accepted? message).map fun found => (found.1.journaled, found.2) := by
  unfold accepted? journaled
  rw [Offer.all_journaled, Offer.accepted?_journaled]

theorem journaled_values (r : Registry σ) :
    r.journaled.values = r.entries.map fun e => e.2.journaled e.1 := by
  unfold NameMap.values journaled
  rw [List.map_map]
  rfl

theorem flatMap_failures_journaled (r : Registry σ) (message : String) :
    (r.journaled.values.flatMap fun c => c.failures message) =
      r.values.flatMap fun c => c.failures message := by
  rw [journaled_values, NameMap.values, List.flatMap_map, List.flatMap_map]
  rfl

theorem filterMap_report?_journaled (r : Registry σ) (message : String) :
    (r.journaled.values.filterMap fun c => c.report? message) =
      r.values.filterMap fun c => c.report? message := by
  rw [journaled_values, NameMap.values, List.filterMap_map, List.filterMap_map]
  rfl

theorem dispatch_eq (r : Registry σ) (message : String) (ctx : Context) (st : σ) :
    r.dispatch message ctx st = match r.accepted? message with
      | some (o, args) => o.command.executes o.version args ctx st
      | none =>
        { outcome := .ofFailures (r.values.flatMap fun c => c.failures message)
          reports := r.values.filterMap fun c => c.report? message
          state := st } :=
  Command.dispatchAll_eq message ctx r.entries st

/-- The handler of the first version that matches is called, and no other. -/
theorem calls_journaled (r : Registry σ) (message : String) (ctx : Context) (st : σ)
    (calls : List Call) : (r.journaled.dispatch message ctx (st, calls)).state.2 =
      match r.accepted? message with
      | some (o, args) => calls ++ [{ id := o.id, args, context := ctx }]
      | none => calls := by
  rw [dispatch_eq, accepted?_journaled]
  cases r.accepted? message <;> rfl

/-- A message is executed by the first version that matches it, whose command's handler is called
once, and then nothing is reported. If no version matches, no handler is called, and the failures
of each command are both reported and part of the outcome. -/
theorem dispatch_picks_first_match (r : Registry σ) (message : String) (ctx : Context) (st : σ)
    (calls : List Call) :
    (r.dispatch message ctx st = match r.accepted? message with
      | some (o, args) =>
        { outcome := .executed
            { command := o.command.name
              version := o.version.label
              args
              reply := (o.command.handler args ctx st).1 }
          reports := []
          state := (o.command.handler args ctx st).2 }
      | none =>
        { outcome := .ofFailures (r.values.flatMap fun c => c.failures message)
          reports := r.values.filterMap fun c => c.report? message
          state := st }) ∧
    (r.journaled.dispatch message ctx (st, calls)).outcome = (r.dispatch message ctx st).outcome ∧
    (r.journaled.dispatch message ctx (st, calls)).reports = (r.dispatch message ctx st).reports ∧
    (r.journaled.dispatch message ctx (st, calls)).state =
      ((r.dispatch message ctx st).state, match r.accepted? message with
        | some (o, args) => calls ++ [{ id := o.id, args, context := ctx }]
        | none => calls) := by
  have hplain := r.dispatch_eq message ctx st
  have hjournal := r.journaled.dispatch_eq message ctx (st, calls)
  rw [accepted?_journaled, flatMap_failures_journaled, filterMap_report?_journaled] at hjournal
  rw [hplain, hjournal]
  cases r.accepted? message <;> exact ⟨rfl, rfl, rfl, rfl⟩

end Registry
end Chatline
