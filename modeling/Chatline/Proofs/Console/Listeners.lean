import Chatline.Proofs.Console.Completions

/-! Which command a line is for. The triggers of the demo commands start with different letters, so
a line with the lead and a trigger is heard by one command alone. -/
namespace Chatline

namespace Text

theorem cutStart?_of_toList {lead s : String} {rest : List Char}
    (hs : s.toList = lead.toList ++ rest) : cutStart? lead s = some (.ofList rest) := by
  unfold cutStart?
  rw [hs, after?_append]
  rfl

theorem cutStart?_of_head?_ne {lead s : String} {rest : List Char} (hlead : lead ≠ "")
    (hs : s ≠ "") (hne : lead.toList.head? ≠ s.toList.head?) :
    cutStart? lead (.ofList (s.toList ++ rest)) = none := by
  obtain ⟨a, as, has⟩ := List.exists_cons_of_ne_nil (String.toList_eq_nil_iff.ne.2 hlead)
  obtain ⟨b, bs, hbs⟩ := List.exists_cons_of_ne_nil (String.toList_eq_nil_iff.ne.2 hs)
  have hab : a ≠ b := by simpa [has, hbs] using hne
  unfold cutStart?
  rw [String.toList_ofList, has, hbs, List.cons_append, after?, if_neg hab]
  rfl

end Text

namespace Version

variable {v : Version} {message rest : String}

theorem tryMatch_of_rest? (h : v.rest? message = some rest) :
    (v.tryMatch message).matched? = (v.root.matchTokens (Text.words rest)).matched? := by
  unfold tryMatch
  rw [h]
  dsimp only
  cases v.root.matchTokens (Text.words rest) <;> rfl

theorem tryMatch_of_other (h : v.rest? message = none) : v.tryMatch message = .noMatch := by
  unfold tryMatch
  rw [h]

end Version

section
variable {σ : Type} {message : String}

/-- The message is for no version of the command. -/
def Command.Deaf (message : String) (c : Command σ) : Prop :=
  ∀ v ∈ c.versions, v.rest? message = none

theorem Command.Deaf.hit?_eq {c : Command σ} (h : c.Deaf message) : c.hit? message = none := by
  refine List.findSome?_eq_none_iff.2 fun v hv => ?_
  rw [Version.tryMatch_of_other (h v hv)]
  rfl

theorem Command.Deaf.failures_eq {c : Command σ} (h : c.Deaf message) :
    c.failures message = [] := by
  refine List.filterMap_eq_nil_iff.2 fun v hv => ?_
  unfold Version.refusal?
  rw [h v hv]
  rfl

theorem Offer.accepted?_all_of_deaf {es : List (String × Command σ)}
    (h : ∀ e ∈ es, e.2.Deaf message) : accepted? message (all es) = none := by
  induction es with
  | nil => rfl
  | cons e es ih =>
    obtain ⟨he, hes⟩ := List.forall_mem_cons.1 h
    rw [accepted?_all_cons, he.hit?_eq, ih hes]
    rfl

section
variable {before after : List (String × Command σ)} (hbefore : ∀ e ∈ before, e.2.Deaf message)
  (hafter : ∀ e ∈ after, e.2.Deaf message) (id : String) (c : Command σ)

include hbefore hafter

/-- Where one command alone listens, what it makes of the message is what becomes of it. -/
theorem Offer.accepted?_all_of_listener :
    accepted? message (all (before ++ (id, c) :: after)) =
      (c.hit? message).map fun found => ({ id, command := c, version := found.1 }, found.2) := by
  induction before with
  | nil =>
    rw [List.nil_append, accepted?_all_cons, accepted?_all_of_deaf hafter]
    exact Option.or_none
  | cons e before ih =>
    obtain ⟨he, hes⟩ := List.forall_mem_cons.1 hbefore
    rw [List.cons_append, accepted?_all_cons, he.hit?_eq, ih hes]
    rfl

theorem Command.flatMap_failures_of_listener :
    (((before ++ (id, c) :: after).map Prod.snd).flatMap fun c => c.failures message) =
      c.failures message := by
  have hnone : ∀ es : List (String × Command σ), (∀ e ∈ es, e.2.Deaf message) →
      ((es.map Prod.snd).flatMap fun c => c.failures message) = [] := by
    intro es hes
    rw [List.flatMap_map, List.flatMap_eq_nil_iff]
    exact fun e he => (hes e he).failures_eq
  rw [List.map_append, List.map_cons, List.flatMap_append, List.flatMap_cons, hnone _ hbefore,
    hnone _ hafter, List.nil_append, List.append_nil]

end
end

namespace Demo

theorem ne_empty_of_mem_triggers : ∀ t ∈ triggers, t ≠ "" := by decide

theorem head?_injOn_triggers : ∀ t ∈ triggers, ∀ t' ∈ triggers, t' ≠ t →
    t'.toList.head? ≠ t.toList.head? := by decide +kernel

theorem versions_commands {lead : String} {e : String × Command Generator} (he : e ∈ commands lead) :
    ∀ v ∈ e.2.versions, v.lead = lead ∧ ∀ t ∈ v.triggers, t ∈ triggers := by
  simp only [commands, List.mem_cons, List.not_mem_nil, or_false] at he
  rcases he with rfl | rfl | rfl <;> simp [chooseVersions, echoVersions, rollVersions, triggers]

section
variable {lead message trigger : String} {rest : List Char} (ht : trigger ∈ triggers)
  (hmessage : message.toList = lead.toList ++ (trigger.toList ++ rest))
  {e : String × Command Generator} (he : e ∈ commands lead)

include ht hmessage he

theorem rest?_of_trigger {v : Version} (hv : v ∈ e.2.versions) :
    v.rest? message = if trigger ∈ v.triggers then some (.ofList rest) else none := by
  obtain ⟨hlead, htriggers⟩ := versions_commands he v hv
  have hcut : Text.cutStart? v.lead message = some (.ofList (trigger.toList ++ rest)) := by
    rw [hlead]
    exact Text.cutStart?_of_toList hmessage
  have htrigger : Text.cutStart? trigger (.ofList (trigger.toList ++ rest)) =
      some (.ofList rest) := Text.cutStart?_of_toList String.toList_ofList
  have hother : ∀ t ∈ triggers, t ≠ trigger →
      Text.cutStart? t (.ofList (trigger.toList ++ rest)) = none := fun t ht' hne =>
    Text.cutStart?_of_head?_ne (ne_empty_of_mem_triggers t ht') (ne_empty_of_mem_triggers trigger ht)
      (head?_injOn_triggers trigger ht t ht' hne)
  unfold Version.rest?
  rw [hcut, Option.bind_some]
  split
  · next hmem =>
    cases hfound : v.triggers.findSome? fun t =>
        Text.cutStart? t (.ofList (trigger.toList ++ rest)) with
    | none =>
      have hnone := List.findSome?_eq_none_iff.1 hfound trigger hmem
      rw [htrigger] at hnone
      cases hnone
    | some found =>
      obtain ⟨t, hin, hcut⟩ := List.exists_of_findSome?_eq_some hfound
      obtain rfl : t = trigger := by
        by_contra hne
        rw [hother t (htriggers t hin) hne] at hcut
        cases hcut
      exact hcut.symm.trans htrigger
  · next hmem =>
    refine List.findSome?_eq_none_iff.2 fun t hin => ?_
    exact hother t (htriggers t hin) (ne_of_mem_of_not_mem hin hmem)

theorem deaf_of_trigger (hnot : ∀ v ∈ e.2.versions, trigger ∉ v.triggers) : e.2.Deaf message := by
  intro v hv
  rw [rest?_of_trigger ht hmessage he hv, if_neg (hnot v hv)]

end
end Demo

namespace Console

variable {config : Config} {c : Console} {line rest : String}

theorem Reached.validate_eq (h : Reached config c) : config.validate = .ok () := by
  induction h with
  | start h => exact validate_of_start h
  | answer files line _ ih => exact ih
  | withContext ctx _ ih => exact ih

section
variable (h : Reached config c) {trigger : String} (ht : trigger ∈ Demo.triggers)
  (hline : line = config.lead ++ trigger ++ rest)

include h ht hline

theorem Reached.toList_trim_of_trigger : (Text.trim line).toList =
    config.lead.toList ++ (trigger.toList ++ rest.toList.rdropWhile Text.isBlank) := by
  refine toList_trim_of_lead (lead_of_validate h.validate_eq).1 (clean_of_trigger h.validate_eq ht) ?_
  rw [hline, String.toList_append, String.toList_append]

/-- Unless the lead starts with a colon, the line goes to the commands. -/
theorem Reached.answer_of_trigger (hcolon : Text.startsWith ":" config.lead = false)
    (files : FileTree) : c.answer files line =
      (.ok (.ofOutcome (c.offer line).outcome), { c with generator := (c.offer line).state }) := by
  have hsplit : line.toList = config.lead.toList ++ trigger.toList ++ rest.toList := by
    rw [hline, String.toList_append, String.toList_append]
  have hcut := cutStart?_of_lead (lead_of_validate h.validate_eq).1
    (clean_of_trigger h.validate_eq ht) hsplit hcolon
  exact answer_of_settled h.settled.collected (Option.map_eq_none_iff.2 hcut)

end
end Console
end Chatline
