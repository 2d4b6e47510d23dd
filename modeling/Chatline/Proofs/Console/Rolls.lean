import Chatline.Proofs.Console.Listeners
import Chatline.Proofs.Demo.Rolls

/-! Rolls at the console. A line that starts with the lead and `roll` runs the handler of the rolls
exactly if the words behind it ask for a roll. -/
namespace Chatline

namespace Demo

/-- The command of the rolls. -/
def rollCommand (lead : String) : Command Generator :=
  { name := "roll"
    versions := rollVersions lead
    handler := fun args _ g => roll Generator.die args g }

section
variable {lead message : String} {rest : List Char}
  (hmessage : message.toList = lead.toList ++ ("roll".toList ++ rest))

include hmessage

theorem hit?_roll : (rollCommand lead).hit? message = rollMatch lead (Text.words (.ofList rest)) := by
  have hlisten : ∀ v ∈ rollVersions lead, "roll" ∈ v.triggers := by simp [rollVersions]
  have hanswer : ∀ v ∈ rollVersions lead, (v.tryMatch message).matched? =
      (v.root.matchTokens (Text.words (.ofList rest))).matched? := fun v hv => by
    have hrest := rest?_of_trigger (e := ("roll", rollCommand lead)) (by decide) hmessage
      (by simp [commands, rollCommand]) hv
    rw [if_pos (hlisten v hv)] at hrest
    exact Version.tryMatch_of_rest? hrest
  unfold Command.hit? rollMatch rollCommand
  dsimp only
  unfold rollVersions at hanswer ⊢
  obtain ⟨hdice, hsingle⟩ := List.forall_mem_cons.1 hanswer
  rw [List.findSome?_cons, hdice, List.findSome?_cons, hsingle _ List.mem_cons_self]
  rfl

/-- Of the demo commands only the rolls look at the words of the line. -/
theorem accepted?_of_roll : (registry lead).accepted? message =
    (rollMatch lead (Text.words (.ofList rest))).map fun found =>
      ({ id := "roll", command := rollCommand lead, version := found.1 }, found.2) := by
  have hdeaf : ∀ e ∈ (commands lead).take 2, e.2.Deaf message := by
    intro e he
    refine deaf_of_trigger (by decide) hmessage (List.mem_of_mem_take he) ?_
    simp only [commands, List.take_succ_cons, List.take_zero, List.mem_cons, List.not_mem_nil,
      or_false] at he
    rcases he with rfl | rfl <;> simp [chooseVersions, echoVersions]
  have hnone : ∀ e ∈ ([] : List (String × Command Generator)), e.2.Deaf message := by simp
  rw [← hit?_roll hmessage]
  exact Offer.accepted?_all_of_listener hdeaf hnone "roll" (rollCommand lead)

end
end Demo

namespace Console

variable {config : Config} {c : Console} {line rest : String}

/-- The calls of handlers when the line is offered to the commands. -/
def calls (c : Console) (line : String) : List Call :=
  (c.registry.journaled.dispatch (Text.trim line) c.context (c.generator, [])).state.2

theorem calls_eq : c.calls line = match c.registry.accepted? (Text.trim line) with
    | some (o, args) => [{ id := o.id, args, context := c.context }]
    | none => [] := by
  unfold calls
  rw [Registry.calls_journaled]
  cases c.registry.accepted? (Text.trim line) <;> rfl

section
variable (h : Reached config c) (hdemo : config.commandsDir = none)
  (hline : line = config.lead ++ "roll" ++ rest)

include h hdemo hline

theorem Reached.accepted?_roll : c.registry.accepted? (Text.trim line) =
    (Demo.rollMatch config.lead (Text.words rest)).map fun found =>
      ({ id := "roll", command := Demo.rollCommand config.lead, version := found.1 }, found.2) := by
  have htrim := h.toList_trim_of_trigger (by decide) hline
  rw [(h.overDemo hdemo).registry, Demo.accepted?_of_roll htrim, Text.words_rdropWhile]

theorem Reached.roll_of_rollTokens {r : Demo.Request} (hr : Demo.RollTokens (Text.words rest) r) :
    ∃ args, r.Holds args ∧ c.calls line = [{ id := "roll", args, context := c.context }] ∧
      c.offer line =
        { outcome := .executed
            { command := "roll"
              version := r.version
              args
              reply := (Demo.roll Generator.die args c.generator).1 }
          reports := []
          state := (Demo.roll Generator.die args c.generator).2 } := by
  obtain ⟨v, args, hmatch, hlabel, hholds⟩ := Demo.rollMatch_of_rollTokens config.lead hr
  have haccepted := h.accepted?_roll hdemo hline
  rw [hmatch, Option.map_some] at haccepted
  refine ⟨args, hholds, ?_, ?_⟩
  · rw [calls_eq, haccepted]
  · unfold offer
    rw [Registry.dispatch_eq, haccepted, ← hlabel]
    rfl

theorem Reached.no_roll (hr : ∀ r, ¬ Demo.RollTokens (Text.words rest) r) :
    c.calls line = [] ∧
      ((c.offer line).outcome = .unmatched ∨ ∃ fs, (c.offer line).outcome = .rejected fs) := by
  have haccepted := h.accepted?_roll hdemo hline
  rw [Demo.rollMatch_eq_none config.lead hr, Option.map_none] at haccepted
  constructor
  · rw [calls_eq, haccepted]
  · unfold offer
    rw [Registry.dispatch_eq, haccepted]
    dsimp only
    cases c.registry.values.flatMap fun cmd => cmd.failures (Text.trim line) with
    | nil => exact .inl rfl
    | cons f fs => exact .inr ⟨_, rfl⟩

end

/-- Over the demo commands, a line with the lead and `roll` goes to the commands unless the lead
starts with a colon. The roll is made exactly if the words behind it ask for one, with the version
and the values that they ask for; otherwise no handler is called, and the line is rejected or matches
nothing. -/
theorem rolls_run_exactly_if_asked_for (hcolon : Text.startsWith ":" config.lead = false)
    (hdemo : config.commandsDir = none) (h : Reached config c)
    (hline : line = config.lead ++ "roll" ++ rest) :
    (∀ files, c.answer files line =
      (.ok (.ofOutcome (c.offer line).outcome), { c with generator := (c.offer line).state })) ∧
    ((∃ call ∈ c.calls line, call.id = "roll") ↔ ∃ r, Demo.RollTokens (Text.words rest) r) ∧
    (∀ r, Demo.RollTokens (Text.words rest) r → ∃ args, r.Holds args ∧
      c.calls line = [{ id := "roll", args, context := c.context }] ∧
      c.offer line =
        { outcome := .executed
            { command := "roll"
              version := r.version
              args
              reply := (Demo.roll Generator.die args c.generator).1 }
          reports := []
          state := (Demo.roll Generator.die args c.generator).2 }) ∧
    ((∀ r, ¬ Demo.RollTokens (Text.words rest) r) → c.calls line = [] ∧
      ((c.offer line).outcome = .unmatched ∨ ∃ fs, (c.offer line).outcome = .rejected fs)) := by
  refine ⟨h.answer_of_trigger (by decide) hline hcolon, ⟨?_, ?_⟩,
    fun r hr => h.roll_of_rollTokens hdemo hline hr, h.no_roll hdemo hline⟩
  · rintro ⟨call, hcall, -⟩
    by_contra hno
    rw [(h.no_roll hdemo hline fun r hr => hno ⟨r, hr⟩).1] at hcall
    cases hcall
  · rintro ⟨r, hr⟩
    obtain ⟨args, -, hcalls, -⟩ := h.roll_of_rollTokens hdemo hline hr
    exact ⟨_, by rw [hcalls]; exact List.mem_cons_self, rfl⟩

/-- Dice with a bonus, and a single die with more sides than there may be dice. -/
theorem dice_and_a_large_die_are_rolled :
    ∃ c, start {} {} 7 = .ok c ∧
      (∃ args, Demo.Request.Holds ⟨"dice", some 3, 6, some (-2)⟩ args ∧
        c.calls "!roll 3 d 6 + -2 " = [{ id := "roll", args, context := c.context }]) ∧
      ∃ args, Demo.Request.Holds ⟨"single", none, 200, none⟩ args ∧
        c.calls "!roll 200" = [{ id := "roll", args, context := c.context }] := by
  have hvalid : ({} : Config).validate = .ok () := by decide +kernel
  have hstart := start_demo hvalid rfl {} 7
  have hcolon : Text.startsWith ":" ({} : Config).lead = false := by decide +kernel
  have hdice : Text.words " 3 d 6 + -2 " = ["3", "d", "6", "+", "-2"] := by decide +kernel
  have hdie : Text.words " 200" = ["200"] := by decide +kernel
  have htokens : Demo.DiceTokens ["3", "d", "6", "+", "-2"] (some 3) 6 (some (-2)) :=
    .intro (.present (Text.isInteger_iff.2 (by decide)))
      (Text.isInteger_iff.2 (by decide)) (.present (Text.isInteger_iff.2 (by decide)))
  have htoken : Text.IsInteger 2 1000 "200" 200 := Text.isInteger_iff.2 (by decide)
  obtain ⟨-, -, hroll, -⟩ := rolls_run_exactly_if_asked_for hcolon rfl (.start hstart)
    (show "!roll 3 d 6 + -2 " = "!" ++ "roll" ++ " 3 d 6 + -2 " by decide +kernel)
  obtain ⟨-, -, hroll', -⟩ := rolls_run_exactly_if_asked_for hcolon rfl (.start hstart)
    (show "!roll 200" = "!" ++ "roll" ++ " 200" by decide +kernel)
  rw [hdice] at hroll
  rw [hdie] at hroll'
  obtain ⟨args, hargs, hcalls, -⟩ := hroll _ (.dice htokens)
  obtain ⟨args', hargs', hcalls', -⟩ := hroll' _ (.single htoken)
  exact ⟨_, hstart, ⟨args, hargs, hcalls⟩, args', hargs', hcalls'⟩

end Console
end Chatline
