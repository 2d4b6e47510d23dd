import Chatline.Proofs.Console.Completions

/-! Which lines draw random numbers in a session over the demo commands. The others leave the
console as it is, so that a seeded session can be given any number of them. -/
namespace Chatline

theorem Registry.mem_values_of_accepted? {σ : Type} {r : Registry σ} {message : String}
    {o : Offer σ} {args : Args} (h : r.accepted? message = some (o, args)) :
    o.command ∈ r.values := by
  unfold accepted? Offer.accepted? at h
  obtain ⟨o', ho, hfound⟩ := List.exists_of_findSome?_eq_some h
  obtain ⟨args', -, heq⟩ := Option.map_eq_some_iff.1 hfound
  cases heq
  obtain ⟨e, he, hv⟩ := List.mem_flatMap.1 ho
  obtain ⟨v, -, rfl⟩ := List.mem_map.1 hv
  exact List.mem_map_of_mem (f := Prod.snd) he

/-- Of the demo commands only `choose` and `roll` touch the generator. -/
theorem Demo.state_of_command {lead : String} {cmd : Command Generator}
    (hcmd : cmd ∈ (registry lead).values) (hname : cmd.name ≠ "choose" ∧ cmd.name ≠ "roll")
    (args : Args) (ctx : Context) (g : Generator) : (cmd.handler args ctx g).2 = g := by
  obtain ⟨hchoose, hroll⟩ := hname
  simp only [registry, NameMap.values, commands, List.map_cons, List.map_nil, List.mem_cons,
    List.not_mem_nil, or_false] at hcmd
  rcases hcmd with rfl | rfl | rfl
  · exact absurd rfl hchoose
  · rfl
  · exact absurd rfl hroll

theorem Demo.state_of_dispatch {lead message : String} {ctx : Context} {g : Generator}
    (h : ∀ e, ((registry lead).dispatch message ctx g).outcome = .executed e →
      e.command ≠ "choose" ∧ e.command ≠ "roll") :
    ((registry lead).dispatch message ctx g).state = g := by
  rw [Registry.dispatch_eq] at h ⊢
  cases haccepted : (registry lead).accepted? message with
  | none => rfl
  | some found =>
    obtain ⟨o, args⟩ := found
    rw [haccepted] at h
    exact state_of_command (Registry.mem_values_of_accepted? haccepted) (h _ rfl) args ctx g

namespace Console

variable {config : Config} {c : Console} {files : FileTree} {line : String}

/-- The line speaks to the console and does not end the session, or it is a message that neither
`choose` nor `roll` executes. -/
structure Drawless (c : Console) (line : String) : Prop where
  goes_on : ∀ word, metaWord? line = some word → word ∉ ["quit", "q", "exit"]
  undrawn : metaWord? line = none → ∀ e, (c.offer line).outcome = .executed e →
    e.command ≠ "choose" ∧ e.command ≠ "roll"

theorem drawless_iff : c.Drawless line ↔
    metaWord? line ∉ [some "quit", some "q", some "exit"] ∧
    (metaWord? line = none →
      (c.offer line).outcome.execution?.map Execution.command ∉ [some "choose", some "roll"]) := by
  constructor
  · rintro ⟨hgoes, hundrawn⟩
    refine ⟨?_, fun hword => ?_⟩
    · cases hword : metaWord? line with
      | none => simp
      | some word => simpa using hgoes word hword
    · cases houtcome : (c.offer line).outcome with
      | executed e => simpa [Outcome.execution?] using hundrawn hword e houtcome
      | unmatched => simp [Outcome.execution?]
      | rejected fs => simp [Outcome.execution?]
  · rintro ⟨hgoes, hundrawn⟩
    refine ⟨fun word hword => ?_, fun hword e he => ?_⟩
    · simpa [hword] using hgoes
    · simpa [he, Outcome.execution?] using hundrawn hword

instance : Decidable (c.Drawless line) := decidable_of_iff _ drawless_iff.symm

/-- A reload makes the same commands again, and offers the same words for completion. -/
theorem OverDemo.answer_meta (h : OverDemo config.lead c) (hrefresh : refresh c = c) {word : String}
    (hword : word ∉ ["quit", "q", "exit"]) : (c.answerMeta files word).2 = c := by
  have hreload : Registry.reloadAll (c.source.supply files) = .ok (Demo.registry config.lead, 3) :=
    h.reloadAll_eq
  have hsame : refresh { c with registry := Demo.registry config.lead } = c := by
    rw [← h.registry]
    exact hrefresh
  unfold answerMeta
  rw [if_neg (by simpa using hword), hreload]
  split
  · rfl
  · split
    · exact hsame
    · rfl

theorem Reached.answer_of_drawless (h : Reached config c) (hdemo : config.commandsDir = none)
    (hline : c.Drawless line) : (c.answer files line).2 = c := by
  have hover := h.overDemo hdemo
  obtain ⟨hrefresh, hcollected⟩ := h.refresh_eq
  cases hword : metaWord? line with
  | some word =>
    rw [answer_of_metaWord hword]
    exact hover.answer_meta hrefresh (hline.goes_on word hword)
  | none =>
    have hundrawn := hline.undrawn hword
    have hstate : (c.offer line).state = c.generator := by
      unfold offer at hundrawn ⊢
      rw [hover.registry] at hundrawn ⊢
      exact Demo.state_of_dispatch hundrawn
    rw [answer_of_settled hcollected hword, hstate]

/-- The console after lines, each given with the files that are there when it comes. -/
def after (turns : List (FileTree × String)) (c : Console) : Console :=
  turns.foldl (fun c t => (c.answer t.1 t.2).2) c

theorem after_nil : after [] c = c := by
  unfold after
  rw [List.foldl_nil]

theorem after_cons {turns : List (FileTree × String)} :
    after ((files, line) :: turns) c = after turns (c.answer files line).2 := by
  unfold after
  rw [List.foldl_cons]

/-- The entries whose marks are not set. -/
def unmarked {α : Type} (marks : List Bool) (entries : List α) : List α :=
  ((marks.zip entries).filter fun e => !e.1).map Prod.snd

section
variable {α : Type} {marks : List Bool} {entry : α} {entries : List α}

theorem unmarked_marked : unmarked (true :: marks) (entry :: entries) = unmarked marks entries :=
  rfl

theorem unmarked_cons :
    unmarked (false :: marks) (entry :: entries) = entry :: unmarked marks entries := rfl

end

/-- Marked lines that leave the console as it is have no part in the answers to the others. -/
theorem Reached.answers_unmarked (hdemo : config.commandsDir = none)
    {turns : List (FileTree × String)} {marks : List Bool} (h : Reached config c)
    (hmarked : ∀ i turn, turns[i]? = some turn → marks[i]? = some true →
      (after (turns.take i) c).Drawless turn.2) :
    answers (unmarked marks turns) c = unmarked marks (answers turns c) := by
  induction turns generalizing c marks with
  | nil =>
    have hnil : unmarked marks (answers [] c) = [] := by simp [unmarked, answers]
    rw [hnil]
    simp [unmarked, answers]
  | cons turn turns ih =>
    obtain ⟨files, line⟩ := turn
    cases marks with
    | nil => rfl
    | cons mark marks =>
      have hlater : ∀ i turn, turns[i]? = some turn → marks[i]? = some true →
          (after (turns.take i) (c.answer files line).2).Drawless turn.2 := by
        intro i turn hturn hmark
        have hline := hmarked (i + 1) turn (by simpa using hturn) (by simpa using hmark)
        rw [List.take_succ_cons, after_cons] at hline
        exact hline
      have hrest := ih (h.answer files line) hlater
      cases mark with
      | true =>
        have hline := hmarked 0 (files, line) (by simp) (by simp)
        rw [List.take_zero, after_nil] at hline
        have hsame : (c.answer files line).2 = c := h.answer_of_drawless hdemo hline
        rw [hsame] at hrest
        rw [unmarked_marked, hrest, answers, unmarked_marked, hsame]
      | false =>
        rw [unmarked_cons, answers, answers, unmarked_cons, hrest]

/-- A seeded console over the demo commands opens in one way only. Whatever lines are put into a
session with it, its other lines are answered as without them, as long as the lines put in draw
nothing: each of them speaks to the console without ending the session or is a message that
neither `choose` nor `roll` executes. -/
theorem drawless_lines_leave_answers (hvalid : config.validate = .ok ())
    (hdemo : config.commandsDir = none) {n : UInt64} (hseed : config.seed = some n) :
    (∃ c, ∀ files seed, start config files seed = .ok c) ∧
    ∀ c, Reached config c → ∀ (turns : List (FileTree × String)) (inserted : List Bool),
      (∀ i turn, turns[i]? = some turn → inserted[i]? = some true →
        (after (turns.take i) c).Drawless turn.2) →
      answers (unmarked inserted turns) c = unmarked inserted (answers turns c) := by
  constructor
  · refine ⟨opened config n (Demo.registry config.lead), fun files seed => ?_⟩
    have hopened : opened config seed (Demo.registry config.lead) =
        opened config n (Demo.registry config.lead) := by
      unfold opened
      rw [hseed]
      rfl
    rw [start_demo hvalid hdemo, hopened]
  · intro c hc turns inserted hinserted
    exact hc.answers_unmarked hdemo hinserted

/-- A reload, an echo and a roll that is rejected come between two rolls of the same dice. -/
theorem reload_echo_and_rejection_leave_rolls :
    ∃ c, start { seed := some 7 } {} 0 = .ok c ∧
      answers [({}, "!roll 2 d 6"), ({}, "!roll 2 d 6")] c =
        unmarked [false, true, true, true, false]
          (answers [({}, "!roll 2 d 6"), ({}, ":reload"), ({}, "!echo hi"),
            ({}, "!roll 2 d 7000"), ({}, "!roll 2 d 6")] c) := by
  have hvalid : ({ seed := some 7 } : Config).validate = .ok () := by decide +kernel
  have hstart := start_demo hvalid rfl {} 0
  obtain ⟨-, hleave⟩ := drawless_lines_leave_answers hvalid rfl rfl
  have hdrawless : ∀ i < 5, [false, true, true, true, false][i]? = some true →
      ∀ turn ∈ [(({} : FileTree), "!roll 2 d 6"), ({}, ":reload"), ({}, "!echo hi"),
        ({}, "!roll 2 d 7000"), ({}, "!roll 2 d 6")][i]?,
      (after ([(({} : FileTree), "!roll 2 d 6"), ({}, ":reload"), ({}, "!echo hi"),
        ({}, "!roll 2 d 7000"), ({}, "!roll 2 d 6")].take i)
        (opened { seed := some 7 } 0 (Demo.registry "!"))).Drawless turn.2 := by decide +kernel
  have hsame := hleave _ (.start hstart)
    [({}, "!roll 2 d 6"), ({}, ":reload"), ({}, "!echo hi"), ({}, "!roll 2 d 7000"),
      ({}, "!roll 2 d 6")] [false, true, true, true, false] fun i turn hturn hmark =>
    hdrawless i (List.getElem?_eq_some_iff.1 hturn).1 hmark turn hturn
  exact ⟨_, hstart, hsame⟩

end Console
end Chatline
