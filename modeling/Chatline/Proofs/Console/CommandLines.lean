import Chatline.Proofs.Console.Demo
import Chatline.Proofs.Text.Words

/-! Which lines are for the commands. Only the first character of a line can keep it from them: a
colon speaks to the console, and a hash sign marks a comment in a file. -/
namespace Chatline.Text

theorem after?_singleton_append {a : Char} {cs rest : List Char} (hne : cs ≠ []) :
    (after? [a] (cs ++ rest)).isSome = (after? [a] cs).isSome := by
  cases cs with
  | nil => exact absurd rfl hne
  | cons c cs =>
    rw [List.cons_append]
    unfold after?
    split <;> rfl

theorem toList_of_startsWith {w s : String} (h : startsWith w s = true) :
    ∃ rest, s.toList = w.toList ++ rest := by
  obtain ⟨rest, hrest⟩ := Option.isSome_iff_exists.1 h
  exact ⟨rest, eq_append_of_after? hrest⟩

theorem cutStart?_eq_none_iff {mark s : String} :
    cutStart? mark s = none ↔ startsWith mark s = false := by
  unfold cutStart? startsWith
  rw [Option.map_eq_none_iff, Option.isSome_eq_false_iff, Option.isNone_iff_eq_none]

section
variable {mark lead s : String} {a : Char} {rest : List Char}

theorem startsWith_mark (hmark : mark.toList = [a]) (hlead : lead ≠ "")
    (hs : s.toList = lead.toList ++ rest) : startsWith mark s = startsWith mark lead := by
  have hne : lead.toList ≠ [] := by simpa using hlead
  unfold startsWith
  rw [hmark, hs, after?_singleton_append hne]

theorem allBlank_of_clean_start {run : List Char} (hne : run ≠ []) (hrun : Clean run)
    (hs : s.toList = run ++ rest) : allBlank s = false := by
  unfold allBlank
  rw [hs]
  cases run with
  | nil => exact absurd rfl hne
  | cons c cs => simp [hrun c List.mem_cons_self]

end
end Chatline.Text

namespace Chatline.Console

/-- The line starts with the lead and a trigger of a loaded command. -/
def CommandLine (config : Config) (c : Console) (line : String) : Prop :=
  ∃ cmd ∈ c.registry.values, ∃ v ∈ cmd.versions, ∃ trigger ∈ v.triggers,
    Text.startsWith (config.lead ++ trigger) line = true

/-- What the loaded commands do with a line. -/
def offer (c : Console) (line : String) : Reaction Generator :=
  c.registry.dispatch (Text.trim line) c.context c.generator

theorem lead_of_validate {config : Config} (h : config.validate = .ok ()) :
    config.lead ≠ "" ∧ Text.hasBlank config.lead = false := by
  unfold Config.validate at h
  split at h
  · cases h
  · rename_i hall
    split at h
    · cases h
    · rename_i hblank
      refine ⟨fun hlead => hall ?_, by simpa using hblank⟩
      rw [hlead]
      rfl

/-- The words that end a session hold no trigger. -/
theorem not_infix_triggers :
    ∀ t ∈ Demo.triggers, ∀ w ∈ ["quit", "q", "exit"], ¬ t.toList <:+: w.toList := by decide +kernel

theorem clean_of_trigger {config : Config} (hvalid : config.validate = .ok ()) {trigger : String}
    (ht : trigger ∈ Demo.triggers) : Text.Clean (config.lead.toList ++ trigger.toList) := by
  have hlead := Text.clean_toList_iff.2 (lead_of_validate hvalid).2
  have htrigger := Text.clean_toList_iff.2 (Demo.clean_triggers trigger ht)
  exact List.forall_mem_append.2 ⟨hlead, htrigger⟩

/-- A line of a session over the demo commands that is for one of them starts with the lead and a
trigger, and neither holds a blank. -/
theorem CommandLine.split {config : Config} (hvalid : config.validate = .ok ()) {c : Console}
    (hc : OverDemo config.lead c) {line : String} (h : CommandLine config c line) :
    ∃ trigger ∈ Demo.triggers, Text.Clean (config.lead.toList ++ trigger.toList) ∧
      ∃ rest, line.toList = config.lead.toList ++ trigger.toList ++ rest := by
  obtain ⟨cmd, hcmd, v, hv, trigger, ht, hstart⟩ := h
  rw [hc.registry] at hcmd
  have hmem : trigger ∈ Demo.triggers := by
    rw [← Demo.triggers_registry config.lead]
    exact List.mem_flatMap.2 ⟨v, List.mem_flatMap.2 ⟨cmd, hcmd, hv⟩, ht⟩
  obtain ⟨rest, hline⟩ := Text.toList_of_startsWith hstart
  rw [String.toList_append] at hline
  exact ⟨trigger, hmem, clean_of_trigger hvalid hmem, rest, hline⟩

section
variable {lead trigger line : String} {rest : List Char} (hlead : lead ≠ "")
  (hclean : Text.Clean (lead.toList ++ trigger.toList))
  (hline : line.toList = lead.toList ++ trigger.toList ++ rest)

include hlead hclean hline

theorem toList_trim_of_lead : (Text.trim line).toList =
    lead.toList ++ (trigger.toList ++ rest.rdropWhile Text.isBlank) := by
  rw [Text.toList_trim_of_clean hline (by simp [hlead]) hclean, List.append_assoc]

theorem cutStart?_of_lead (hcolon : Text.startsWith ":" lead = false) :
    Text.cutStart? ":" (Text.trim line) = none := by
  have htrim := toList_trim_of_lead hlead hclean hline
  have hstart : Text.startsWith ":" (Text.trim line) = Text.startsWith ":" lead :=
    Text.startsWith_mark rfl hlead htrim
  rw [Text.cutStart?_eq_none_iff, hstart, hcolon]

theorem not_passedOver_of_lead (hhash : Text.startsWith "#" lead = false) :
    isPassedOver line = false := by
  have htrim := toList_trim_of_lead hlead hclean hline
  have hblank : Text.allBlank line = false :=
    Text.allBlank_of_clean_start (by simp [hlead]) hclean hline
  have hstart : Text.startsWith "#" (Text.trim line) = Text.startsWith "#" lead :=
    Text.startsWith_mark rfl hlead htrim
  unfold isPassedOver
  rw [hblank, hstart, hhash]
  rfl

/-- If a colon comes first, the word after it holds a trigger. -/
theorem not_endsSession_of_trigger (ht : trigger ∈ Demo.triggers) : endsSession line = false := by
  obtain ⟨rest', htrim⟩ : ∃ rest', (Text.trim line).toList =
      lead.toList ++ (trigger.toList ++ rest') := ⟨_, toList_trim_of_lead hlead hclean hline⟩
  unfold endsSession
  cases hcut : Text.cutStart? ":" (Text.trim line) with
  | none => rfl
  | some word =>
    obtain ⟨cs, hcs, rfl⟩ := Option.map_eq_some_iff.1 hcut
    have hword : lead.toList ++ (trigger.toList ++ rest') = ':' :: cs := by
      rw [← htrim]
      exact Text.eq_append_of_after? hcs
    obtain ⟨a, inner, hinner⟩ := List.exists_cons_of_ne_nil (by simpa using hlead : lead.toList ≠ [])
    rw [hinner, List.cons_append] at hword hclean
    obtain ⟨rfl, rfl⟩ := List.cons.inj hword
    have hsplit : (String.ofList (inner ++ (trigger.toList ++ rest'))).toList =
        (inner ++ trigger.toList) ++ rest' := by simp
    have hne : inner ++ trigger.toList ≠ [] := by
      intro hnil
      have htrigger := (List.append_eq_nil_iff.1 hnil).2
      exact not_infix_triggers trigger ht "q" (by simp) (htrigger ▸ List.nil_infix)
    have hrest := Text.toList_trim_of_clean hsplit hne (List.forall_mem_cons.1 hclean).2
    have hinfix : trigger.toList <:+:
        (Text.trim (String.ofList (inner ++ (trigger.toList ++ rest')))).toList :=
      ⟨inner, _, hrest.symm⟩
    simp only [decide_eq_false_iff_not]
    exact fun hmem => not_infix_triggers trigger ht _ hmem hinfix

end

theorem replay_of_lines {c c₁ c₂ : Console} {files : FileTree} {path text line : String}
    {before after : List String} {replies : List Reply} {reply : Reply}
    (hread : files.read path = .ok text) (hlines : Text.lines text = before ++ line :: after)
    (hbefore : ∀ lines, answerLines files (before ++ lines) c =
      prepend replies (answerLines files lines c₁))
    (hpass : isPassedOver line = false) (hanswer : c₁.answer files line = (.ok reply, c₂))
    (hquit : reply ≠ .quit) :
    c.replay files path = prepend (replies ++ [reply]) (answerLines files after c₂) := by
  unfold replay
  rw [hread]
  dsimp only
  rw [hlines, hbefore, answerLines_answered hpass hanswer hquit, prepend_append]

/-- Over the demo commands, lines with the lead and a trigger are answered with what the commands
make of them unless the lead starts with a colon, and in a file they are not passed over unless
the lead starts with a hash sign. -/
theorem command_lines_are_offered {config : Config} (hvalid : config.validate = .ok ())
    (hdemo : config.commandsDir = none) :
    (∀ files seed, ∃ c, start config files seed = .ok c) ∧
    ∀ c, Reached config c → ∀ line, CommandLine config c line →
      (Text.startsWith ":" config.lead = false → ∀ files, c.answer files line =
        (.ok (.ofOutcome (c.offer line).outcome), { c with generator := (c.offer line).state })) ∧
      (Text.startsWith "#" config.lead = false → ∀ files path text before after,
        files.read path = .ok text → Text.lines text = before ++ line :: after →
        (∀ l ∈ before, endsSession l = false) →
        ∃ replies c₁ reply c₂, Reached config c₁ ∧
          answerLines files before c = (.ok replies, c₁) ∧
          c₁.answer files line = (.ok reply, c₂) ∧
          c.replay files path = prepend (replies ++ [reply]) (answerLines files after c₂) ∧
          (Text.startsWith ":" config.lead = false →
            reply = .ofOutcome (c₁.offer line).outcome)) := by
  constructor
  · intro files seed
    exact ⟨_, start_demo hvalid hdemo files seed⟩
  intro c hc line hline
  have hlead := (lead_of_validate hvalid).1
  obtain ⟨trigger, ht, hclean, rest, hsplit⟩ := hline.split hvalid (hc.overDemo hdemo)
  -- the line is for the commands at whatever console of the session it comes
  have hoffered : Text.startsWith ":" config.lead = false → ∀ files c, Reached config c →
      c.answer files line = (.ok (.ofOutcome (c.offer line).outcome),
        { c with generator := (c.offer line).state }) := by
    intro hcolon files c hc
    have hcut := cutStart?_of_lead hlead hclean hsplit hcolon
    rw [answer_of_message hcut, answerMessage_eq (hc.overDemo hdemo).collected]
    rfl
  constructor
  · exact fun hcolon files => hoffered hcolon files c hc
  · intro hhash files path text before after hread hlines hopen
    have hstep : ∀ c l, Reached config c → (∃ reply, (c.answer files l).1 = .ok reply) ∧
        Reached config (c.answer files l).2 := fun c l hc =>
      ⟨((hc.overDemo hdemo).of_effect (effect_answer c files l)).2, hc.answer files l⟩
    obtain ⟨replies, c₁, hc₁, hreplies, hbefore⟩ := answerLines_append hstep hopen hc
    obtain ⟨⟨reply, hreply⟩, -⟩ := hstep c₁ line hc₁
    have hquit : reply ≠ .quit := by
      intro heq
      have hopen := not_endsSession_of_trigger hlead hclean hsplit ht
      exact answer_ne_quit hopen (hreply.trans (congrArg Except.ok heq))
    have hanswer : c₁.answer files line = (.ok reply, (c₁.answer files line).2) := by
      rw [← hreply]
    have hpass := not_passedOver_of_lead hlead hclean hsplit hhash
    refine ⟨replies, c₁, reply, _, hc₁, hreplies, hanswer, ?_, fun hcolon => ?_⟩
    · exact replay_of_lines hread hlines hbefore hpass hanswer hquit
    · have hoffer := hoffered hcolon files c₁ hc₁
      rw [hoffer] at hreply
      exact (Except.ok.inj hreply).symm

/-- A tree with one file, `log`. -/
def logged (text : String) : FileTree := .ofList [("log", .text text)]

theorem echo_line_is_offered :
    ∃ c, start {} (logged "!echo hi\n") 7 = .ok c ∧
      (c.answer {} "!echo hi").1 = .ok (.message "console says: hi") ∧
      (c.replay (logged "!echo hi\n") "log").1 = .ok [.message "console says: hi"] := by
  have hvalid : ({} : Config).validate = .ok () := by decide +kernel
  have hlines := (command_lines_are_offered hvalid rfl).2
  have hstart := start_demo hvalid rfl (logged "!echo hi\n") 7
  have hline : CommandLine {} (opened {} 7 (Demo.registry "!")) "!echo hi" :=
    ⟨_, List.mem_cons_of_mem _ List.mem_cons_self, _, List.mem_cons_self, "echo",
      List.mem_cons_self, by decide +kernel⟩
  have hreply : Reply.ofOutcome ((opened {} 7 (Demo.registry "!")).offer "!echo hi").outcome =
      .message "console says: hi" := by decide +kernel
  obtain ⟨hanswer, hreplay⟩ := hlines _ (.start hstart) _ hline
  refine ⟨_, hstart, ?_, ?_⟩
  · rw [hanswer (by decide +kernel), ← hreply]
  · obtain ⟨replies, c₁, reply, c₂, -, hreplies, -, hlog, hoffer⟩ :=
      hreplay (by decide +kernel) (logged "!echo hi\n") "log" "!echo hi\n" [] []
        (by decide +kernel) (by decide +kernel) (by simp)
    cases hreplies
    rw [hlog, hoffer (by decide +kernel), ← hreply]
    rfl

/-- With the lead `:` the console takes a line for itself that the commands would execute, with the
lead `#` a file passes over one, and nothing is answered after the end of a session. -/
theorem reserved_leads_hide_commands :
    (∃ c, start { lead := ":" } {} 0 = .ok c ∧ CommandLine { lead := ":" } c ":echo hi" ∧
      Reply.ofOutcome (c.offer ":echo hi").outcome = .message "console says: hi" ∧
      (c.answer {} ":echo hi").1 =
        .ok (.message "unknown console command :echo hi (try :commands, :reload, :quit)")) ∧
    (∃ c, start { lead := "#" } {} 0 = .ok c ∧ CommandLine { lead := "#" } c "#echo hi" ∧
      (c.answer {} "#echo hi").1 = .ok (.message "console says: hi") ∧
      (c.replay (logged "#echo hi\n") "log").1 = .ok []) ∧
    (∃ c, start {} {} 0 = .ok c ∧ CommandLine {} c "!echo hi" ∧
      (c.answer {} "!echo hi").1 = .ok (.message "console says: hi") ∧
      (c.replay (logged ":quit\n!echo hi\n") "log").1 = .ok []) := by
  have hline : ∀ (config : Config) (line : String),
      Text.startsWith (config.lead ++ "echo") line = true →
      CommandLine config (opened config 0 (Demo.registry config.lead)) line :=
    fun config line h => ⟨_, List.mem_cons_of_mem _ List.mem_cons_self, _, List.mem_cons_self,
      "echo", List.mem_cons_self, h⟩
  have hcolon : start { lead := ":" } {} 0 = .ok (opened { lead := ":" } 0 (Demo.registry ":")) :=
    start_demo (by decide +kernel) rfl {} 0
  have hhash : start { lead := "#" } {} 0 = .ok (opened { lead := "#" } 0 (Demo.registry "#")) :=
    start_demo (by decide +kernel) rfl {} 0
  have hplain : start {} {} 0 = .ok (opened {} 0 (Demo.registry "!")) :=
    start_demo (by decide +kernel) rfl {} 0
  refine ⟨⟨_, hcolon, hline _ _ ?_, ?_, ?_⟩, ⟨_, hhash, hline _ _ ?_, ?_, ?_⟩,
    ⟨_, hplain, hline _ _ ?_, ?_, ?_⟩⟩ <;> decide +kernel

end Chatline.Console
