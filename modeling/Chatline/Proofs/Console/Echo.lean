import Chatline.Proofs.Console.Listeners
import Chatline.Proofs.Scan.WholeText

/-! Echoes at the console: the words behind the trigger come back with single spaces between them,
or they are refused as one text that is too long. -/
namespace Chatline

namespace Demo

def echoVersion (lead : String) : Version :=
  { label := "echo", lead, triggers := ["echo", "say"], root := message }

/-- The command of the echoes. -/
def echoCommand (lead : String) : Command Generator :=
  { name := "echo"
    versions := [echoVersion lead]
    handler := fun args ctx g => (echo args ctx, g) }

section
variable {lead line trigger : String} {rest : List Char} (ht : trigger ∈ ["echo", "say"])

include ht

theorem mem_triggers_of_echo : trigger ∈ triggers := by
  simp only [List.mem_cons, List.not_mem_nil, or_false] at ht
  rcases ht with rfl | rfl <;> decide

variable (hline : line.toList = lead.toList ++ (trigger.toList ++ rest))

include hline

theorem rest?_of_echo : (echoVersion lead).rest? line = some (.ofList rest) := by
  have hmem : ("echo", echoCommand lead) ∈ commands lead := List.mem_cons_of_mem _ List.mem_cons_self
  rw [rest?_of_trigger (mem_triggers_of_echo ht) hline hmem List.mem_cons_self]
  exact if_pos ht

/-- Only the command of the echoes hears the line. -/
theorem others_are_deaf_to_echo :
    (∀ e ∈ (commands lead).take 1, e.2.Deaf line) ∧ ∀ e ∈ (commands lead).drop 2, e.2.Deaf line := by
  have hdeaf : ∀ e ∈ commands lead, (∀ v ∈ e.2.versions, trigger ∉ v.triggers) → e.2.Deaf line :=
    fun e he => deaf_of_trigger (mem_triggers_of_echo ht) hline he
  simp only [List.mem_cons, List.not_mem_nil, or_false] at ht
  constructor
  · intro e he
    refine hdeaf e (List.mem_of_mem_take he) ?_
    obtain rfl := List.mem_singleton.1 he
    rcases ht with rfl | rfl <;> simp [chooseVersions]
  · intro e he
    refine hdeaf e (List.mem_of_mem_drop he) ?_
    obtain rfl := List.mem_singleton.1 he
    rcases ht with rfl | rfl <;> simp [rollVersions]

theorem accepted?_of_echo : (registry lead).accepted? line =
    (message.matchTokens (Text.words (.ofList rest))).matched?.map fun args =>
      ({ id := "echo", command := echoCommand lead, version := echoVersion lead }, args) := by
  obtain ⟨hbefore, hafter⟩ := others_are_deaf_to_echo ht hline
  have hhit : (echoCommand lead).hit? line =
      (message.matchTokens (Text.words (.ofList rest))).matched?.map (echoVersion lead, ·) := by
    unfold Command.hit? echoCommand
    rw [List.findSome?_singleton, Version.tryMatch_of_rest? (rest?_of_echo ht hline)]
    rfl
  have haccepted := Offer.accepted?_all_of_listener hbefore hafter "echo" (echoCommand lead)
  rw [hhit, Option.map_map] at haccepted
  exact haccepted

theorem failures_of_echo : ((registry lead).values.flatMap fun c => c.failures line) =
    ((message.matchTokens (Text.words (.ofList rest))).invalid?.map (·.withVersion "echo")).toList := by
  obtain ⟨hbefore, hafter⟩ := others_are_deaf_to_echo ht hline
  have hrefusal : (echoVersion lead).refusal? line =
      (message.matchTokens (Text.words (.ofList rest))).invalid?.map (·.withVersion "echo") := by
    unfold Version.refusal?
    rw [rest?_of_echo ht hline]
    rfl
  have hfailures := Command.flatMap_failures_of_listener hbefore hafter "echo" (echoCommand lead)
  refine hfailures.trans ?_
  unfold Command.failures echoCommand
  dsimp only
  rw [List.filterMap_cons, hrefusal]
  cases (message.matchTokens (Text.words (.ofList rest))).invalid? <;> rfl

end

theorem echo_message {ctx : Context} {author : String} (h : ctx.author = some author)
    (ws : List String) : echo (message.seed.push "message" (.ofWords ws)) ctx =
      some (author ++ " says: " ++ Text.spaced ws) := by
  have hseed : message.seed.readings "message" = [] := Args.readings_ofNames _ _
  have hreadings : (message.seed.push "message" (.ofWords ws)).readings "message" =
      [.ofWords ws] := by
    rw [Args.readings_push, if_pos rfl, hseed]
    rfl
  unfold echo Args.text? Args.first? Args.valuesOf
  rw [hreadings, h]
  rfl

end Demo

namespace Console

variable {config : Config} {c : Console} {line trigger rest : String}

/-- What becomes of a message for the echo is what its grammar makes of the words. -/
theorem Reached.offer_of_echo (h : Reached config c) (hdemo : config.commandsDir = none)
    (ht : trigger ∈ ["echo", "say"]) (hline : line = config.lead ++ trigger ++ rest) :
    (c.offer line).state = c.generator ∧
    (c.offer line).outcome = match Demo.message.matchTokens (Text.words rest) with
      | .matched args => .executed
        { command := "echo", version := "echo", args, reply := Demo.echo args c.context }
      | .noMatch => .unmatched
      | .invalid e => .rejected [e.withVersion "echo"] := by
  have htrim := h.toList_trim_of_trigger (Demo.mem_triggers_of_echo ht) hline
  have haccepted := Demo.accepted?_of_echo ht htrim
  have hfailures := Demo.failures_of_echo ht htrim
  rw [Text.words_rdropWhile] at haccepted hfailures
  unfold offer
  rw [Registry.dispatch_eq, (h.overDemo hdemo).registry, haccepted, hfailures]
  cases Demo.message.matchTokens (Text.words rest) <;> exact ⟨rfl, rfl⟩

/-- Over the demo commands, a line with the lead and `echo` or `say` is answered by its author and
its words with single spaces between them. Without words it is met with silence. Words that make
more than 400 characters are rejected for one failure, of as many of them as it takes. -/
theorem echo_repeats_its_words (hcolon : Text.startsWith ":" config.lead = false)
    (hdemo : config.commandsDir = none) (h : Reached config c) {author : String}
    (hauthor : c.context.author = some author) (ht : trigger ∈ ["echo", "say"])
    (hline : line = config.lead ++ trigger ++ rest) (files : FileTree) :
    let said := Text.spaced (Text.words rest)
    (said = "" → c.answer files line = (.ok .silent, c)) ∧
    (said ≠ "" → said.length ≤ 400 →
      c.answer files line = (.ok (.message (author ++ " says: " ++ said)), c)) ∧
    (400 < said.length → ∃ front w, front ++ [w] <+: Text.words rest ∧
      (Text.spaced front).length ≤ 400 ∧ 400 < (Text.spaced (front ++ [w])).length ∧
      c.answer files line =
        (.ok (.rejected
          [{ argument := "message"
             kind := .text
             cause := .tooLong (Text.spaced (front ++ [w])).length 400
             version := some "echo" }]), c)) := by
  intro said
  have hanswer := h.answer_of_trigger (Demo.mem_triggers_of_echo ht) hline hcolon files
  obtain ⟨hstate, houtcome⟩ := h.offer_of_echo hdemo ht hline
  rw [hstate] at hanswer
  have hwords : ∀ w ∈ Text.words rest, w ≠ "" := fun w hw =>
    (Text.ne_empty_and_clean_of_mem_words hw).1
  obtain ⟨hnone, hshort, hlong⟩ := Leaf.matchTokens_boundedText "message" 400 hwords
  refine ⟨fun hsaid => ?_, fun hsaid hlength => ?_, fun hlength => ?_⟩
  · have hnil : Text.words rest = [] := by
      by_contra hne
      exact Text.spaced_ne_empty hne hwords hsaid
    have hmatch : Demo.message.matchTokens (Text.words rest) = .noMatch := hnone hnil
    rw [hanswer, houtcome, hmatch]
    rfl
  · have hne : Text.words rest ≠ [] := fun hnil => hsaid (by unfold said; rw [hnil]; rfl)
    have hmatch : Demo.message.matchTokens (Text.words rest) = .matched
        (Demo.message.seed.push "message" (.ofWords (Text.words rest))) := hshort hne hlength
    have hecho : Demo.echo (Demo.message.seed.push "message" (.ofWords (Text.words rest)))
        c.context = some (author ++ " says: " ++ said) := Demo.echo_message hauthor _
    rw [hanswer, houtcome, hmatch]
    dsimp only
    rw [hecho]
    rfl
  · obtain ⟨front, w, hprefix, hfront, hover, hmatch⟩ := hlong hlength
    have hmatch' : Demo.message.matchTokens (Text.words rest) = _ := hmatch
    refine ⟨front, w, hprefix, hfront, hover, ?_⟩
    rw [hanswer, houtcome, hmatch']
    rfl

/-- A word of 401 characters. -/
def longWord : String := .ofList (List.replicate 401 'a')

theorem length_longWord : longWord.length = 401 := by
  unfold longWord
  rw [String.length_ofList, List.length_replicate]

theorem words_longWord : Text.words longWord = [longWord] := by
  refine Text.words_eq_self_iff.2 ⟨fun h => ?_, Text.clean_toList_iff.1 fun c hc => ?_⟩
  · have hlength := length_longWord
    rw [h, String.length_empty] at hlength
    cases hlength
  · unfold longWord at hc
    rw [String.toList_ofList] at hc
    rw [List.eq_of_mem_replicate hc]
    decide

/-- Blanks of any kind and number between the words come back as single spaces, and blanks alone are
met with silence. A text may be too long with its first word. -/
theorem echo_of_blanks_and_of_a_long_word :
    ∃ c, start {} {} 7 = .ok c ∧
      c.answer {} "!say\t hi\u2003  there " = (.ok (.message "console says: hi there"), c) ∧
      c.answer {} "!echo \u2003 " = (.ok .silent, c) ∧
      c.answer {} ("!" ++ "echo" ++ longWord) =
        (.ok (.rejected
          [{ argument := "message"
             kind := .text
             cause := .tooLong 401 400
             version := some "echo" }]), c) := by
  have hvalid : ({} : Config).validate = .ok () := by decide +kernel
  have hstart := start_demo hvalid rfl {} 7
  have hcolon : Text.startsWith ":" ({} : Config).lead = false := by decide +kernel
  have hspaced : Text.spaced (Text.words "\t hi\u2003  there ") = "hi there" := by decide +kernel
  have hblank : Text.spaced (Text.words " \u2003 ") = "" := by decide +kernel
  obtain ⟨-, hsay, -⟩ := echo_repeats_its_words hcolon rfl (.start hstart) rfl
    (by simp : "say" ∈ ["echo", "say"])
    (show "!say\t hi\u2003  there " = "!" ++ "say" ++ "\t hi\u2003  there " by decide +kernel) {}
  obtain ⟨hsilent, -, -⟩ := echo_repeats_its_words hcolon rfl (.start hstart) rfl
    (by simp : "echo" ∈ ["echo", "say"])
    (show "!echo \u2003 " = "!" ++ "echo" ++ " \u2003 " by decide +kernel) {}
  obtain ⟨-, -, hlong⟩ := echo_repeats_its_words hcolon rfl (.start hstart) rfl
    (by simp : "echo" ∈ ["echo", "say"])
    (rfl : "!" ++ "echo" ++ longWord = ({} : Config).lead ++ "echo" ++ longWord) {}
  dsimp only at hsay hsilent hlong
  rw [hspaced] at hsay
  rw [hblank] at hsilent
  rw [words_longWord, Text.spaced_singleton, length_longWord] at hlong
  obtain ⟨front, w, ⟨back, hsplit⟩, -, -, hrejected⟩ := hlong (by decide)
  have hfirst : front = [] ∧ w = longWord := by
    cases front with
    | nil => exact ⟨rfl, (List.cons.inj hsplit).1⟩
    | cons v front => simp at hsplit
  rw [hfirst.1, hfirst.2, List.nil_append, Text.spaced_singleton, length_longWord] at hrejected
  exact ⟨_, hstart, hsay (by decide) (by decide +kernel), hsilent rfl, hrejected⟩

end Console
end Chatline
