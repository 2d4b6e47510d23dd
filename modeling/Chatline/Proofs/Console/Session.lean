import Chatline.Console
import Chatline.Proofs.Dispatch
import Mathlib.Data.List.Basic

/-! What one line does to a console, the consoles that a session passes through, and lines that
are answered one after another. -/
namespace Chatline

/-- The reply that the outcome of a message calls for. -/
def Reply.ofOutcome : Outcome → Reply
  | .executed e => (e.reply.map message).getD silent
  | .rejected fs => rejected fs
  | .unmatched => silent

theorem Command.flatMap_report? {σ : Type} (c : Command σ) (message : String) :
    (c.report? message).toList.flatMap Report.failures = c.failures message := by
  unfold report?
  split
  · rename_i hnone
    rw [List.isEmpty_iff.1 hnone]
    rfl
  · simp

/-- The reports of a message hold the failures of its outcome. -/
theorem Registry.flatMap_reports {σ : Type} (r : Registry σ) (message : String) (ctx : Context)
    (st : σ) : (r.dispatch message ctx st).reports.flatMap Report.failures =
      (r.dispatch message ctx st).outcome.failures := by
  rw [dispatch_eq]
  cases r.accepted? message with
  | some found => rfl
  | none =>
    dsimp only
    rw [Outcome.failures_ofFailures, List.filterMap_eq_flatMap_toList, List.flatMap_assoc]
    simp only [Command.flatMap_report?]

namespace Console

variable {c : Console} {files : FileTree} {line : String}

theorem answerMessage_eq (h : c.collected = []) (message : String) :
    c.answerMessage message =
      (.ofOutcome (c.registry.dispatch message c.context c.generator).outcome,
        { c with generator := (c.registry.dispatch message c.context c.generator).state }) := by
  have hreports := c.registry.flatMap_reports message c.context c.generator
  unfold answerMessage
  dsimp only
  rw [h, List.nil_append, hreports]
  cases (c.registry.dispatch message c.context c.generator).outcome <;> rfl

/-- What the answer to one line may be, and the console it leaves behind. -/
inductive Effect (c : Console) (files : FileTree) : Except Error Reply → Console → Prop where
  | told (reply : Reply) : Effect c files (.ok reply) c
  | reloaded {registry : Registry Generator} {n : Nat}
      (h : Registry.reloadAll (c.source.supply files) = .ok (registry, n)) :
      Effect c files (.ok (.message ("reloaded " ++ toString n ++ " commands")))
        (refresh { c with registry })
  | failed {e : Error} (h : Registry.reloadAll (c.source.supply files) = .error e) :
      Effect c files (.error e) c
  | offered (message : String) :
      Effect c files (.ok (c.answerMessage message).1) (c.answerMessage message).2

theorem Effect.source_eq {answer : Except Error Reply} {c' : Console}
    (h : Effect c files answer c') : c'.source = c.source := by
  cases h <;> rfl

theorem effect_answerMeta (c : Console) (files : FileTree) (word : String) :
    Effect c files (c.answerMeta files word).1 (c.answerMeta files word).2 := by
  unfold answerMeta
  split
  · exact .told .quit
  · split
    · exact .told _
    · split
      · cases hreload : Registry.reloadAll (c.source.supply files) with
        | ok loaded => exact .reloaded hreload
        | error e => exact .failed hreload
      · exact .told _

theorem effect_answer (c : Console) (files : FileTree) (line : String) :
    Effect c files (c.answer files line).1 (c.answer files line).2 := by
  unfold answer
  dsimp only
  split
  · exact c.effect_answerMeta files _
  · exact .offered (Text.trim line)

theorem answer_of_message (h : Text.cutStart? ":" (Text.trim line) = none) :
    c.answer files line =
      (.ok (c.answerMessage (Text.trim line)).1, (c.answerMessage (Text.trim line)).2) := by
  unfold answer
  dsimp only
  rw [h]

theorem answer_of_meta {word : String} (h : Text.cutStart? ":" (Text.trim line) = some word) :
    c.answer files line = c.answerMeta files (Text.trim word) := by
  unfold answer
  dsimp only
  rw [h]

/-- Whether a line ends the session. -/
def endsSession (line : String) : Bool :=
  match Text.cutStart? ":" (Text.trim line) with
  | some word => Text.trim word ∈ ["quit", "q", "exit"]
  | none => false

theorem answerMessage_ne_quit (c : Console) (message : String) :
    (c.answerMessage message).1 ≠ .quit := by
  unfold answerMessage
  dsimp only
  cases (c.registry.dispatch message c.context c.generator).outcome with
  | executed e =>
    cases hreply : e.reply <;> simp [hreply]
  | unmatched => simp
  | rejected fs => simp

theorem answerMeta_ne_quit (word : String) (h : word ∉ ["quit", "q", "exit"]) :
    (c.answerMeta files word).1 ≠ .ok .quit := by
  unfold answerMeta
  rw [if_neg (by simpa using h)]
  split
  · simp
  · split
    · split <;> simp
    · simp

theorem answer_ne_quit (h : endsSession line = false) : (c.answer files line).1 ≠ .ok .quit := by
  unfold endsSession at h
  cases hcut : Text.cutStart? ":" (Text.trim line) with
  | none =>
    have hquit := c.answerMessage_ne_quit (Text.trim line)
    rw [answer_of_message hcut]
    simpa using hquit
  | some word =>
    rw [hcut] at h
    rw [answer_of_meta hcut]
    exact answerMeta_ne_quit _ (by simpa using h)

theorem answerLines_passedOver {lines : List String} (h : isPassedOver line = true) :
    answerLines files (line :: lines) c = answerLines files lines c := by
  rw [answerLines, if_pos h]

/-- What lines give whose first ones were answered with `replies`, if the others give `rest`. -/
def prepend (replies : List Reply) (rest : Except Error (List Reply) × Console) :
    Except Error (List Reply) × Console := (rest.1.map (replies ++ ·), rest.2)

theorem prepend_nil (rest : Except Error (List Reply) × Console) : prepend [] rest = rest := by
  obtain ⟨answers, c⟩ := rest
  cases answers <;> rfl

theorem prepend_append (replies replies' : List Reply)
    (rest : Except Error (List Reply) × Console) :
    prepend (replies ++ replies') rest = prepend replies (prepend replies' rest) := by
  obtain ⟨answers, c⟩ := rest
  cases answers with
  | error e => rfl
  | ok rs => simp [prepend, Except.map]

theorem answerLines_answered {lines : List String} {reply : Reply} {c' : Console}
    (hpass : isPassedOver line = false) (h : c.answer files line = (.ok reply, c'))
    (hquit : reply ≠ .quit) :
    answerLines files (line :: lines) c = prepend [reply] (answerLines files lines c') := by
  rw [answerLines, if_neg (by simp [hpass]), h]
  cases reply with
  | quit => exact absurd rfl hquit
  | _ => rfl

/-- Where no answer is an error, lines that do not end the session are answered before the lines
that follow them. -/
theorem answerLines_append {P : Console → Prop}
    (hstep : ∀ c line, P c → (∃ reply, (c.answer files line).1 = .ok reply) ∧
      P (c.answer files line).2)
    {before : List String} (hopen : ∀ l ∈ before, endsSession l = false) {c : Console} (hc : P c) :
    ∃ replies c₁, P c₁ ∧ answerLines files before c = (.ok replies, c₁) ∧
      ∀ lines, answerLines files (before ++ lines) c =
        prepend replies (answerLines files lines c₁) := by
  induction before generalizing c with
  | nil => exact ⟨[], c, hc, rfl, fun lines => (prepend_nil _).symm⟩
  | cons l before ih =>
    obtain ⟨hl, hbefore⟩ := List.forall_mem_cons.1 hopen
    cases hpass : isPassedOver l with
    | true =>
      simp only [List.cons_append, answerLines_passedOver hpass]
      exact ih hbefore hc
    | false =>
      obtain ⟨⟨reply, hreply⟩, hnext⟩ := hstep c l hc
      have hquit : reply ≠ .quit := fun heq => answer_ne_quit hl (hreply.trans (congrArg _ heq))
      have hanswer : c.answer files l = (.ok reply, (c.answer files l).2) := by
        rw [← hreply]
      obtain ⟨replies, c₁, hc₁, hanswers, hrest⟩ := ih hbefore hnext
      refine ⟨reply :: replies, c₁, hc₁, ?_, fun lines => ?_⟩
      · rw [answerLines_answered hpass hanswer hquit, hanswers]
        rfl
      · have happend := prepend_append [reply] replies (answerLines files lines c₁)
        rw [List.cons_append, answerLines_answered hpass hanswer hquit, hrest, ← happend]
        rfl

/-- The consoles of a session with these settings, which may also change where its messages come
from. -/
inductive Reached (config : Config) : Console → Prop where
  | start {files : FileTree} {seed : UInt64} {c : Console} (h : start config files seed = .ok c) :
      Reached config c
  | answer {c : Console} (files : FileTree) (line : String) (h : Reached config c) :
      Reached config (c.answer files line).2
  | withContext {c : Console} (ctx : Context) (h : Reached config c) :
      Reached config (c.withContext ctx)

def withSource (c : Console) (source : Source Generator) : Console := { c with source }

/-- A source is looked at only when the commands are loaded again. -/
theorem answer_withSource {source : Source Generator}
    (h : Registry.reloadAll (source.supply files) = Registry.reloadAll (c.source.supply files))
    (line : String) : (c.withSource source).answer files line =
      ((c.answer files line).1, (c.answer files line).2.withSource source) := by
  cases hcut : Text.cutStart? ":" (Text.trim line) with
  | none =>
    rw [answer_of_message hcut, answer_of_message hcut]
    rfl
  | some word =>
    rw [answer_of_meta hcut, answer_of_meta hcut]
    unfold answerMeta
    dsimp only [withSource]
    rw [h]
    split
    · rfl
    · split
      · rfl
      · split
        · cases Registry.reloadAll (c.source.supply files) <;> rfl
        · rfl

/-- The answers to lines, each given with the files that are there when it comes. -/
def answers : List (FileTree × String) → Console → List (Except Error Reply)
  | [], _ => []
  | (files, line) :: turns, c => (c.answer files line).1 :: answers turns (c.answer files line).2

theorem answers_withSource {source : Source Generator} {turns : List (FileTree × String)}
    {c : Console} (h : ∀ t ∈ turns, Registry.reloadAll (source.supply t.1) =
      Registry.reloadAll (c.source.supply t.1)) :
    answers turns (c.withSource source) = answers turns c := by
  induction turns generalizing c with
  | nil => rfl
  | cons t turns ih =>
    obtain ⟨files, line⟩ := t
    obtain ⟨hfiles, hturns⟩ := List.forall_mem_cons.1 h
    have hsource := (c.effect_answer files line).source_eq
    rw [answers, answer_withSource hfiles, answers, ih (by rw [hsource]; exact hturns)]

end Console
end Chatline
