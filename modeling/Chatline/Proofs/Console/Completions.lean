import Chatline.Completion
import Chatline.Proofs.Console.CommandLines
import Chatline.Proofs.Demo.Definitions

/-! How the parts of a console keep in step throughout a session: the words offered for completion
are those of the loaded commands, and no report outlives the answer to its message. -/
namespace Chatline

theorem Reply.ofOutcome_eq_rejected_iff {o : Outcome} {fs : List Failure} :
    ofOutcome o = .rejected fs ↔ o = .rejected fs := by
  cases o with
  | executed e => cases hreply : e.reply <;> simp [ofOutcome, hreply]
  | unmatched => simp [ofOutcome]
  | rejected gs => simp [ofOutcome]

theorem Command.mem_openings {σ : Type} {c : Command σ} {word : String} :
    word ∈ c.openings ↔ ∃ v ∈ c.versions, ∃ trigger ∈ v.triggers, word = v.lead ++ trigger := by
  simp only [openings, List.mem_eraseDups, List.mem_flatMap, Version.openings, List.mem_map,
    eq_comm]

namespace Console

variable {config : Config} {c : Console} {files : FileTree} {line : String}

/-- The word is the lead and a trigger of a version of a loaded command. -/
def Opens (c : Console) (word : String) : Prop :=
  ∃ cmd ∈ c.registry.values, ∃ v ∈ cmd.versions, ∃ trigger ∈ v.triggers, word = v.lead ++ trigger

/-- The words offered for completion are in order and are the beginnings of the messages for the
loaded commands and the words of the console itself; no report waits for a reply. -/
structure Settled (c : Console) : Prop where
  ascending : c.completions.Pairwise (· < ·)
  mem_completions : ∀ word, word ∈ c.completions ↔
    c.Opens word ∨ word ∈ [":commands", ":quit", ":reload"]
  collected : c.collected = []

theorem mem_metaWords {word : String} :
    word ∈ metaWords ↔ word ∈ [":commands", ":quit", ":reload"] := by
  have hperm : metaWords.Perm [":commands", ":quit", ":reload"] :=
    (List.Perm.swap ":quit" ":reload" []).cons ":commands"
  exact hperm.mem_iff

theorem mem_completions_refresh {word : String} :
    word ∈ (refresh c).completions ↔ c.Opens word ∨ word ∈ [":commands", ":quit", ":reload"] := by
  have hmem : word ∈ (refresh c).completions ↔
      word ∈ c.registry.values.flatMap Command.openings ++ metaWords := NameMap.mem_sortedNames
  rw [hmem, List.mem_append, mem_metaWords, List.mem_flatMap]
  simp only [Command.mem_openings]
  rfl

/-- The words are those that a refresh gives. -/
theorem settled_of_refresh_eq (hrefresh : refresh c = c) (hcollected : c.collected = []) :
    c.Settled := by
  have hascending : (refresh c).completions.Pairwise (· < ·) := NameMap.sortedNames_ascending _
  refine ⟨?_, fun word => ?_, hcollected⟩
  · rw [hrefresh] at hascending
    exact hascending
  · have hmem : word ∈ (refresh c).completions ↔
        c.Opens word ∨ word ∈ [":commands", ":quit", ":reload"] := mem_completions_refresh
    rw [hrefresh] at hmem
    exact hmem

theorem refresh_of_start {seed : UInt64} (h : start config files seed = .ok c) :
    refresh c = c ∧ c.collected = [] := by
  unfold start at h
  split at h
  · cases h
  · cases hload : ((∅ : Registry Generator)).loadAll ((sourceOf config).supply files) with
    | error e =>
      simp only [hload] at h
      cases h
    | ok loaded =>
      simp only [hload] at h
      cases h
      exact ⟨rfl, rfl⟩

theorem Effect.refresh_eq {answer : Except Error Reply} {c' : Console}
    (h : Effect c files answer c') (hc : refresh c = c) (hcollected : c.collected = []) :
    refresh c' = c' ∧ c'.collected = [] := by
  cases h with
  | told reply => exact ⟨hc, hcollected⟩
  | reloaded hreload => exact ⟨rfl, hcollected⟩
  | failed hreload => exact ⟨hc, hcollected⟩
  | offered message =>
    rw [answerMessage_eq hcollected]
    exact ⟨congrArg (fun c' : Console => { c' with
      generator := (c.registry.dispatch message c.context c.generator).state }) hc, hcollected⟩

theorem Reached.refresh_eq (h : Reached config c) : refresh c = c ∧ c.collected = [] := by
  induction h with
  | start h => exact refresh_of_start h
  | answer files line _ ih => exact (effect_answer _ files line).refresh_eq ih.1 ih.2
  | withContext ctx _ ih => exact ⟨congrArg (fun c : Console => c.withContext ctx) ih.1, ih.2⟩

theorem Reached.settled (h : Reached config c) : c.Settled :=
  settled_of_refresh_eq h.refresh_eq.1 h.refresh_eq.2

/-- Behind the beginning of a word the line editor offers, in order, every word that goes on from
it. -/
theorem Settled.candidates (hc : c.Settled) {typed : String} (hclean : Text.hasBlank typed = false)
    (rest : String) :
    ∃ offered, Completion.candidates c.completions (typed ++ rest) typed.utf8ByteSize =
        some offered ∧ (offered.map Prod.fst).Pairwise (· < ·) ∧
      ∀ word text, (word, text) ∈ offered ↔
        (c.Opens word ∨ word ∈ [":commands", ":quit", ":reload"]) ∧
          Text.startsWith typed word = true ∧ text = word ++ " " := by
  rw [Completion.candidates_behind, hclean, if_neg Bool.false_ne_true]
  refine ⟨_, rfl, ?_, fun word text => ?_⟩
  · have hfst : Prod.fst ∘ (fun w : String => (w, w ++ " ")) = id := rfl
    rw [List.map_map, hfst, List.map_id]
    exact hc.ascending.filter _
  · simp only [List.mem_map, List.mem_filter, Prod.mk.injEq]
    constructor
    · rintro ⟨w, ⟨hmem, hstart⟩, rfl, rfl⟩
      exact ⟨(hc.mem_completions w).1 hmem, hstart, rfl⟩
    · rintro ⟨hmem, hstart, rfl⟩
      exact ⟨word, ⟨(hc.mem_completions word).2 hmem, hstart⟩, rfl, rfl⟩

/-- What a line says to the console itself; a message says nothing to it. -/
def metaWord? (line : String) : Option String :=
  (Text.cutStart? ":" (Text.trim line)).map Text.trim

theorem answer_of_metaWord {word : String} (h : metaWord? line = some word) :
    c.answer files line = c.answerMeta files word := by
  obtain ⟨word, hcut, rfl⟩ := Option.map_eq_some_iff.1 h
  exact answer_of_meta hcut

theorem answer_of_settled (hc : c.collected = []) (h : metaWord? line = none) :
    c.answer files line =
      (.ok (.ofOutcome (c.offer line).outcome), { c with generator := (c.offer line).state }) := by
  rw [answer_of_message (Option.map_eq_none_iff.1 h), answerMessage_eq hc]
  rfl

theorem answerMeta_ne_rejected (word : String) (fs : List Failure) :
    (c.answerMeta files word).1 ≠ .ok (.rejected fs) := by
  unfold answerMeta
  split
  · simp
  · split
    · simp
    · split
      · split <;> simp
      · simp

theorem answerMeta_eq_error_iff {word : String} {e : Error} :
    (c.answerMeta files word).1 = .error e ↔
      word = "reload" ∧ Registry.reloadAll (c.source.supply files) = .error e := by
  unfold answerMeta
  by_cases hquit : word = "quit" ∨ word = "q" ∨ word = "exit"
  · rw [if_pos hquit]
    have hne : word ≠ "reload" := by rcases hquit with rfl | rfl | rfl <;> decide
    simp [hne]
  · rw [if_neg hquit]
    by_cases hcommands : word = "commands"
    · subst hcommands
      simp
    · rw [if_neg hcommands]
      by_cases hreload : word = "reload"
      · rw [if_pos hreload]
        cases Registry.reloadAll (c.source.supply files) <;> simp [hreload]
      · rw [if_neg hreload]
        simp [hreload]

theorem Effect.eq_of_error {e : Error} {c' : Console} (h : Effect c files (.error e) c') :
    c' = c := by
  cases h with
  | failed hreload => rfl

theorem answer_eq_rejected_iff (hc : c.collected = []) {fs : List Failure} :
    (c.answer files line).1 = .ok (.rejected fs) ↔
      metaWord? line = none ∧ (c.offer line).outcome = .rejected fs := by
  cases hword : metaWord? line with
  | some word =>
    rw [answer_of_metaWord hword]
    simp [answerMeta_ne_rejected]
  | none =>
    rw [answer_of_settled hc hword]
    simp [Reply.ofOutcome_eq_rejected_iff]

theorem answer_eq_error_iff {e : Error} :
    (c.answer files line).1 = .error e ↔ metaWord? line = some "reload" ∧
      Registry.reloadAll (c.source.supply files) = .error e := by
  cases hword : metaWord? line with
  | some word =>
    rw [answer_of_metaWord hword, answerMeta_eq_error_iff, Option.some_inj]
  | none =>
    rw [answer_of_message (Option.map_eq_none_iff.1 hword)]
    simp

/-- At every console of a session, whatever the definition files are by then, the words offered for
completion are those of the loaded commands and no report waits for a reply. A line is rejected
exactly if it is a message that the commands reject, with the failures of that message. Only a
reload fails, exactly if not all commands can be made again, and then nothing changes. -/
theorem session_keeps_settled (h : Reached config c) : c.Settled ∧ ∀ files line,
    (c.answer files line).2.Settled ∧
    (∀ fs, (c.answer files line).1 = .ok (.rejected fs) ↔
      metaWord? line = none ∧ (c.offer line).outcome = .rejected fs) ∧
    (∀ e, (c.answer files line).1 = .error e ↔ metaWord? line = some "reload" ∧
      Registry.reloadAll (c.source.supply files) = .error e) ∧
    (∀ e, (c.answer files line).1 = .error e → (c.answer files line).2 = c) := by
  refine ⟨h.settled, fun files line => ⟨(h.answer files line).settled, fun fs => ?_, fun e => ?_,
    fun e he => ?_⟩⟩
  · exact answer_eq_rejected_iff h.settled.collected
  · exact answer_eq_error_iff
  · have heffect := c.effect_answer files line
    rw [he] at heffect
    exact heffect.eq_of_error

/-- A roll that is rejected, and a reload after the definition files are gone. -/
theorem rejection_and_failed_reload_keep_settled :
    ∃ c, start { commandsDir := some "commands" } (Demo.definitions "commands") 7 = .ok c ∧
      c.Settled ∧
      (c.answer {} "!roll 2 d 7000").1 = .ok (.rejected
        [{ argument := "sides", kind := .integer, cause := .outOfBounds 7000 2 1000,
           version := some "dice" }]) ∧
      (c.answer {} ":reload").1 = .error { problem := .io .notFound } ∧
      (c.answer {} ":reload").2 = c := by
  have hvalid : ({} : Config).validate = .ok () := by decide +kernel
  have hstart := start_read hvalid Demo.holds_definitions 7
  obtain ⟨hsettled, hanswer⟩ := session_keeps_settled (.start hstart)
  obtain ⟨-, hrejected, -⟩ := hanswer {} "!roll 2 d 7000"
  obtain ⟨-, -, herror, hsame⟩ := hanswer {} ":reload"
  have houtcome : Reply.ofOutcome ((opened { commandsDir := some "commands" } 7
      (Demo.registry "!")).offer "!roll 2 d 7000").outcome = .rejected
        [{ argument := "sides", kind := .integer, cause := .outOfBounds 7000 2 1000,
           version := some "dice" }] := by decide +kernel
  have hids : Source.idsIn {} "commands" = .error { problem := .io .notFound } := by decide +kernel
  have hreload : Registry.reloadAll ((Source.directory "commands" "!" Demo.handlers).supply {}) =
      .error { problem := .io .notFound } := by
    unfold Registry.reloadAll
    dsimp only [Source.supply]
    rw [hids]
    rfl
  have hfails := (herror _).2 ⟨by decide +kernel, hreload⟩
  refine ⟨_, hstart, hsettled, ?_, hfails, hsame _ hfails⟩
  exact (hrejected _).2 ⟨by decide +kernel, Reply.ofOutcome_eq_rejected_iff.1 houtcome⟩

end Console
end Chatline
