import Chatline.Proofs.Console.Session
import Chatline.Proofs.Demo.Loading

/-! Consoles over the demo commands: they open, and throughout a session they keep exactly these
commands and fail at no line. -/
namespace Chatline.Console

/-- The console that a session opens with when its source makes these commands. -/
def opened (config : Config) (seed : UInt64) (registry : Registry Generator) : Console :=
  refresh
    { source := sourceOf config
      registry
      generator := .ofSeed (config.seed.getD seed)
      context := { author := some config.author }
      prompt := config.prompt
      showBanner := config.showBanner }

theorem start_of_offers {config : Config} {files : FileTree} {cs : List (String × Command Generator)}
    (hvalid : config.validate = .ok ()) (hoffers : ((sourceOf config).supply files).Offers cs)
    (hasc : cs.Pairwise (fun a b => a.1 < b.1)) (seed : UInt64) :
    start config files seed = .ok (opened config seed ⟨cs, hasc⟩) := by
  have hload := Registry.loadAll_of_offers hoffers hasc
  unfold start
  rw [hvalid]
  dsimp only
  rw [hload]
  rfl

theorem validate_of_start {config : Config} {files : FileTree} {seed : UInt64} {c : Console}
    (h : start config files seed = .ok c) : config.validate = .ok () := by
  unfold start at h
  cases hvalid : config.validate with
  | ok => rfl
  | error e =>
    rw [hvalid] at h
    cases h

/-- The console draws its commands from the demo source, has loaded them, and keeps no report. -/
structure OverDemo (lead : String) (c : Console) : Prop where
  source : c.source = Demo.source lead
  registry : c.registry = Demo.registry lead
  collected : c.collected = []

theorem start_demo {config : Config} (hvalid : config.validate = .ok ())
    (hdemo : config.commandsDir = none) (files : FileTree) (seed : UInt64) :
    start config files seed = .ok (opened config seed (Demo.registry config.lead)) := by
  have hsource : sourceOf config = Demo.source config.lead := by
    unfold sourceOf
    rw [hdemo]
  have hoffers := Demo.offers_source config.lead files
  rw [← hsource] at hoffers
  exact start_of_offers hvalid hoffers (Demo.commands_ascending config.lead) seed

namespace OverDemo

variable {lead : String} {c : Console} {files : FileTree}

theorem reloadAll_eq (h : OverDemo lead c) :
    Registry.reloadAll (c.source.supply files) = .ok (Demo.registry lead, 3) := by
  have hoffers := Demo.offers_source lead files
  rw [h.source]
  exact Registry.reloadAll_of_offers hoffers (Demo.commands_ascending lead)

theorem of_effect (h : OverDemo lead c) {answer : Except Error Reply} {c' : Console}
    (heffect : Effect c files answer c') : OverDemo lead c' ∧ ∃ reply, answer = .ok reply := by
  cases heffect with
  | told reply => exact ⟨h, reply, rfl⟩
  | reloaded hreload =>
    rw [h.reloadAll_eq] at hreload
    cases hreload
    exact ⟨⟨h.source, rfl, h.collected⟩, _, rfl⟩
  | failed hreload =>
    rw [h.reloadAll_eq] at hreload
    cases hreload
  | offered message => exact ⟨⟨h.source, h.registry, rfl⟩, _, rfl⟩

end OverDemo

theorem Reached.overDemo {config : Config} (hdemo : config.commandsDir = none) {c : Console}
    (h : Reached config c) : OverDemo config.lead c := by
  induction h with
  | @start files seed c h =>
    rw [start_demo (validate_of_start h) hdemo] at h
    cases h
    refine ⟨?_, rfl, rfl⟩
    change sourceOf config = _
    unfold sourceOf
    rw [hdemo]
  | answer files line _ ih => exact (ih.of_effect (effect_answer _ files line)).1
  | withContext ctx _ ih => exact ⟨ih.source, ih.registry, ih.collected⟩

end Chatline.Console
