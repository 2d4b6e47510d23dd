import Chatline.Demo.Basic
import Chatline.Proofs.Registry

/-! What loading from a source gives when it can make every command it lists, and the demo commands
as such a source. -/
namespace Chatline

variable {σ : Type}

/-- The source lists these ids and makes these commands for them. -/
structure Supply.Offers (s : Supply σ) (cs : List (String × Command σ)) : Prop where
  ids : s.ids = .ok (cs.map Prod.fst)
  load : ∀ e ∈ cs, s.load e.1 = .ok e.2

/-- A list of commands in order is offered as it is. -/
theorem Source.offers_listed {cs : List (String × Command σ)}
    (hasc : cs.Pairwise (fun a b => a.1 < b.1)) (files : FileTree) :
    ((listed (NameMap.ofList (cs.map fun e => (e.1, .ok e.2)))).supply files).Offers cs := by
  have hpairs : (cs.map fun e => (e.1, (.ok e.2 : Except Error (Command σ)))).Pairwise
      (fun a b => a.1 < b.1) := List.pairwise_map.2 hasc
  have hkeys : (NameMap.ofList (cs.map fun e => (e.1, (.ok e.2 : Except Error (Command σ))))).keys =
      cs.map Prod.fst := by
    rw [NameMap.ofList_eq_mk hpairs]
    exact List.map_map
  constructor
  · exact congrArg Except.ok hkeys
  · intro e he
    have hmem := List.mem_map_of_mem (f := fun e => (e.1, (.ok e.2 : Except Error (Command σ)))) he
    have hfind := NameMap.find?_of_mem (NameMap.keys_nodup ⟨_, hpairs⟩) hmem
    unfold supply
    rw [NameMap.ofList_eq_mk hpairs]
    unfold NameMap.get?
    dsimp only
    rw [hfind]

namespace Registry

theorem fetch_of_load {s : Supply σ} {cs : List (String × Command σ)}
    (h : ∀ e ∈ cs, s.load e.1 = .ok e.2) : fetch s (cs.map Prod.fst) = .ok cs := by
  induction cs with
  | nil => rfl
  | cons e cs ih =>
    obtain ⟨he, hcs⟩ := List.forall_mem_cons.1 h
    rw [List.map_cons, fetch, he, ih hcs]
    rfl

variable {s : Supply σ} {cs : List (String × Command σ)}
  (hoffers : s.Offers cs) (hasc : cs.Pairwise (fun a b => a.1 < b.1))

include hoffers hasc

theorem reloadAll_of_offers : reloadAll s = .ok (⟨cs, hasc⟩, cs.length) := by
  have hall : insertAll ∅ cs = ⟨cs, hasc⟩ := NameMap.ofList_eq_mk hasc
  rw [reloadAll_of_listed s hoffers.ids, fetch_of_load hoffers.load, Except.map, hall]
  rfl

theorem loadAll_of_offers : loadAll s ∅ = .ok (⟨cs, hasc⟩, cs.length) := by
  have hall : insertAll ∅ cs = ⟨cs, hasc⟩ := NameMap.ofList_eq_mk hasc
  have hmissing : (loaded (∅ : Registry σ)).missing (cs.map Prod.fst) = cs.map Prod.fst :=
    List.filter_eq_self.2 fun _ _ => rfl
  rw [loadAll_of_listed s ∅ hoffers.ids, hmissing, fetch_of_load hoffers.load, Except.map, hall]

end Registry

namespace Demo

/-- The demo commands under their ids. -/
def commands (lead : String) : List (String × Command Generator) :=
  [ ("choose",
      { name := "choose"
        versions := chooseVersions lead
        handler := fun args _ g => choose Generator.index args g }),
    ("echo",
      { name := "echo"
        versions := echoVersions lead
        handler := fun args ctx g => (echo args ctx, g) }),
    ("roll",
      { name := "roll"
        versions := rollVersions lead
        handler := fun args _ g => roll Generator.die args g }) ]

theorem ids_ascending : ["choose", "echo", "roll"].Pairwise (· < ·) := by decide +kernel

theorem commands_ascending (lead : String) :
    (commands lead).Pairwise (fun a b => a.1 < b.1) := List.pairwise_map.1 ids_ascending

def registry (lead : String) : Registry Generator := ⟨commands lead, commands_ascending lead⟩

theorem get?_handlers {lead : String} {e : String × Command Generator} (he : e ∈ commands lead) :
    handlers.get? e.1 = some e.2.handler := by
  have hnodup : ["choose", "roll", "echo"].Nodup := by decide
  unfold handlers
  apply NameMap.get?_ofList_of_mem
  · exact hnodup
  · simp only [commands, List.mem_cons, List.not_mem_nil, or_false] at he
    rcases he with rfl | rfl | rfl <;> simp

theorem offers_source (lead : String) (files : FileTree) :
    ((source lead).supply files).Offers (commands lead) := by
  have hmade : ∀ e ∈ commands lead, command e.1 e.2.versions = .ok e.2 := by
    intro e he
    unfold command
    rw [get?_handlers he]
    simp only [commands, List.mem_cons, List.not_mem_nil, or_false] at he
    rcases he with rfl | rfl | rfl <;> rfl
  have hsource : source lead =
      .listed (NameMap.ofList ((commands lead).map fun e => (e.1, .ok e.2))) := by
    have hentries : ((commands lead).map fun e => (e.1, command e.1 e.2.versions)) =
        (commands lead).map fun e => (e.1, .ok e.2) :=
      List.map_congr_left fun e he => by rw [hmade e he]
    rw [← hentries]
    rfl
  rw [hsource]
  exact Source.offers_listed (commands_ascending lead) files

def triggers : List String := ["choose", "pick", "echo", "say", "roll", "roll"]

theorem triggers_registry (lead : String) :
    ((registry lead).values.flatMap Command.versions).flatMap Version.triggers = triggers := rfl

theorem clean_triggers : ∀ t ∈ triggers, Text.hasBlank t = false := by decide +kernel

end Demo
end Chatline
