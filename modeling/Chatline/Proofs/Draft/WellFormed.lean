import Chatline.Proofs.Draft.Vocabulary
import Mathlib.Data.List.Forall2

/-! Building a draft as a check. It succeeds exactly for well-formed drafts, what is built mirrors
the draft part by part, and an error names the first version that is not well formed. -/
namespace Chatline

/-- A check that answers what passes it, and nothing else, with a mirror image of it. -/
def Checks {ε α : Type} (passes : Prop) (mirrors : α → Prop) : Except ε α → Prop
  | .ok a => passes ∧ mirrors a
  | .error _ => ¬ passes

namespace Checks

variable {ε α β : Type} {p q : Prop} {m : α → Prop} {n : β → Prop} {x : Except ε α}

theorem of_iff (hx : Checks p m x) (hpq : p ↔ q) : Checks q m x := propext hpq ▸ hx

theorem pure {b : β} (h : n b) : Checks (ε := ε) True n (.ok b) := ⟨trivial, h⟩

theorem map (hx : Checks p m x) {g : α → β} (hg : ∀ a, m a → n (g a)) : Checks p n (x.map g) := by
  cases x with
  | ok a => exact ⟨hx.1, hg a hx.2⟩
  | error e => exact hx

/-- Two checks in a row, of which the second may depend on what the first one gave. -/
theorem bind {f : α → Except ε β} (hx : Checks p m x) (hf : ∀ a, m a → Checks q n (f a)) :
    Checks (p ∧ q) n (x >>= f) := by
  cases x with
  | error e => exact fun h => hx h.1
  | ok a =>
    obtain ⟨hp, ha⟩ := hx
    exact (hf a ha).of_iff (and_iff_right hp).symm

/-- The parts of a list are checked one after the other. -/
theorem cons {δ : Type} {passes : δ → Prop} {mirrors : δ → α → Prop} {d : δ} {ds : List δ}
    {xs : Except ε (List α)} (hx : Checks (passes d) (mirrors d) x)
    (hxs : Checks (∀ d ∈ ds, passes d) (List.Forall₂ mirrors ds) xs) :
    Checks (∀ e ∈ d :: ds, passes e) (List.Forall₂ mirrors (d :: ds))
      (x >>= fun a => xs >>= fun as => .ok (a :: as)) := by
  have hboth : Checks (passes d ∧ (∀ d ∈ ds, passes d) ∧ True) (List.Forall₂ mirrors (d :: ds))
      (x >>= fun a => xs >>= fun as => .ok (a :: as)) :=
    hx.bind fun a ha => hxs.bind fun as has => .pure (.cons ha has)
  exact hboth.of_iff (by rw [and_true, List.forall_mem_cons])

end Checks

namespace MatcherDraft

/-- Bounds are not reversed, and there are words to choose from. -/
def WellFormed : MatcherDraft → Prop
  | integer min max => min.getD Int64.minValue ≤ max.getD Int64.maxValue
  | text _ => True
  | choice options => options ≠ [] ∧ ∀ w ∈ options, w ≠ "" ∧ Text.hasBlank w = false

/-- The same kind of matcher; a side without a bound has the extreme of 64 bits. -/
inductive Mirrors : MatcherDraft → Matcher → Prop
  | integer {min max : Option Int64} :
      Mirrors (integer min max) (.integer (min.getD Int64.minValue) (max.getD Int64.maxValue))
  | text {limit : Option Nat} : Mirrors (text limit) (.text limit)
  | choice {options : List String} : Mirrors (choice options) (.choice options)

theorem checks_build (d : MatcherDraft) : Checks d.WellFormed d.Mirrors d.build := by
  cases d with
  | integer min max =>
    rw [build, Matcher.integer?]
    split
    · rename_i hreversed
      exact fun h => Int64.not_le.2 hreversed h
    · rename_i hordered
      exact ⟨Int64.not_lt.1 hordered, .integer⟩
  | text limit => exact ⟨trivial, .text⟩
  | choice options =>
    have hword : ∀ w, Matcher.isWord w = true ↔ w ≠ "" ∧ Text.hasBlank w = false := fun w =>
      Matcher.isWord_iff.trans Text.words_eq_self_iff
    rw [build, Matcher.choice?]
    split
    · rename_i hnone
      exact fun h => h.1 (List.isEmpty_iff.1 hnone)
    · rename_i hsome
      split
      · rename_i hall
        exact ⟨⟨by simpa using hsome, fun w hw => (hword w).1 (List.all_eq_true.1 hall w hw)⟩,
          .choice⟩
      · rename_i hbad
        exact fun h => hbad (List.all_eq_true.2 fun w hw => (hword w).2 (h.2 w hw))

end MatcherDraft

namespace LeafDraft

structure WellFormed (d : LeafDraft) : Prop where
  some : d.matchers ≠ []
  matchers : ∀ m ∈ d.matchers, m.WellFormed

/-- A leaf that yields values, with the settings of the draft and its matchers in their order. -/
structure Mirrors (d : LeafDraft) (l : Leaf) : Prop where
  name : l.name = d.name
  matchers : List.Forall₂ MatcherDraft.Mirrors d.matchers l.matchers
  literal : l.literal = false
  optional : l.optional = d.optional
  fallback : l.fallback = d.fallback
  priority : l.priority = d.priority

theorem checks_buildMatchers (ds : List MatcherDraft) :
    Checks (∀ d ∈ ds, d.WellFormed) (List.Forall₂ MatcherDraft.Mirrors ds) (buildMatchers ds) := by
  induction ds with
  | nil => exact ⟨by simp, .nil⟩
  | cons d ds ih => exact d.checks_build.cons ih

theorem checks_ofMatchers? (name : String) (ms : List Matcher) :
    Checks (ms ≠ []) (· = { name, matchers := ms }) (Leaf.ofMatchers? name ms) := by
  unfold Leaf.ofMatchers?
  split
  · rename_i hnone
    exact fun h => h (List.isEmpty_iff.1 hnone)
  · rename_i hsome
    exact ⟨by simpa using hsome, rfl⟩

theorem checks_build (d : LeafDraft) : Checks d.WellFormed d.Mirrors d.build := by
  have hboth : Checks ((∀ m ∈ d.matchers, m.WellFormed) ∧ d.matchers ≠ [] ∧ True) d.Mirrors
      d.build := by
    refine (checks_buildMatchers d.matchers).bind fun ms hms => ?_
    have hempty : ms ≠ [] ↔ d.matchers ≠ [] := by
      rw [← List.length_pos_iff, ← List.length_pos_iff, hms.length_eq]
    refine ((checks_ofMatchers? d.name ms).of_iff hempty).bind fun leaf hleaf => ?_
    subst hleaf
    exact .pure ⟨rfl, hms, rfl, rfl, rfl, rfl⟩
  exact hboth.of_iff ⟨fun h => ⟨h.2.1, h.1⟩, fun h => ⟨h.matchers, h.some, trivial⟩⟩

end LeafDraft

namespace ShapeDraft

/-- A group that is repeated is allowed at least one pass, and not fewer than it has to have. -/
def WellFormed (d : ShapeDraft) : Prop :=
  ∀ min max, d.repetition = some (min, max) → 1 ≤ max ∧ min ≤ max

structure Mirrors (d : ShapeDraft) (s : Shape) : Prop where
  optional : s.optional = d.optional
  sparse : s.sparse = d.sparse
  flexible : s.flexible = d.flexible
  bounds : s.repetition.map (fun r => (r.min, r.max)) =
    d.repetition.map fun r => (r.1.toNat, r.2.toNat)
  priority : s.priority = d.priority

theorem checks_of? (min max : UInt32) : Checks (1 ≤ max ∧ min ≤ max)
    (fun r => r.min = min.toNat ∧ r.max = max.toNat) (Repetition.of? min max) := by
  unfold Repetition.of?
  split
  · rename_i hzero
    subst hzero
    exact fun h => absurd h.1 (by decide)
  · rename_i hpos
    have hone : 1 ≤ max := by
      rw [UInt32.le_iff_toNat_le]
      exact Nat.pos_of_ne_zero fun h => hpos (UInt32.toNat_inj.1 h)
    split
    · rename_i hreversed
      exact fun h => UInt32.not_le.2 hreversed h.2
    · rename_i hordered
      exact ⟨⟨hone, UInt32.not_lt.1 hordered⟩, rfl, rfl⟩

theorem checks_build (d : ShapeDraft) : Checks d.WellFormed d.Mirrors d.build := by
  unfold build
  cases hrepetition : d.repetition with
  | none =>
    refine ⟨fun min max h => ?_, rfl, rfl, rfl, ?_, rfl⟩
    · rw [hrepetition] at h
      cases h
    · rw [hrepetition]
      rfl
  | some bounds =>
    obtain ⟨min, max⟩ := bounds
    have hwf : (1 ≤ max ∧ min ≤ max) ∧ True ↔ d.WellFormed := by
      unfold WellFormed
      rw [hrepetition, and_true]
      constructor
      · rintro h min' max' heq
        cases heq
        exact h
      · exact fun h => h min max rfl
    have hboth : Checks ((1 ≤ max ∧ min ≤ max) ∧ True) d.Mirrors
        ((Repetition.of? min max).map some >>= fun repetition =>
          .ok { optional := d.optional, sparse := d.sparse, flexible := d.flexible, repetition,
                priority := d.priority }) := by
      refine ((checks_of? min max).map (n := fun r =>
        r.map (fun r => (r.min, r.max)) = d.repetition.map fun r => (r.1.toNat, r.2.toNat))
        fun r hr => ?_).bind fun r hr => .pure ⟨rfl, rfl, rfl, hr, rfl⟩
      rw [hrepetition, Option.map_some, Option.map_some, hr.1, hr.2]
    exact hboth.of_iff hwf

end ShapeDraft

namespace NodeDraft

/-- Every part is well formed: a leaf with its matchers, a literal of one word, and a group with
everything below it. -/
inductive WellFormed : NodeDraft → Prop
  | leaf {d : LeafDraft} (h : d.WellFormed) : WellFormed (leaf d)
  | word {w : String} {optional : Bool} {priority : Int} (h : (Text.words w).length = 1) :
      WellFormed (word w optional priority)
  | group {shape : ShapeDraft} {children : List NodeDraft} (hchildren : ∀ c ∈ children, WellFormed c)
      (hshape : shape.WellFormed) : WellFormed (group shape children)

/-- The same tree, part by part and in the same order. -/
inductive Mirrors : NodeDraft → Node → Prop
  | leaf {d : LeafDraft} {l : Leaf} (h : d.Mirrors l) : Mirrors (leaf d) (.leaf l)
  | word {w : String} {optional : Bool} {priority : Int} :
      Mirrors (word w optional priority) (.leaf { Leaf.word w with optional, priority })
  | group {shape : ShapeDraft} {shape' : Shape} {children : List NodeDraft} {children' : List Node}
      (hshape : shape.Mirrors shape') (hchildren : List.Forall₂ Mirrors children children') :
      Mirrors (group shape children) (.group shape' children')

theorem checks_buildAll {ds : List NodeDraft} (h : ∀ d ∈ ds, Checks d.WellFormed d.Mirrors d.build) :
    Checks (∀ d ∈ ds, d.WellFormed) (List.Forall₂ Mirrors ds) (buildAll ds) := by
  induction ds with
  | nil => exact ⟨by simp, .nil⟩
  | cons d ds ih =>
    obtain ⟨hd, hds⟩ := List.forall_mem_cons.1 h
    exact hd.cons (ih hds)

theorem checks_build (d : NodeDraft) : Checks d.WellFormed d.Mirrors d.build := by
  induction d using induct with
  | leaf d =>
    have hleaf : Checks d.WellFormed (Mirrors (leaf d)) (d.build.map .leaf) :=
      d.checks_build.map fun l => .leaf
    exact hleaf.of_iff ⟨.leaf, fun h => by cases h; assumption⟩
  | word w optional priority =>
    unfold build
    split
    · rename_i hone
      exact ⟨.word hone, .word⟩
    · rename_i hwords
      intro h
      cases h with
      | word hone => exact hwords hone
  | group shape children ih =>
    have hboth : Checks ((∀ c ∈ children, c.WellFormed) ∧ shape.WellFormed ∧ True)
        (Mirrors (group shape children)) (build (group shape children)) :=
      (checks_buildAll ih).bind fun ns hns => shape.checks_build.bind fun s hs =>
        .pure (.group hs hns)
    refine hboth.of_iff ⟨fun h => .group h.1 h.2.1, fun h => ?_⟩
    cases h with
    | group hchildren hshape => exact ⟨hchildren, hshape, trivial⟩

end NodeDraft

namespace VersionDraft

structure WellFormed (d : VersionDraft) : Prop where
  triggers : d.triggers ≠ []
  trigger : ∀ t ∈ d.triggers, Text.allBlank t = false
  arguments : ∀ n ∈ d.arguments, n.WellFormed

/-- The version is labelled by its first trigger and has the lead given, unless the draft has a label
or a lead of its own. Its arguments are those of the draft, once and in their order. -/
structure Mirrors (lead : String) (d : VersionDraft) (v : Version) : Prop where
  label : d.label.or d.triggers.head? = some v.label
  lead : v.lead = d.lead.getD lead
  triggers : v.triggers = d.triggers
  shape : v.root.shape = {}
  arguments : List.Forall₂ NodeDraft.Mirrors d.arguments v.root.children

theorem checks_of? (lead : String) (triggers : List String) (root : Group) :
    Checks (triggers ≠ [] ∧ ∀ t ∈ triggers, Text.allBlank t = false)
      (fun v => triggers.head? = some v.label ∧ v.lead = lead ∧ v.triggers = triggers ∧ v.root = root)
      (Version.of? lead triggers root) := by
  unfold Version.of?
  cases triggers with
  | nil => exact fun h => h.1 rfl
  | cons first others =>
    dsimp only
    cases hblank : (first :: others).find? Text.allBlank with
    | some t =>
      have ht : Text.allBlank t = true := List.find?_some hblank
      exact fun h => by simp [h.2 t (List.mem_of_find?_eq_some hblank)] at ht
    | none =>
      have hclean := List.find?_eq_none.1 hblank
      exact ⟨⟨List.cons_ne_nil _ _, fun t ht => by simpa using hclean t ht⟩, rfl, rfl, rfl, rfl⟩

theorem checks_build (d : VersionDraft) (lead : String) :
    Checks d.WellFormed (d.Mirrors lead) (d.build lead) := by
  have hboth : Checks ((∀ n ∈ d.arguments, n.WellFormed) ∧
      (d.triggers ≠ [] ∧ ∀ t ∈ d.triggers, Text.allBlank t = false) ∧ True) (d.Mirrors lead)
      (d.build lead) := by
    refine (NodeDraft.checks_buildAll fun n _ => n.checks_build).bind fun children hchildren => ?_
    refine (checks_of? (d.lead.getD lead) d.triggers { children }).bind fun v hv => ?_
    obtain ⟨hlabel, hlead, htriggers, hroot⟩ := hv
    have hshape : v.root.shape = {} := by rw [hroot]
    have harguments : List.Forall₂ NodeDraft.Mirrors d.arguments v.root.children := by
      rw [hroot]
      exact hchildren
    refine .pure ?_
    cases hd : d.label with
    | none => exact ⟨by rw [hd]; exact hlabel, hlead, htriggers, hshape, harguments⟩
    | some label => exact ⟨by rw [hd]; rfl, hlead, htriggers, hshape, harguments⟩
  exact hboth.of_iff ⟨fun h => ⟨h.2.1.1, h.2.1.2, h.1⟩,
    fun h => ⟨h.arguments, ⟨h.triggers, h.trigger⟩, trivial⟩⟩

end VersionDraft

namespace Draft

variable {σ : Type}

/-- The handler that the draft names is there, and there are versions, all well formed. -/
structure WellFormed (id : String) (handlers : Handlers σ) (d : Draft) : Prop where
  handler : handlers.get? (d.handler.getD id) ≠ none
  some : d.versions ≠ []
  versions : ∀ v ∈ d.versions, v.WellFormed

/-- The command has the handler that the draft names and its versions in their order. -/
structure Mirrors (id lead : String) (handlers : Handlers σ) (d : Draft) (c : Command σ) : Prop where
  name : c.name = d.name.getD id
  handler : handlers.get? (d.handler.getD id) = some c.handler
  versions : List.Forall₂ (VersionDraft.Mirrors lead) d.versions c.versions

/-- The part of a draft that is to blame: none if the handler or the versions are missing, else the
first version that is not well formed, counted from one. -/
inductive Blames (id : String) (handlers : Handlers σ) (d : Draft) : List String → Prop
  | draft (h : handlers.get? (d.handler.getD id) = none ∨ d.versions = []) : Blames id handlers d []
  | version {before after : List VersionDraft} {v : VersionDraft}
      (hhandler : handlers.get? (d.handler.getD id) ≠ none) (hsplit : d.versions = before ++ v :: after)
      (hbefore : ∀ u ∈ before, u.WellFormed) (hv : ¬ v.WellFormed) :
      Blames id handlers d ["version " ++ toString (before.length + 1)]

theorem buildVersions_cases (id lead : String) (k : Nat) (ds : List VersionDraft) :
    (∃ vs, buildVersions id lead k ds = .ok vs ∧ (∀ d ∈ ds, d.WellFormed) ∧
      List.Forall₂ (VersionDraft.Mirrors lead) ds vs) ∨
    (∃ before d after fault, ds = before ++ d :: after ∧ (∀ u ∈ before, u.WellFormed) ∧
      ¬ d.WellFormed ∧ buildVersions id lead k ds = .error
        { fault
          place := { command := some id, stack := ["version " ++ toString (k + before.length)] } }) := by
  induction ds generalizing k with
  | nil => exact .inl ⟨[], rfl, by simp, .nil⟩
  | cons d ds ih =>
    have hd := d.checks_build lead
    unfold buildVersions
    cases hbuild : d.build lead with
    | error fault =>
      rw [hbuild] at hd
      exact .inr ⟨[], d, ds, fault, rfl, by simp, hd, rfl⟩
    | ok v =>
      rw [hbuild] at hd
      obtain ⟨hwf, hv⟩ := hd
      dsimp only
      obtain ⟨vs, hvs, hall, hmirrors⟩ | ⟨before, e, after, fault, rfl, hbefore, he, herror⟩ :=
        ih (k + 1)
      · rw [hvs]
        exact .inl ⟨v :: vs, rfl, List.forall_mem_cons.2 ⟨hwf, hall⟩, .cons hv hmirrors⟩
      · have hnumber : k + (d :: before).length = k + 1 + before.length := by
          rw [List.length_cons]
          omega
        rw [herror]
        refine .inr ⟨d :: before, e, after, fault, rfl, List.forall_mem_cons.2 ⟨hwf, hbefore⟩, he, ?_⟩
        rw [hnumber]
        rfl

theorem build_cases (d : Draft) (id lead : String) (handlers : Handlers σ) :
    (∃ c, d.build id lead handlers = .ok c ∧ d.WellFormed id handlers ∧
      d.Mirrors id lead handlers c) ∨
    (∃ fault stack, d.build id lead handlers =
        .error { fault, place := { command := some id, stack } } ∧
      ¬ d.WellFormed id handlers ∧ d.Blames id handlers stack) := by
  unfold build
  dsimp only
  cases hhandler : handlers.get? (d.handler.getD id) with
  | none => exact .inr ⟨_, [], rfl, fun h => h.handler hhandler, .draft (.inl hhandler)⟩
  | some handler =>
    have hthere : handlers.get? (d.handler.getD id) ≠ none := by simp [hhandler]
    dsimp only
    split
    · rename_i hnone
      have hempty := List.isEmpty_iff.1 hnone
      exact .inr ⟨_, [], rfl, fun h => h.some hempty, .draft (.inr hempty)⟩
    · rename_i hsome
      obtain ⟨vs, hvs, hall, hmirrors⟩ | ⟨before, v, after, fault, hsplit, hbefore, hv, herror⟩ :=
        buildVersions_cases id lead 1 d.versions
      · rw [hvs]
        exact .inl ⟨_, rfl, ⟨hthere, by simpa using hsome, hall⟩, rfl, hhandler, hmirrors⟩
      · rw [herror, Nat.add_comm 1]
        have hmem : v ∈ d.versions := hsplit ▸ List.mem_append_right _ List.mem_cons_self
        exact .inr ⟨_, _, rfl, fun h => hv (h.versions v hmem), .version hthere hsplit hbefore hv⟩

/-- A draft builds exactly if it is well formed, and then the command mirrors it. Otherwise the error
is about the definition of this command, and about its first version that is not well formed unless
the handler or the versions are missing. -/
theorem build_accepts_well_formed (d : Draft) (id lead : String) (handlers : Handlers σ) :
    ((∃ c, d.build id lead handlers = .ok c) ↔ d.WellFormed id handlers) ∧
    (∀ c, d.build id lead handlers = .ok c → d.Mirrors id lead handlers c) ∧
    (∀ flaw, d.build id lead handlers = .error flaw → ∃ stack, d.Blames id handlers stack ∧
      flaw.toError = { problem := .invalidDefinition flaw.fault
                       place := some { command := some id, stack } }) := by
  obtain ⟨c, hc, hwf, hmirrors⟩ | ⟨fault, stack, herror, hbad, hblames⟩ :=
    d.build_cases id lead handlers
  · rw [hc]
    refine ⟨⟨fun _ => hwf, fun _ => ⟨c, rfl⟩⟩, fun c' h => ?_, fun flaw h => ?_⟩
    · cases h
      exact hmirrors
    · cases h
  · rw [herror]
    refine ⟨⟨fun ⟨c, h⟩ => (by cases h), fun h => absurd h hbad⟩, fun c h => ?_, fun flaw h => ?_⟩
    · cases h
    · cases h
      exact ⟨stack, hblames, rfl⟩

end Draft
end Chatline
