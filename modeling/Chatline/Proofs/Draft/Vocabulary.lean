import Chatline.Draft.Basic
import Chatline.Proofs.Text.Words

/-! The words that an accepted definition compares tokens with. The options of its choices are
single words as they stand; its literals are single words up to blanks at their ends, and with
such blanks no token equals them. -/
namespace Chatline

variable {σ : Type}

theorem except_bind_eq_ok_iff {ε α β : Type} {x : Except ε α} {f : α → Except ε β} {b : β} :
    (x >>= f) = .ok b ↔ ∃ a, x = .ok a ∧ f a = .ok b := by
  cases x with
  | error e => exact ⟨fun h => (by cases h), fun ⟨_, h, _⟩ => (by cases h)⟩
  | ok a => exact ⟨fun h => ⟨a, rfl, h⟩, fun ⟨_, h, hf⟩ => (Except.ok.inj h) ▸ hf⟩

theorem except_map_eq_ok_iff {ε α β : Type} {x : Except ε α} {f : α → β} {b : β} :
    x.map f = .ok b ↔ ∃ a, x = .ok a ∧ f a = b := by
  cases x <;> simp [Except.map]

/-- The words that a matcher accepts one of. -/
def Matcher.options : Matcher → List String
  | choice options => options
  | _ => []

namespace Node

mutual

/-- All leaves of a place from left to right, those without values too. -/
def everyLeaf : Node → List Leaf
  | leaf l => [l]
  | group _ children => everyLeafOf children

def everyLeafOf : List Node → List Leaf
  | [] => []
  | c :: cs => c.everyLeaf ++ everyLeafOf cs

end

theorem mem_everyLeafOf {children : List Node} {l : Leaf} :
    l ∈ everyLeafOf children ↔ ∃ c ∈ children, l ∈ c.everyLeaf := by
  induction children with
  | nil => simp [everyLeafOf]
  | cons c cs ih => simp [everyLeafOf, ih]

end Node

namespace Command

def everyLeaf (c : Command σ) : List Leaf := c.versions.flatMap fun v => v.root.toNode.everyLeaf

/-- The words of the literal leaves, at any depth. -/
def literals (c : Command σ) : List String := (c.everyLeaf.filter Leaf.literal).map Leaf.name

/-- The options of the choices, at any depth. -/
def options (c : Command σ) : List String :=
  c.everyLeaf.flatMap fun l => l.matchers.flatMap Matcher.options

end Command

theorem Matcher.isWord_iff {option : String} : isWord option = true ↔ Text.words option = [option] := by
  rw [Text.words_eq_self_iff, isWord, Bool.and_eq_true, Bool.not_eq_true', Bool.not_eq_true']
  refine and_congr_left fun hblank => ?_
  -- without blanks the text is all blank only if it is empty
  have hclean := Text.clean_toList_iff.2 hblank
  rw [Text.allBlank, ← Bool.not_eq_true, List.all_eq_true, not_iff_not]
  constructor
  · intro hall
    by_contra hne
    obtain ⟨c, cs, hcs⟩ := List.exists_cons_of_ne_nil (mt String.toList_eq_nil_iff.1 hne)
    have hmem : c ∈ option.toList := by simp [hcs]
    exact absurd (hall c hmem) (by simp [hclean c hmem])
  · rintro rfl
    simp

/-- What building checks of a leaf. -/
structure Leaf.Checked (l : Leaf) : Prop where
  literal : l.literal = true → (Text.words l.name).length = 1
  option : ∀ m ∈ l.matchers, ∀ w ∈ m.options, Text.words w = [w]

theorem MatcherDraft.options_of_build {d : MatcherDraft} {m : Matcher} (h : d.build = .ok m) :
    ∀ w ∈ m.options, Text.words w = [w] := by
  cases d with
  | integer min max =>
    simp only [build, Matcher.integer?] at h
    split at h
    · cases h
    · cases h
      simp [Matcher.options]
  | text limit =>
    cases h
    simp [Matcher.options]
  | choice options =>
    simp only [build, Matcher.choice?] at h
    split at h
    · cases h
    · split at h
      · rename_i hall
        cases h
        exact fun w hw => Matcher.isWord_iff.1 (List.all_eq_true.1 hall w hw)
      · cases h

namespace LeafDraft

theorem mem_of_buildMatchers {ds : List MatcherDraft} {ms : List Matcher}
    (h : buildMatchers ds = .ok ms) : ∀ m ∈ ms, ∃ d ∈ ds, d.build = .ok m := by
  induction ds generalizing ms with
  | nil =>
    cases h
    simp
  | cons d ds ih =>
    obtain ⟨m, hm, hrest⟩ := except_bind_eq_ok_iff.1 h
    obtain ⟨ms', hms, hcons⟩ := except_bind_eq_ok_iff.1 hrest
    cases hcons
    refine List.forall_mem_cons.2 ⟨⟨d, List.mem_cons_self, hm⟩, fun m' hm' => ?_⟩
    obtain ⟨d', hd', hbuild⟩ := ih hms m' hm'
    exact ⟨d', List.mem_cons_of_mem _ hd', hbuild⟩

theorem checked_of_build {d : LeafDraft} {l : Leaf} (h : d.build = .ok l) : l.Checked := by
  obtain ⟨ms, hms, hrest⟩ := except_bind_eq_ok_iff.1 h
  obtain ⟨leaf, hleaf, hl⟩ := except_bind_eq_ok_iff.1 hrest
  unfold Leaf.ofMatchers? at hleaf
  split at hleaf
  · cases hleaf
  · cases hleaf
    cases hl
    refine { literal := by simp, option := fun m hm => ?_ }
    obtain ⟨d', -, hbuild⟩ := mem_of_buildMatchers hms m hm
    exact MatcherDraft.options_of_build hbuild

end LeafDraft

namespace NodeDraft

/-- Induction on a draft, with the statement at hand for every child of a group. -/
@[elab_as_elim]
theorem induct {P : NodeDraft → Prop} (leaf : ∀ l, P (.leaf l))
    (word : ∀ w optional priority, P (.word w optional priority))
    (group : ∀ shape children, (∀ c ∈ children, P c) → P (.group shape children)) : ∀ d, P d
  | .leaf l => leaf l
  | .word w optional priority => word w optional priority
  | .group shape children => group shape children fun c _ => induct leaf word group c

theorem mem_of_buildAll {ds : List NodeDraft} {ns : List Node} (h : buildAll ds = .ok ns) :
    ∀ n ∈ ns, ∃ d ∈ ds, d.build = .ok n := by
  induction ds generalizing ns with
  | nil =>
    cases h
    simp
  | cons d ds ih =>
    obtain ⟨n, hn, hrest⟩ := except_bind_eq_ok_iff.1 h
    obtain ⟨ns', hns, hcons⟩ := except_bind_eq_ok_iff.1 hrest
    cases hcons
    refine List.forall_mem_cons.2 ⟨⟨d, List.mem_cons_self, hn⟩, fun n' hn' => ?_⟩
    obtain ⟨d', hd', hbuild⟩ := ih hns n' hn'
    exact ⟨d', List.mem_cons_of_mem _ hd', hbuild⟩

theorem checked_of_build {d : NodeDraft} {n : Node} (h : d.build = .ok n) :
    ∀ l ∈ n.everyLeaf, l.Checked := by
  induction d using induct generalizing n with
  | leaf d =>
    obtain ⟨l, hl, rfl⟩ := except_map_eq_ok_iff.1 h
    simpa [Node.everyLeaf] using LeafDraft.checked_of_build hl
  | word w optional priority =>
    unfold build at h
    split at h
    · rename_i hone
      cases h
      have hchecked : Leaf.Checked { Leaf.word w with optional, priority } :=
        { literal := fun _ => hone, option := by simp [Leaf.word] }
      simpa [Node.everyLeaf] using hchecked
    · cases h
  | group shape children ih =>
    unfold build at h
    obtain ⟨ns, hns, hrest⟩ := except_bind_eq_ok_iff.1 h
    obtain ⟨s, -, hgroup⟩ := except_bind_eq_ok_iff.1 hrest
    cases hgroup
    intro l hl
    obtain ⟨c, hc, hleaf⟩ := Node.mem_everyLeafOf.1 hl
    obtain ⟨d, hd, hbuild⟩ := mem_of_buildAll hns c hc
    exact ih d hd hbuild l hleaf

end NodeDraft

theorem VersionDraft.checked_of_build {d : VersionDraft} {lead : String} {v : Version}
    (h : d.build lead = .ok v) : ∀ l ∈ v.root.toNode.everyLeaf, l.Checked := by
  obtain ⟨children, hchildren, hrest⟩ := except_bind_eq_ok_iff.1 h
  obtain ⟨version, hversion, hlabel⟩ := except_bind_eq_ok_iff.1 hrest
  have hroot : v.root = { children } := by
    have hmade : version.root = { children } := by
      unfold Version.of? at hversion
      split at hversion
      · cases hversion
      · split at hversion
        · cases hversion
        · cases hversion
          rfl
    cases hlabel
    cases d.label <;> exact hmade
  rw [hroot]
  intro l hl
  obtain ⟨c, hc, hleaf⟩ := Node.mem_everyLeafOf.1 hl
  obtain ⟨d', -, hbuild⟩ := NodeDraft.mem_of_buildAll hchildren c hc
  exact NodeDraft.checked_of_build hbuild l hleaf

namespace Draft

theorem mem_of_buildVersions {id lead : String} {k : Nat} {ds : List VersionDraft}
    {vs : List Version} (h : buildVersions id lead k ds = .ok vs) :
    ∀ v ∈ vs, ∃ d ∈ ds, d.build lead = .ok v := by
  induction ds generalizing k vs with
  | nil =>
    cases h
    simp
  | cons d ds ih =>
    unfold buildVersions at h
    split at h
    · cases h
    · rename_i version hversion
      obtain ⟨vs', hvs, rfl⟩ := except_map_eq_ok_iff.1 h
      refine List.forall_mem_cons.2 ⟨⟨d, List.mem_cons_self, hversion⟩, fun v hv => ?_⟩
      obtain ⟨d', hd', hbuild⟩ := ih hvs v hv
      exact ⟨d', List.mem_cons_of_mem _ hd', hbuild⟩

theorem checked_of_build {d : Draft} {id lead : String} {handlers : Handlers σ} {c : Command σ}
    (h : d.build id lead handlers = .ok c) : ∀ l ∈ c.everyLeaf, l.Checked := by
  simp only [build] at h
  split at h
  · cases h
  · split at h
    · cases h
    · obtain ⟨vs, hvs, rfl⟩ := except_map_eq_ok_iff.1 h
      intro l hl
      obtain ⟨v, hv, hleaf⟩ := List.mem_flatMap.1 hl
      obtain ⟨d', -, hbuild⟩ := mem_of_buildVersions hvs v hv
      exact VersionDraft.checked_of_build hbuild l hleaf

theorem words_eq_trim {w : String} (h : (Text.words w).length = 1) :
    Text.words w = [Text.trim w] := by
  obtain ⟨word, hword⟩ := List.length_eq_one_iff.1 h
  rw [Text.trim_of_words_eq_singleton hword, hword]

/-- A text with one word is a word of some message exactly if it has no blanks at its ends. -/
theorem occurs_iff_trim {w : String} (h : (Text.words w).length = 1) :
    (∃ message, w ∈ Text.words message) ↔ Text.trim w = w := by
  have htrim := words_eq_trim h
  constructor
  · rintro ⟨message, hmem⟩
    have hself := Text.words_eq_self_iff.2 (Text.ne_empty_and_clean_of_mem_words hmem)
    exact Text.trim_of_words_eq_singleton hself
  · intro hw
    exact ⟨w, by rw [htrim, hw]; exact List.mem_singleton_self w⟩

/-- An option of a definition that builds is its own only word. A literal has one word, itself
without the blanks at its ends, and occurs in messages exactly if it has none. -/
theorem vocabulary_occurs_iff {d : Draft} {id lead : String} {handlers : Handlers σ}
    {c : Command σ} (h : d.build id lead handlers = .ok c) :
    (∀ w ∈ c.options, Text.words w = [w]) ∧
    (∀ w ∈ c.literals, Text.words w = [Text.trim w] ∧
      ((∃ message, w ∈ Text.words message) ↔ Text.trim w = w)) := by
  have hchecked := checked_of_build h
  constructor
  · intro w hw
    obtain ⟨l, hl, hmatcher⟩ := List.mem_flatMap.1 hw
    obtain ⟨m, hm, hoption⟩ := List.mem_flatMap.1 hmatcher
    exact (hchecked l hl).option m hm w hoption
  · intro w hw
    obtain ⟨l, hl, rfl⟩ := List.mem_map.1 hw
    obtain ⟨hleaf, hlit⟩ := List.mem_filter.1 hl
    have hone := (hchecked l hleaf).literal hlit
    exact ⟨words_eq_trim hone, occurs_iff_trim hone⟩

/-- A handler that gives no reply, under the name `vote`. -/
def mute : Handlers Unit := NameMap.ofList [("vote", fun _ _ st => (none, st))]

/-- A definition with a literal and, in a group after it, a choice. -/
def ballot (literal : String) (options : List String) : Draft :=
  { versions := [{ triggers := ["vote"], arguments := [.word literal false 0,
      .group { optional := true } [.leaf { name := "answer", matchers := [.choice options] }]] }] }

theorem vocabulary_of_ballot_occurs : ∃ c, (ballot "for" ["Yes", "No"]).build "vote" "!" mute = .ok c ∧
    "for" ∈ c.literals ∧ "No" ∈ c.options ∧ (∃ message, "for" ∈ Text.words message) ∧
      Text.words "No" = ["No"] := by
  obtain ⟨c, hc, hlit, hopt⟩ : ∃ c, (ballot "for" ["Yes", "No"]).build "vote" "!" mute = .ok c ∧
      "for" ∈ c.literals ∧ "No" ∈ c.options := ⟨_, rfl, by decide +kernel, by decide +kernel⟩
  obtain ⟨hoptions, hliterals⟩ := vocabulary_occurs_iff hc
  exact ⟨c, hc, hlit, hopt, (hliterals _ hlit).2.2 (by decide +kernel), hoptions _ hopt⟩

/-- The check of literals counts words, so one with blanks at its ends passes. -/
theorem padded_literal_never_occurs : ∃ c, (ballot " for " ["Yes"]).build "vote" "!" mute = .ok c ∧
    " for " ∈ c.literals ∧ Text.words " for " ≠ [" for "] ∧
      ∀ message, " for " ∉ Text.words message := by
  refine ⟨_, rfl, by decide +kernel, by decide +kernel, fun message hmem => ?_⟩
  exact absurd (Text.ne_empty_and_clean_of_mem_words hmem).2 (by decide +kernel)

end Draft
end Chatline
