import Chatline.Proofs.Grammar.Nullable
import Chatline.Command

/-! Where failures come from. A failure is never about a literal word, or about tokens that are
missing or left over: a leaf that yields values has been offered a span of the tokens, and refused
it. -/
namespace Chatline

namespace Verdict

variable {ε ε' α β : Type} {v : Verdict ε α}

theorem bind_eq_invalid_iff {f : α → Verdict ε β} {e : ε} :
    v.bind f = .invalid e ↔ v = .invalid e ∨ ∃ a, v = .matched a ∧ f a = .invalid e := by
  cases v <;> simp [bind]

theorem mapInvalid_eq_invalid_iff {f : ε → ε'} {e : ε'} :
    v.mapInvalid f = .invalid e ↔ ∃ e', v = .invalid e' ∧ f e' = e := by
  cases v <;> simp [mapInvalid]

end Verdict

/-- No matcher of the leaf reads the span, and the failure is that of the first one to refuse it. -/
structure Leaf.Refuses (l : Leaf) (span : String) (e : Failure) : Prop where
  read : l.read span = .invalid e
  argument : e.argument = l.name
  version : e.version = none
  unread : ∀ m ∈ l.matchers, ∀ v, m.read span ≠ .matched v
  first : ∃ front m back, l.matchers = front ++ m :: back ∧
    (∀ m' ∈ front, m'.read span = .noMatch) ∧ m.read span = .invalid e.cause ∧ e.kind = m.kind

namespace Leaf

section
variable {name span : String} {ms : List Matcher} {m : Matcher} {e : Failure}

theorem readFirst_of_matched {v : Value} (hm : m.read span = .matched v) :
    readFirst name span (m :: ms) = .matched ⟨v, m.kind⟩ := by
  unfold readFirst
  rw [hm]
  rfl

theorem readFirst_of_noMatch (hm : m.read span = .noMatch) :
    readFirst name span (m :: ms) = readFirst name span ms := by
  rw [readFirst, hm]
  rfl

/-- After a matcher that refuses the span only a match of a later one counts. -/
theorem readFirst_of_invalid {cause : Cause} (hm : m.read span = .invalid cause) :
    readFirst name span (m :: ms) = match readFirst name span ms with
      | .matched r => .matched r
      | _ => .invalid { argument := name, kind := m.kind, cause } := by
  rw [readFirst, hm]
  cases readFirst name span ms <;> rfl

theorem read_ne_matched_of_readFirst (h : ∀ r, readFirst name span ms ≠ .matched r) :
    ∀ m ∈ ms, ∀ v, m.read span ≠ .matched v := by
  induction ms with
  | nil => simp
  | cons m ms ih =>
    have hhead : ∀ v, m.read span ≠ .matched v := fun v hm => h _ (readFirst_of_matched hm)
    refine List.forall_mem_cons.2 ⟨hhead, ih fun r hr => ?_⟩
    cases hm : m.read span with
    | matched v => exact hhead v hm
    | noMatch => exact h r (by rw [readFirst_of_noMatch hm, hr])
    | invalid cause => exact h r (by rw [readFirst_of_invalid hm, hr])

theorem first_of_readFirst (h : readFirst name span ms = .invalid e) :
    e.argument = name ∧ e.version = none ∧ ∃ front m back, ms = front ++ m :: back ∧
      (∀ m' ∈ front, m'.read span = .noMatch) ∧ m.read span = .invalid e.cause ∧
        e.kind = m.kind := by
  induction ms with
  | nil => simp [readFirst] at h
  | cons m ms ih =>
    cases hm : m.read span with
    | matched v =>
      rw [readFirst_of_matched hm] at h
      cases h
    | noMatch =>
      rw [readFirst_of_noMatch hm] at h
      obtain ⟨harg, hversion, front, m', back, rfl, hfront, hfirst⟩ := ih h
      have hall : ∀ m'' ∈ m :: front, m''.read span = .noMatch :=
        List.forall_mem_cons.2 ⟨hm, hfront⟩
      exact ⟨harg, hversion, m :: front, m', back, rfl, hall, hfirst⟩
    | invalid cause =>
      have he : e = { argument := name, kind := m.kind, cause } := by
        rw [readFirst_of_invalid hm] at h
        split at h
        · cases h
        · exact (Verdict.invalid.inj h).symm
      subst he
      exact ⟨rfl, rfl, [], m, ms, rfl, by simp, hm, rfl⟩

end

/-- A literal leaf refuses nothing. -/
theorem read_ne_invalid {l : Leaf} (hl : l.literal = true) (span : String) (e : Failure) :
    l.read span ≠ .invalid e := by
  unfold read
  rw [if_pos hl]
  split <;> simp

theorem refuses_of_read {l : Leaf} {span : String} {e : Failure} (h : l.read span = .invalid e) :
    l.literal = false ∧ l.Refuses span e := by
  have hl : l.literal = false := by
    cases hlit : l.literal with
    | false => rfl
    | true => exact absurd h (read_ne_invalid hlit span e)
  have hfirst : readFirst l.name span l.matchers = .invalid e := by
    rw [read, hl, if_neg Bool.false_ne_true] at h
    exact h
  obtain ⟨harg, hversion, hsplit⟩ := first_of_readFirst hfirst
  have hnot : ∀ r, readFirst l.name span l.matchers ≠ .matched r := by simp [hfirst]
  have hunread := read_ne_matched_of_readFirst hnot
  exact ⟨hl, h, harg, hversion, hunread, hsplit⟩

end Leaf

namespace Node

/-- A leaf of this place refuses a span of the tokens; of several tokens only if it is greedy. -/
def Blames (n : Node) (ts : List String) (e : Failure) : Prop :=
  ∃ l ∈ n.leaves, l.literal = false ∧ ∃ span, span <:+: ts ∧ span ≠ [] ∧
    (l.isGreedy = false → span.length = 1) ∧ l.Refuses (Text.spaced span) e

theorem Blames.of_infix {n : Node} {us ts : List String} {e : Failure} (h : n.Blames us e)
    (hus : us <:+: ts) : n.Blames ts e := by
  obtain ⟨l, hl, hlit, span, hspan, hrest⟩ := h
  exact ⟨l, hl, hlit, span, hspan.trans hus, hrest⟩

theorem Blames.of_child {shape : Shape} {children : List Node} {c : Node} {ts : List String}
    {e : Failure} (h : c.Blames ts e) (hc : c ∈ children) :
    (group shape children).Blames ts e := by
  obtain ⟨l, hl, hrest⟩ := h
  exact ⟨l, mem_leavesOf.2 ⟨c, hc, hl⟩, hrest⟩

theorem blames_leaf {l : Leaf} {span ts : List String} {e : Failure} (hspan : span <:+: ts)
    (hne : span ≠ []) (hone : l.isGreedy = false → span.length = 1)
    (h : l.read (Text.spaced span) = .invalid e) : (leaf l).Blames ts e := by
  obtain ⟨hlit, hrefuses⟩ := Leaf.refuses_of_read h
  exact ⟨l, by simp [leaves, hlit], hlit, span, hspan, hne, hone, hrefuses⟩

/-- A single leaf fails at the first token. -/
theorem blames_of_attempt_leaf {l : Leaf} {ts : List String} {e : Failure}
    (h : l.attempt ts = .invalid e) : (leaf l).Blames ts e := by
  cases ts with
  | nil => simp [Leaf.attempt] at h
  | cons t rest =>
    have hread : l.read t = .invalid e := by
      cases hr : l.read t <;> simp_all [Leaf.attempt, Verdict.map]
    have hspan : [t] <:+: t :: rest := (List.prefix_append [t] rest).isInfix
    exact blames_leaf hspan (List.cons_ne_nil _ _) (fun _ => rfl) hread

end Node

namespace Scan

section
variable {f : Frame} {ts : List String} {s : State}

/-- What is settled without tokens does not fail. -/
theorem Coherent.drain_ne_invalid (hc : Coherent f ts s)
    (hvalid : ∀ slot ∈ f.slots, ∀ e, slot.attempt [] ≠ .invalid e) (e : Failure) :
    drain f s ≠ .invalid e := by
  unfold drain
  dsimp only
  split
  · exact drainSlots_ne_invalid (fun slot hs => hvalid slot (hc.release.mem_slots hs)) e
  · simp

/-- The tokens of an absorbing leaf and the current one stand together, and there are some. -/
theorem Coherent.widened_infix (hc : Coherent f ts s) {a : Absorbing}
    (habs : s.absorbing = some a) (hpos : s.pos < ts.length) :
    (ts.drop a.start).take (s.pos + 1 - a.start) <:+: ts ∧
      (ts.drop a.start).take (s.pos + 1 - a.start) ≠ [] := by
  obtain ⟨-, -, -, -, -, hstart⟩ := hc.held a habs
  have htake := (List.take_prefix (s.pos + 1 - a.start) (ts.drop a.start)).isInfix
  have hdrop := (List.drop_suffix a.start ts).isInfix
  refine ⟨htake.trans hdrop, fun hnil => ?_⟩
  have hlen := congrArg List.length hnil
  simp only [List.length_take, List.length_drop, List.length_nil] at hlen
  omega

end

end Scan

theorem Node.attempt_nil_ne_invalid (n : Node) (e : Failure) : n.attempt [] ≠ .invalid e := by
  rw [n.blankAnswer]
  split <;> simp

/-- The failure of a run goes back to a slot at the current token or to an absorbing leaf. -/
theorem Group.blames_of_children {g : Group} {ts : List String} {e : Failure}
    (ih : ∀ c ∈ g.children, ∀ us, c.attempt us = .invalid e → c.Blames us e)
    (h : g.matchPrefix ts = .invalid e) : g.toNode.Blames ts e := by
  by_cases hnil : g.children = []
  · rw [matchPrefix_of_children_eq_nil hnil] at h
    cases h
  rw [matchPrefix_of_children_ne_nil hnil] at h
  have hvalid : ∀ slot ∈ g.frame.slots, ∀ e, slot.attempt [] ≠ .invalid e := by
    intro slot hslot
    obtain ⟨c, -, rfl⟩ := mem_frame_slots.1 hslot
    exact c.attempt_nil_ne_invalid
  have hmove : ∀ s s', Scan.Coherent g.frame ts s → s.pos < ts.length →
      Scan.Move g.frame ts s s' → Scan.Coherent g.frame ts s' :=
    fun s s' hs hpos hm => hs.move g.bounded hpos hm
  obtain ⟨s, hc, hend⟩ :=
    Scan.run_cases ts hmove (Scan.start_coherent (frame_slots_ne_nil hnil))
  rcases hend with ⟨-, -, hrun⟩ | ⟨e', hpos, hstep, hrun⟩ | ⟨-, hrun⟩
  · exact absurd (hrun.symm.trans h) (Scan.settle_ne_invalid _ s e)
  · obtain rfl : e' = e := Verdict.invalid.inj (hrun.symm.trans h)
    rcases Scan.step_eq_invalid hstep with ⟨slot, hslot, hattempt⟩ | ⟨a, habs, hread⟩
    · have hmem : slot ∈ g.frame.slots := hslot.elim hc.mem_slots id
      obtain ⟨c, hchild, rfl⟩ := mem_frame_slots.1 hmem
      have hblame : c.Blames (ts.drop s.pos) e' := ih c hchild _ hattempt
      exact (hblame.of_infix (List.drop_suffix s.pos ts).isInfix).of_child hchild
    · obtain ⟨slot, later, htodo, hgreedy, -, -⟩ := hc.held a habs
      have hmem : slot ∈ g.frame.slots := hc.mem_slots (by simp [htodo])
      obtain ⟨c, hchild, rfl⟩ := mem_frame_slots.1 hmem
      obtain ⟨rfl, hgr⟩ := Node.eq_leaf_of_greedyLeaf? (n := c) hgreedy
      obtain ⟨hspan, hne⟩ := hc.widened_infix habs hpos
      have hblame : (Node.leaf a.leaf).Blames ts e' :=
        Node.blames_leaf hspan hne (fun hno => by simp [hgr] at hno) hread
      exact hblame.of_child hchild
  · rcases Verdict.bind_eq_invalid_iff.1 (hrun.symm.trans h) with hdrain | ⟨s', -, hsettle⟩
    · exact absurd hdrain (hc.drain_ne_invalid hvalid e)
    · exact absurd hsettle (Scan.settle_ne_invalid _ s' e)

theorem Node.blames_of_attempt (n : Node) {ts : List String} {e : Failure}
    (h : n.attempt ts = .invalid e) : n.Blames ts e := by
  induction n using Node.induct generalizing ts with
  | leaf l =>
    rw [attempt] at h
    exact blames_of_attempt_leaf h
  | group shape children ih =>
    let g : Group := { shape, children }
    change g.toNode.attempt ts = _ at h
    rw [g.attempt_toNode] at h
    exact g.blames_of_children (fun c hc us => ih c hc) h

namespace Group

/-- Tokens that are left over are no failure. -/
theorem matchTokens_eq_invalid_iff {g : Group} {ts : List String} {e : Failure} :
    g.matchTokens ts = .invalid e ↔ g.matchPrefix ts = .invalid e := by
  have hrest : ∀ found : Found, (if found.consumed < ts.length then Verdict.noMatch
      else .matched (g.applyDefaults found.args)) ≠ .invalid e := by
    intro found
    split <;> simp
  rw [matchTokens, Verdict.bind_eq_invalid_iff]
  exact or_iff_left fun ⟨found, _, h⟩ => hrest found h

end Group

namespace Version

/-- What is matched stands after the lead and one of the triggers. -/
theorem eq_append_of_rest? {v : Version} {message rest : String} (h : v.rest? message = some rest) :
    ∃ trigger ∈ v.triggers, message = v.lead ++ trigger ++ rest := by
  have hcut : ∀ {lead s r : String}, Text.cutStart? lead s = some r → s = lead ++ r := by
    intro lead s r hr
    obtain ⟨cs, hcs, rfl⟩ := Option.map_eq_some_iff.1 hr
    have happ := Text.eq_append_of_after? hcs
    rw [← String.toList_inj, happ, String.toList_append, String.toList_ofList]
  obtain ⟨tail, hlead, htrigger⟩ := Option.bind_eq_some_iff.1 h
  obtain ⟨trigger, hmem, hrest⟩ := List.exists_of_findSome?_eq_some htrigger
  refine ⟨trigger, hmem, ?_⟩
  rw [hcut hlead, hcut hrest, String.append_assoc]

/-- A version fails where its root does; the failure then carries the version's label. -/
theorem tryMatch_eq_invalid_iff {v : Version} {message : String} {e : Failure} :
    v.tryMatch message = .invalid e ↔ ∃ rest e', v.rest? message = some rest ∧
      v.root.matchPrefix (Text.words rest) = .invalid e' ∧ e = e'.withVersion v.label := by
  unfold tryMatch
  cases hrest : v.rest? message with
  | none => simp
  | some rest =>
    simp only [← Group.matchTokens_eq_invalid_iff, Verdict.mapInvalid_eq_invalid_iff]
    simp [eq_comm]

end Version

/-- Every failure of a group is that of a leaf below it, which has refused a span of the tokens;
a version passes it on under its own label. No literal leaf fails, no group fails for want of
tokens, and none for those that are left over. -/
theorem Group.failures_blame_spans (g : Group) :
    (∀ ts e, g.matchPrefix ts = .invalid e → g.toNode.Blames ts e) ∧
    (∀ v : Version, v.root = g → ∀ message e, v.tryMatch message = .invalid e ↔
      ∃ trigger ∈ v.triggers, ∃ rest e', message = v.lead ++ trigger ++ rest ∧
        v.rest? message = some rest ∧ g.matchPrefix (Text.words rest) = .invalid e' ∧
          e = { e' with version := some v.label }) ∧
    (∀ l : Leaf, l.literal = true → ∀ span e, l.read span ≠ .invalid e) ∧
    (∀ e, g.matchPrefix [] ≠ .invalid e) ∧
    (∀ ts e, g.matchTokens ts = .invalid e ↔ g.matchPrefix ts = .invalid e) := by
  refine ⟨fun ts e h => ?_, fun v hroot message e => ?_, fun l hl => l.read_ne_invalid hl,
    fun e => ?_, fun ts e => matchTokens_eq_invalid_iff⟩
  · rw [← g.attempt_toNode] at h
    exact g.toNode.blames_of_attempt h
  · subst hroot
    rw [Version.tryMatch_eq_invalid_iff]
    constructor
    · rintro ⟨rest, e', hrest, hprefix, rfl⟩
      obtain ⟨trigger, hmem, hmessage⟩ := Version.eq_append_of_rest? hrest
      exact ⟨trigger, hmem, rest, e', hmessage, hrest, hprefix, rfl⟩
    · rintro ⟨-, -, rest, e', -, hrest, hprefix, rfl⟩
      exact ⟨rest, e', hrest, hprefix, rfl⟩
  · rw [← g.attempt_toNode]
    exact g.toNode.attempt_nil_ne_invalid e

/-- The third token makes the note too long: the failure is about all three tokens of it. -/
theorem failures_blame_long_note :
    (Group.toNode { children := [.leaf (.word "note"),
        .group { optional := true } [.leaf (.ofMatcher "text" (.text (some 5)))]] }).Blames
      ["note", "ab", "cd", "ef"]
      { argument := "text", kind := .text, cause := .tooLong 8 5 } :=
  (Group.failures_blame_spans { children := [.leaf (.word "note"),
      .group { optional := true } [.leaf (.ofMatcher "text" (.text (some 5)))]] }).1 _ _
    (by decide +kernel)

end Chatline
