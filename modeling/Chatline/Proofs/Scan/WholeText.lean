import Chatline.Proofs.Scan.Absorption
import Mathlib.Data.List.Induction

/-! A bounded text that is all of a group. The bound is tested anew with every word that the leaf
takes, and the answer is that of one test of the whole text. -/
namespace Chatline

namespace Text

theorem length_spaced_le (front back : List String) :
    (spaced front).length ≤ (spaced (front ++ back)).length := by
  induction front with
  | nil => exact Nat.zero_le _
  | cons w front ih =>
    unfold spaced at ih ⊢
    cases front with
    | nil =>
      cases back with
      | nil => exact Nat.le_refl _
      | cons v back =>
        rw [List.singleton_append, String.intercalate_cons_of_ne_nil (List.cons_ne_nil v back)]
        simp [String.length_append]
        omega
    | cons v front =>
      have hne : v :: front ++ back ≠ [] := List.cons_ne_nil v _
      rw [List.cons_append, String.intercalate_cons_of_ne_nil (List.cons_ne_nil v front),
        String.intercalate_cons_of_ne_nil hne]
      simp only [String.length_append]
      omega

/-- If the words together are too long, they are so from some word on. -/
theorem exists_first_over {limit : Nat} {ws : List String} (h : limit < (spaced ws).length) :
    ∃ front w back, ws = front ++ w :: back ∧ (spaced front).length ≤ limit ∧
      limit < (spaced (front ++ [w])).length := by
  induction ws using List.reverseRecOn with
  | nil => exact absurd h (Nat.not_lt_zero limit)
  | append_singleton front w ih =>
    by_cases hfront : limit < (spaced front).length
    · obtain ⟨start, v, back, rfl, hstart, hover⟩ := ih hfront
      exact ⟨start, v, back ++ [w], by simp, hstart, hover⟩
    · exact ⟨front, w, [], rfl, Nat.le_of_not_lt hfront, h⟩

end Text

/-- The group of one leaf. -/
def Leaf.alone (leaf : Leaf) : Group := { children := [.leaf leaf] }

namespace Leaf

open Scan

variable {leaf : Leaf} {ws front back : List String} {w : String}

theorem todo_alone : (start leaf.alone.frame).todo = [(Node.leaf leaf).slot] := rfl

theorem matchPrefix_alone (leaf : Leaf) (ts : List String) :
    leaf.alone.matchPrefix ts = run leaf.alone.frame ts (start leaf.alone.frame) := rfl

/-- No slot comes after the leaf, so nothing ends it before the tokens do. -/
theorem run_alone (hleaf : leaf.Takes front) (hne : front ≠ []) (back : List String) :
    run leaf.alone.frame (front ++ back) (start leaf.alone.frame) =
      run leaf.alone.frame (front ++ back) ((start leaf.alone.frame).taking leaf front) := by
  refine run_text todo_alone rfl hne rfl hleaf ?_
  intro _ _ _ _ _ rival hrival
  cases hrival

theorem matchPrefix_alone_of_takes (hleaf : leaf.Takes ws) (hne : ws ≠ []) :
    leaf.alone.matchPrefix ws = .matched
      { args := leaf.alone.seed.push leaf.name (.ofWords ws), consumed := ws.length } := by
  have htext := run_alone hleaf hne []
  have hlast : run leaf.alone.frame ws ((start leaf.alone.frame).taking leaf ws) = .matched
      { args := leaf.alone.seed.push leaf.name (.ofWords ws), consumed := 0 + ws.length } :=
    run_taking_last todo_alone rfl (Nat.le_refl 1)
  rw [List.append_nil] at htext
  rw [matchPrefix_alone, htext, hlast, Nat.zero_add]

/-- The first word with which the leaf refuses its words is refused, whatever follows it. -/
theorem matchPrefix_alone_of_refuses (hleaf : leaf.Takes front) {e : Failure}
    (hread : leaf.read (Text.spaced (front ++ [w])) = .invalid e) (back : List String) :
    leaf.alone.matchPrefix (front ++ w :: back) = .invalid e := by
  rw [matchPrefix_alone]
  by_cases hne : front = []
  · subst hne
    have hattempt : (Node.leaf leaf).slot.attempt (w :: back) = .invalid e := by
      rw [List.nil_append, Text.spaced_singleton] at hread
      change (leaf.read w).map _ = _
      rw [hread]
      rfl
    have hstep : step leaf.alone.frame (w :: back) (start leaf.alone.frame) = .invalid e :=
      step_of_invalid todo_alone rfl hattempt
    rw [List.nil_append, run_of_lt (Nat.zero_lt_succ _), hstep]
  · have hdrop : (front ++ w :: back).drop (start leaf.alone.frame).pos = front ++ w :: back := rfl
    have hpos := pos_lt_of_drop (drop_taking leaf hdrop) (List.cons_ne_nil w back)
    have hwiden : widen leaf.alone.frame (front ++ w :: back)
        { leaf, start := (start leaf.alone.frame).pos }
        ((start leaf.alone.frame).taking leaf front) = .invalid e := by
      unfold widen
      rw [widened_taking hdrop, hread]
    have hstep : step leaf.alone.frame (front ++ w :: back)
        ((start leaf.alone.frame).taking leaf front) = .invalid e := by
      rw [step_taking leaf todo_alone]
      refine (absorb_of_not_seizes fun rival hrival => ?_).trans hwiden
      cases hrival
    rw [run_alone hleaf hne, run_of_lt hpos, hstep]

theorem matchPrefix_alone_nil (hneeded : leaf.optional = false) :
    leaf.alone.matchPrefix [] = .noMatch := by
  have hskips : leaf.alone.frame.shape.skips (.leaf leaf) = false := hneeded
  have hdrain : drain leaf.alone.frame (start leaf.alone.frame) =
      .matched (start leaf.alone.frame) := by
    have hway : underWay (start leaf.alone.frame) = true := rfl
    rw [drain_of_idle rfl, if_pos hway, todo_alone, drainSlots]
    change (if leaf.alone.frame.shape.skips (.leaf leaf) then _ else _) = _
    rw [hskips]
    rfl
  rw [matchPrefix_alone, run_of_le (Nat.zero_le _), hdrain]
  rfl

/-- A text of at most so many characters. -/
def boundedText (name : String) (limit : Nat) : Leaf := .ofMatcher name (.text (some limit))

section
variable (name : String) (limit : Nat)

theorem read_boundedText {span : String} (h : span ≠ "") :
    (boundedText name limit).read span =
      if limit < span.length then
        .invalid { argument := name, kind := .text, cause := .tooLong span.length limit }
      else .matched ⟨.text span, .text⟩ := by
  have hempty : span.isEmpty = false := by simpa using h
  change readFirst name span [.text (some limit)] = _
  simp only [readFirst, Matcher.read, Matcher.readText, hempty, Bool.false_eq_true, if_false]
  split <;> rfl

theorem takes_boundedText {ws : List String} (hws : ∀ w ∈ ws, w ≠ "")
    (hlength : (Text.spaced ws).length ≤ limit) : (boundedText name limit).Takes ws := by
  constructor
  · rfl
  · rintro front ⟨back, rfl⟩ hne
    have hspan : Text.spaced front ≠ "" :=
      Text.spaced_ne_empty hne fun w hw => hws w (List.mem_append_left _ hw)
    have hshort := Text.length_spaced_le front back
    rw [read_boundedText name limit hspan, if_neg (by omega)]
    rfl

theorem applyDefaults_boundedText (args : Args) :
    (boundedText name limit).alone.applyDefaults args = args := rfl

/-- Word by word, a bounded text alone takes what it would take as a whole. Nothing is no text. If
the words together are too long, they are refused at the first word with which they are. -/
theorem matchTokens_boundedText {ws : List String} (hws : ∀ w ∈ ws, w ≠ "") :
    (ws = [] → (boundedText name limit).alone.matchTokens ws = .noMatch) ∧
    (ws ≠ [] → (Text.spaced ws).length ≤ limit →
      (boundedText name limit).alone.matchTokens ws =
        .matched ((boundedText name limit).alone.seed.push name (.ofWords ws))) ∧
    (limit < (Text.spaced ws).length → ∃ front w, front ++ [w] <+: ws ∧
      (Text.spaced front).length ≤ limit ∧ limit < (Text.spaced (front ++ [w])).length ∧
      (boundedText name limit).alone.matchTokens ws = .invalid
        { argument := name
          kind := .text
          cause := .tooLong (Text.spaced (front ++ [w])).length limit }) := by
  unfold Group.matchTokens
  refine ⟨?_, fun hne hlength => ?_, fun hlong => ?_⟩
  · rintro rfl
    rw [matchPrefix_alone_nil rfl]
    rfl
  · rw [matchPrefix_alone_of_takes (takes_boundedText name limit hws hlength) hne]
    change (if ws.length < ws.length then _ else _) = _
    rw [if_neg (Nat.lt_irrefl _), applyDefaults_boundedText]
    rfl
  · obtain ⟨front, w, back, rfl, hfront, hover⟩ := Text.exists_first_over hlong
    have htakes : (boundedText name limit).Takes front :=
      takes_boundedText name limit (fun v hv => hws v (List.mem_append_left _ hv)) hfront
    have hspan : Text.spaced (front ++ [w]) ≠ "" := by
      refine Text.spaced_ne_empty (by simp) fun v hv => hws v ?_
      simp only [List.mem_append, List.mem_cons] at hv ⊢
      tauto
    have hread := read_boundedText name limit hspan
    rw [if_pos hover] at hread
    refine ⟨front, w, ⟨back, by simp⟩, hfront, hover, ?_⟩
    rw [matchPrefix_alone_of_refuses htakes hread back]
    rfl

end
end Leaf
end Chatline
