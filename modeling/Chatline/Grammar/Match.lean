import Chatline.Grammar.Effort

/-! Matching a group against tokens: against the start of the tokens, and against all of them. -/
namespace Chatline

set_option linter.unusedVariables false in
/-- Takes steps while there are tokens, then goes through the rest of the pass without any. -/
def Scan.run (f : Frame) (ts : List String) (s : Scan.State) : Verdict Failure Found :=
  if hs : s.pos < ts.length then
    match h : Scan.step f ts s with
    | .matched s' => Scan.run f ts s'
    | .noMatch => Scan.settle f s
    | .invalid e => .invalid e
  else (Scan.drain f s).bind (Scan.settle f)
termination_by Scan.effort f ts s
decreasing_by exact Scan.effort_step_lt hs h

/-- Matches a group at the start of a list of tokens. A group without children takes nothing. -/
def Frame.scan (f : Frame) (ts : List String) : Verdict Failure Found :=
  if f.slots.isEmpty then .matched { args := f.seed, consumed := 0 }
  else Scan.run f ts (Scan.start f)

/-- A leaf takes the first token. What a literal leaf took leaves no reading. -/
def Leaf.attempt (l : Leaf) : List String → Verdict Failure Found
  | [] => .noMatch
  | t :: _ => (l.read t).map fun r =>
    { args := if l.literal then ∅ else Args.single l.name r, consumed := 1 }

namespace Node

mutual

def attempt : Node → List String → Verdict Failure Found
  | leaf l, ts => l.attempt ts
  | group shape children, ts =>
    Frame.scan { shape, slots := slotsOf children, seed := Group.seed { children } } ts

def slotsOf : List Node → List Slot
  | [] => []
  | c :: cs => { node := c, attempt := fun ts => c.attempt ts } :: slotsOf cs

end

end Node

namespace Group

def frame (g : Group) : Frame :=
  { shape := g.shape, slots := Node.slotsOf g.children, seed := g.seed }

/-- Matches the group against the start of the tokens; the rest is left to the caller. -/
def matchPrefix (g : Group) (ts : List String) : Verdict Failure Found := g.frame.scan ts

/-- Matches the group against all of the tokens and records the fallback values. -/
def matchTokens (g : Group) (ts : List String) : Verdict Failure Args :=
  (g.matchPrefix ts).bind fun found =>
    if found.consumed < ts.length then .noMatch else .matched (g.applyDefaults found.args)

end Group
end Chatline
