import Chatline.Grammar.Basic

/-! The scan of a group over a list of tokens. A scan goes through the group's slots in passes,
token by token: each step settles the current slot, lets it take the next token or lets a later
slot take it. The state at the end of each pass is kept, and an unfinished last pass is undone. -/
namespace Chatline

structure Found where
  args : Args
  consumed : Nat
deriving DecidableEq

/-- A child of a group, with what it does at the start of the tokens that are left. -/
structure Slot where
  node : Node
  attempt : List String → Verdict Failure Found

structure Frame where
  shape : Shape
  slots : List Slot
  seed : Args

namespace Scan

/-- A greedy leaf that is still taking tokens, and the position of its first one. -/
structure Absorbing where
  leaf : Leaf
  start : Nat

/-- The state at the end of the last complete pass. -/
structure Mark where
  args : Args
  pos : Nat
  passes : Nat

/-- The state of a scan. The slots of the current pass are those in `done`, the latest first,
and those in `todo`, the current one first. A scan without slots to do is finished. Of the tokens,
`pos` are taken, and `passStart` were when the current pass began. -/
structure State where
  args : Args
  pos : Nat := 0
  passes : Nat := 0
  done : List Slot := []
  todo : List Slot
  passStart : Nat := 0
  absorbing : Option Absorbing := none
  mark : Mark

def start (f : Frame) : State :=
  { args := f.seed, todo := f.slots, mark := { args := f.seed, pos := 0, passes := 0 } }

/-- Ends a pass. The scan is finished when no further pass is allowed or the pass took no
token; otherwise the slots are to be done again, in their declared order. -/
def completePass (f : Frame) (s : State) : State :=
  let passes := s.passes + 1
  let s := { s with passes, mark := { args := s.args, pos := s.pos, passes } }
  if f.shape.maxPasses ≤ passes ∨ s.pos = s.passStart then s
  else { s with done := [], todo := f.slots, passStart := s.pos }

def advance (f : Frame) (s : State) : State :=
  match s.todo with
  | [] => s
  | slot :: later =>
    let s := { s with done := slot :: s.done, todo := later }
    if later.isEmpty then completePass f s else s

/-- Records what the current slot took. A greedy leaf stays the current slot. -/
def accept (f : Frame) (slot : Slot) (found : Found) (s : State) : State :=
  let args := s.args.merge found.args
  match slot.node.greedyLeaf? with
  | some leaf => { s with args, pos := s.pos + 1, absorbing := some { leaf, start := s.pos } }
  | none => advance f { s with args, pos := s.pos + found.consumed }

structure Pick where
  slot : Slot
  found : Found
  others : List Slot

/-- The first of the slots that answers anything but `noMatch`. -/
def pick (ts : List String) : List Slot → Verdict Failure Pick
  | [] => .noMatch
  | slot :: slots =>
    match slot.attempt ts with
    | .matched found => .matched { slot, found, others := slots }
    | .invalid e => .invalid e
    | .noMatch => (pick ts slots).map fun p => { p with others := slot :: p.others }

def skip (f : Frame) (slot : Slot) (s : State) : Verdict Failure State :=
  if f.shape.skips slot.node then .matched (advance f s) else .noMatch

/-- Goes on after the current slot did not match: a flexible group first looks for a later slot
that does, and puts it in front. -/
def recover (f : Frame) (ts : List String) (slot : Slot) (later : List Slot) (s : State) :
    Verdict Failure State :=
  if f.shape.flexible then
    match pick (ts.drop s.pos) later with
    | .matched p =>
      .matched (accept f p.slot p.found { s with todo := p.slot :: slot :: p.others })
    | .invalid e => .invalid e
    | .noMatch => skip f slot s
  else skip f slot s

/-- The tokens that an absorbing leaf has when it takes the current one too, as one span. -/
def widened (ts : List String) (a : Absorbing) (s : State) : String :=
  Text.spaced ((ts.drop a.start).take (s.pos + 1 - a.start))

def widen (f : Frame) (ts : List String) (a : Absorbing) (s : State) : Verdict Failure State :=
  match a.leaf.read (widened ts a s) with
  | .matched r =>
    .matched { s with args := s.args.replaceLast a.leaf.name r, pos := s.pos + 1 }
  | .invalid e => .invalid e
  | .noMatch => .matched (advance f { s with absorbing := none })

/-- The slot that may take the current token from an absorbing leaf: the next one of the pass or,
in a repeated group, the first one of the next pass, unless the leaf has a higher priority. -/
def rival? (f : Frame) (a : Absorbing) (later : List Slot) : Option Slot :=
  let next := match later with
    | slot :: _ => some slot
    | [] => if f.shape.repetition.isSome then f.slots.head? else none
  next.filter fun slot => a.leaf.priority ≤ slot.node.priority

/-- Ends the absorbing leaf in favour of its rival. If the pass was the last one allowed, the
token is left to the caller. -/
def takeOver (f : Frame) (rival : Slot) (found : Found) (s : State) : State :=
  let s := advance f { s with absorbing := none }
  if s.todo.isEmpty then s else accept f rival found s

/-- Offers the current token to the rival of the absorbing leaf, and then to the leaf. -/
def absorb (f : Frame) (ts : List String) (a : Absorbing) (later : List Slot) (s : State) :
    Verdict Failure State :=
  match rival? f a later with
  | none => widen f ts a s
  | some rival =>
    match rival.attempt (ts.drop s.pos) with
    | .matched found =>
      if found.consumed = 0 then widen f ts a s else .matched (takeOver f rival found s)
    | .invalid e => .invalid e
    | .noMatch => widen f ts a s

/-- One step at the current token. `noMatch` says that the pass cannot be completed; a finished
scan has no step. -/
def step (f : Frame) (ts : List String) (s : State) : Verdict Failure State :=
  match s.todo with
  | [] => .noMatch
  | slot :: later =>
    match s.absorbing with
    | some a => absorb f ts a later s
    | none =>
      match slot.attempt (ts.drop s.pos) with
      | .matched found => .matched (accept f slot found s)
      | .invalid e => .invalid e
      | .noMatch => recover f ts slot later s

/-- Settles the remaining slots of a pass without tokens: a slot may match nothing, or be left
out if the group can do without it. -/
def drainSlots (f : Frame) : List Slot → State → Verdict Failure State
  | [], s => .matched s
  | slot :: later, s =>
    match slot.attempt [] with
    | .matched found =>
      drainSlots f later (advance f { s with args := s.args.merge found.args })
    | .invalid e => .invalid e
    | .noMatch => if f.shape.skips slot.node then drainSlots f later (advance f s) else .matched s

def release (f : Frame) (s : State) : State :=
  if s.absorbing.isSome then advance f { s with absorbing := none } else s

/-- Whether the current pass has to be gone through. A pass after the first one counts only
once one of its slots is done. -/
def underWay (s : State) : Bool := s.passes = 0 || !s.done.isEmpty

def drain (f : Frame) (s : State) : Verdict Failure State :=
  let s := release f s
  if underWay s then drainSlots f s.todo s else .matched s

def settle (f : Frame) (s : State) : Verdict Failure Found :=
  if f.shape.minPasses ≤ s.mark.passes then
    .matched { args := s.mark.args, consumed := s.mark.pos }
  else .noMatch

end Scan
end Chatline
