import Chatline.Args
import Chatline.Grammar.Matcher

/-! Grammars of arguments. A leaf takes a span of tokens; a group is a sequence of leaves and
groups, with a shape that says which of them may be absent, whether they may change places and
how often the whole sequence occurs. -/
namespace Chatline

/-- A named place for one span. A literal leaf takes the one token that equals its name and
yields no value; any other leaf tries its matchers in order. -/
structure Leaf where
  name : String
  matchers : List Matcher
  literal : Bool := false
  optional : Bool := false
  fallback : Option Value := none
  priority : Int := 0
deriving DecidableEq

namespace Leaf

def ofMatcher (name : String) (m : Matcher) : Leaf := { name, matchers := [m] }

def ofMatchers? (name : String) (ms : List Matcher) : Except Fault Leaf :=
  if ms.isEmpty then .error (.noMatchers name) else .ok { name, matchers := ms }

def word (w : String) : Leaf := { name := w, matchers := [], literal := true }

def text (name : String) : Leaf := ofMatcher name .anyText

def integer (name : String) : Leaf := ofMatcher name .anyInteger

def orMatcher (l : Leaf) (m : Matcher) : Leaf := { l with matchers := l.matchers ++ [m] }

/-- Whether the leaf may take several tokens. -/
def isGreedy (l : Leaf) : Bool := !l.literal && l.matchers.any Matcher.isGreedy

/-- The first matcher that reads the span wins; if none does, the first that refuses it. -/
def readFirst (name span : String) : List Matcher → Verdict Failure Reading
  | [] => .noMatch
  | m :: ms =>
    (((m.read span).map fun v => (⟨v, m.kind⟩ : Reading)).mapInvalid fun cause =>
      ({ argument := name, kind := m.kind, cause } : Failure)).orElse (readFirst name span ms)

/-- Reads a span. A literal leaf answers with a mark in place of a value. -/
def read (l : Leaf) (span : String) : Verdict Failure Reading :=
  if l.literal then
    if span = l.name then .matched ⟨.bool true, .literal⟩ else .noMatch
  else readFirst l.name span l.matchers

def fallbackKind (l : Leaf) : Kind := (l.matchers.head?.map Matcher.kind).getD .literal

def label (l : Leaf) : String := if l.literal then "'" ++ l.name ++ "'" else l.name

end Leaf

/-- Inclusive bounds on the number of passes through a group. -/
structure Repetition where
  min : Nat
  max : Nat
  max_pos : 0 < max
  min_le_max : min ≤ max
  max_lt : max < UInt32.size
deriving DecidableEq

def Repetition.of? (min max : UInt32) : Except Fault Repetition :=
  if hz : max = 0 then .error .neverRepeated
  else if hr : max < min then .error (.repetitionReversed min max)
  else .ok
    { min := min.toNat
      max := max.toNat
      max_pos := Nat.pos_of_ne_zero fun h => hz (UInt32.toNat_inj.1 h)
      min_le_max := Nat.le_of_not_lt fun h => hr (UInt32.lt_iff_toNat_lt.2 h)
      max_lt := max.toNat_lt_size }

/-- How a group and its children may occur: the enclosing group may do without an optional group, any
child of a sparse one may be absent, and those of a flexible one may come in any order. -/
structure Shape where
  optional : Bool := false
  sparse : Bool := false
  flexible : Bool := false
  repetition : Option Repetition := none
  priority : Int := 0
deriving DecidableEq

namespace Shape

def minPasses (s : Shape) : Nat := (s.repetition.map Repetition.min).getD 1

def maxPasses (s : Shape) : Nat := (s.repetition.map Repetition.max).getD 1

/-- Whether the group may occur no times at all. -/
def mayVanish (s : Shape) : Bool :=
  match s.repetition with
  | some r => r.min == 0
  | none => false

end Shape

inductive Node where
  | leaf (l : Leaf)
  | group (shape : Shape) (children : List Node)

namespace Node

def priority : Node → Int
  | leaf l => l.priority
  | group shape _ => shape.priority

def isOptional : Node → Bool
  | leaf l => l.optional
  | group shape _ => shape.optional

/-- Whether the place may be left out wherever it stands. -/
def mayBeAbsent : Node → Bool
  | leaf l => l.optional
  | group shape _ => shape.optional || shape.mayVanish

def label : Node → String
  | leaf l => l.label
  | group _ children => "group(" ++ toString children.length ++ ")"

/-- The leaf at this place, if it may take several tokens. -/
def greedyLeaf? : Node → Option Leaf
  | leaf l => if l.isGreedy then some l else none
  | group .. => none

mutual

/-- The leaves that yield values, from left to right. -/
def leaves : Node → List Leaf
  | leaf l => if l.literal then [] else [l]
  | group _ children => leavesOf children

def leavesOf : List Node → List Leaf
  | [] => []
  | c :: cs => c.leaves ++ leavesOf cs

end

end Node

/-- Whether a child may be absent from a group of this shape. -/
def Shape.skips (s : Shape) (child : Node) : Bool := s.sparse || child.mayBeAbsent

/-- The root of a grammar: a shape and its children. -/
structure Group where
  shape : Shape := {}
  children : List Node

namespace Group

def toNode (g : Group) : Node := .group g.shape g.children

/-- The leaves that yield values, from left to right. -/
def leaves (g : Group) : List Leaf := Node.leavesOf g.children

/-- The names under which values can appear, each once, in the order of the leaves. -/
def leafNames (g : Group) : List String := (g.leaves.map Leaf.name).eraseDups

/-- Every name present, no reading under any. -/
def seed (g : Group) : Args := Args.ofNames g.leafNames

end Group

/-- Records the fallback value of a leaf whose name has no reading. -/
def Args.fill (a : Args) (l : Leaf) : Args :=
  match l.fallback with
  | some v => if a.count l.name = 0 then a.push l.name ⟨v, l.fallbackKind⟩ else a
  | none => a

/-- Records fallback values, the leaves taken from left to right. -/
def Group.applyDefaults (g : Group) (a : Args) : Args := g.leaves.foldl Args.fill a

end Chatline
