import Chatline.Command

/-! Drafts of commands: what a definition says before it is checked. Building a draft checks
every part of it and binds its handler, which it names. -/
namespace Chatline

inductive MatcherDraft where
  | integer (min max : Option Int64)
  | text (limit : Option Nat)
  | choice (options : List String)
deriving DecidableEq

structure LeafDraft where
  name : String
  matchers : List MatcherDraft := [.text none]
  optional : Bool := false
  fallback : Option Value := none
  priority : Int := 0
deriving DecidableEq

structure ShapeDraft where
  optional : Bool := false
  sparse : Bool := false
  flexible : Bool := false
  repetition : Option (UInt32 × UInt32) := none
  priority : Int := 0
deriving DecidableEq

inductive NodeDraft where
  | leaf (l : LeafDraft)
  | word (w : String) (optional : Bool) (priority : Int)
  | group (shape : ShapeDraft) (children : List NodeDraft)

namespace NodeDraft

-- drafts contain lists of drafts, so their equality cannot be derived
mutual

def decEq : (a b : NodeDraft) → Decidable (a = b)
  | leaf l, leaf l' => decidable_of_iff (l = l') (by simp)
  | word w o p, word w' o' p' => decidable_of_iff (w = w' ∧ o = o' ∧ p = p') (by simp)
  | group s cs, group s' cs' =>
    have := decEqAll cs cs'
    decidable_of_iff (s = s' ∧ cs = cs') (by simp)
  | leaf _, word _ _ _ | leaf _, group _ _ | word _ _ _, leaf _ | word _ _ _, group _ _
  | group _ _, leaf _ | group _ _, word _ _ _ => isFalse (by simp)

def decEqAll : (as bs : List NodeDraft) → Decidable (as = bs)
  | [], [] => isTrue rfl
  | a :: as, b :: bs =>
    have := decEq a b
    have := decEqAll as bs
    decidable_of_iff (a = b ∧ as = bs) (by simp)
  | [], _ :: _ | _ :: _, [] => isFalse (by simp)

end

instance : DecidableEq NodeDraft := decEq

end NodeDraft

structure VersionDraft where
  label : Option String := none
  lead : Option String := none
  triggers : List String
  arguments : List NodeDraft := []
deriving DecidableEq

structure Draft where
  name : Option String := none
  handler : Option String := none
  versions : List VersionDraft
deriving DecidableEq

/-- Handlers by name. -/
abbrev Handlers (σ : Type) := NameMap (Handler σ)

/-- Bounds that are left out are the extremes of 64 bits. -/
def MatcherDraft.build : MatcherDraft → Except Fault Matcher
  | integer min max => Matcher.integer? (min.getD Int64.minValue) (max.getD Int64.maxValue)
  | text limit => .ok (.text limit)
  | choice options => Matcher.choice? options

namespace LeafDraft

def buildMatchers : List MatcherDraft → Except Fault (List Matcher)
  | [] => .ok []
  | m :: ms => do
    let m ← m.build
    let ms ← buildMatchers ms
    return m :: ms

def build (l : LeafDraft) : Except Fault Leaf := do
  let matchers ← buildMatchers l.matchers
  let leaf ← Leaf.ofMatchers? l.name matchers
  return { leaf with optional := l.optional, fallback := l.fallback, priority := l.priority }

end LeafDraft

def ShapeDraft.build (s : ShapeDraft) : Except Fault Shape := do
  let repetition ← match s.repetition with
    | none => pure none
    | some (min, max) => (Repetition.of? min max).map some
  return { optional := s.optional, sparse := s.sparse, flexible := s.flexible, repetition,
           priority := s.priority }

namespace NodeDraft

mutual

/-- A literal has to have one word; the children of a group are checked before its repetition. -/
def build : NodeDraft → Except Fault Node
  | leaf l => l.build.map .leaf
  | word w optional priority =>
    if (Text.words w).length = 1 then
      .ok (.leaf { Leaf.word w with optional, priority })
    else .error (.literalNotWord w)
  | group shape children => do
    let children ← buildAll children
    let shape ← shape.build
    return .group shape children

def buildAll : List NodeDraft → Except Fault (List Node)
  | [] => .ok []
  | c :: cs => do
    let c ← c.build
    let cs ← buildAll cs
    return c :: cs

end

end NodeDraft

/-- The arguments are checked before the triggers. -/
def VersionDraft.build (v : VersionDraft) (lead : String) : Except Fault Version := do
  let children ← NodeDraft.buildAll v.arguments
  let version ← Version.of? (v.lead.getD lead) v.triggers { children }
  return match v.label with
    | some label => version.withLabel label
    | none => version

/-- What is wrong with a draft, and where. -/
structure Flaw where
  fault : Fault
  place : Place
deriving DecidableEq

def Flaw.toError (f : Flaw) : Error := { problem := .invalidDefinition f.fault, place := some f.place }

namespace Draft

variable {σ : Type}

/-- Builds versions, the first of which is number `k`. -/
def buildVersions (id lead : String) : Nat → List VersionDraft → Except Flaw (List Version)
  | _, [] => .ok []
  | k, v :: vs =>
    match v.build lead with
    | .error fault =>
      .error { fault, place := { command := some id, stack := ["version " ++ toString k] } }
    | .ok version => (buildVersions id lead (k + 1) vs).map (version :: ·)

/-- Builds the command with this id. Its name and its handler are the id unless the draft names
others; versions without a lead of their own have the one given. -/
def build (d : Draft) (id lead : String) (handlers : Handlers σ) : Except Flaw (Command σ) :=
  let place : Place := { command := some id }
  let handlerName := d.handler.getD id
  match handlers.get? handlerName with
  | none => .error { fault := .noHandler handlerName, place }
  | some handler =>
    if d.versions.isEmpty then .error { fault := .noVersions, place }
    else (buildVersions id lead 1 d.versions).map fun versions =>
      { name := d.name.getD id, versions, handler }

end Draft
end Chatline
