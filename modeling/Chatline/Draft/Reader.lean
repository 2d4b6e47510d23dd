import Chatline.Draft.Basic
import Chatline.Toml.Document

/-! Reading drafts from TOML. A part of a draft is a table of named fields, or a list of the
fields in their declared order. Fields with other names are ignored. The first wrong field of a
table or list counts, and in a table after all fields the first required one that is missing. -/
namespace Chatline

namespace Toml

def text : Toml → Except Misread String
  | string s => .ok s
  | _ => .error .malformed

def flag : Toml → Except Misread Bool
  | boolean b => .ok b
  | _ => .error .malformed

def word64 : Toml → Except Misread Int64
  | integer n => .ok n
  | _ => .error .malformed

/-- An integer between two bounds. -/
def between (lo hi : Int) : Toml → Except Misread Int
  | integer n => if lo ≤ n.toInt ∧ n.toInt ≤ hi then .ok n.toInt else .error .malformed
  | _ => .error .malformed

/-- An integer of 32 bits with a sign. -/
def priority : Toml → Except Misread Int := between Int32.minValue.toInt Int32.maxValue.toInt

def count32 (v : Toml) : Except Misread UInt32 :=
  (between 0 (UInt32.size - 1) v).map fun n => UInt32.ofNat n.toNat

def natural (v : Toml) : Except Misread Nat := (between 0 Int64.maxValue.toInt v).map Int.toNat

/-- The items of an array of either form. -/
def items : Toml → Except Misread (List Toml)
  | array vs => .ok vs
  | tables vs => .ok vs
  | _ => .error .malformed

def texts (v : Toml) : Except Misread (List String) := do
  let vs ← v.items
  vs.mapM text

/-- A part of a draft: named fields, or fields in their declared order. -/
inductive Part where
  | named (fields : Fields)
  | listed (items : List Toml)

/-- A date counts as a table without known fields. -/
def part : Toml → Except Misread Part
  | table _ fs => .ok (.named fs)
  | moment => .ok (.named [])
  | array vs => .ok (.listed vs)
  | tables vs => .ok (.listed vs)
  | _ => .error .malformed

/-- One of the variants, by its exact name. -/
def variant (variants : List String) : Toml → Except Misread String
  | string s => if s ∈ variants then .ok s else .error (.unknownVariant s variants)
  | _ => .error .malformed

/-- The variant that a field of a table names. -/
def tagOf (field : String) (variants : List String) (fs : Fields) : Except Misread String :=
  match lookup? field fs with
  | some v => variant variants v
  | none => .error (.missingField field)

/-- The value of a field that has to be there. -/
def require {α : Type} (field : String) : Option α → Except Misread α
  | some a => .ok a
  | none => .error (.missingField field)

/-- Reads the next field of a list; it has to be there. -/
def next {α : Type} (read : Toml → Except Misread α) : List Toml → Except Misread (α × List Toml)
  | [] => .error .malformed
  | v :: vs => (read v).map fun a => (a, vs)

/-- Reads the next field of a list, if there is one. -/
def nextOr {α : Type} (absent : α) (read : Toml → Except Misread α) :
    List Toml → Except Misread (α × List Toml)
  | [] => .ok (absent, [])
  | v :: vs => (read v).map fun a => (a, vs)

/-- Ends a list that may hold no further fields. -/
def ending {α : Type} (a : α) : List Toml → Except Misread α
  | [] => .ok a
  | _ => .error .malformed

end Toml

namespace MatcherDraft

def variants : List String := ["integer", "text", "choice"]

def integerFields (fs : Toml.Fields) : Except Misread MatcherDraft := do
  let (min, max) ← fs.foldlM (fun (p : Option Int64 × Option Int64) f => do
    if f.1 = "min" then return (some (← f.2.word64), p.2)
    else if f.1 = "max" then return (p.1, some (← f.2.word64))
    else return p) (none, none)
  return integer min max

def textFields (fs : Toml.Fields) : Except Misread MatcherDraft := do
  let limit ← fs.foldlM (fun (limit : Option Nat) f => do
    if f.1 = "max_length" then return some (← f.2.natural) else return limit) none
  return text limit

def choiceFields (fs : Toml.Fields) : Except Misread MatcherDraft := do
  let options ← fs.foldlM (fun (options : Option (List String)) f => do
    if f.1 = "options" then return some (← f.2.texts) else return options) none
  return choice (← Toml.require "options" options)

/-- In a list every field has to be given. -/
def ofItems (tag : String) (vs : List Toml) : Except Misread MatcherDraft := do
  if tag = "integer" then
    let (min, vs) ← Toml.next Toml.word64 vs
    let (max, vs) ← Toml.next Toml.word64 vs
    Toml.ending (integer (some min) (some max)) vs
  else if tag = "text" then
    let (limit, vs) ← Toml.next Toml.natural vs
    Toml.ending (text (some limit)) vs
  else
    let (options, vs) ← Toml.next Toml.texts vs
    Toml.ending (choice options) vs

def ofToml (v : Toml) : Except Misread MatcherDraft := do
  match ← v.part with
  | .named fs =>
    let tag ← Toml.tagOf "type" variants fs
    if tag = "integer" then integerFields fs
    else if tag = "text" then textFields fs
    else choiceFields fs
  | .listed [] => .error (.missingField "type")
  | .listed (tag :: vs) => ofItems (← Toml.variant variants tag) vs

end MatcherDraft

def Value.ofToml : Toml → Except Misread Value
  | .boolean b => .ok (.bool b)
  | .integer n => .ok (.int n)
  | .string s => .ok (.text s)
  | _ => .error .malformed

namespace LeafDraft

def matchersOf (v : Toml) : Except Misread (List MatcherDraft) := do
  let vs ← v.items
  vs.mapM MatcherDraft.ofToml

def ofFields (fs : Toml.Fields) : Except Misread LeafDraft := do
  let (name, leaf) ← fs.foldlM (fun (p : Option String × LeafDraft) f => do
    let (name, leaf) := p
    if f.1 = "name" then return (some (← f.2.text), leaf)
    else if f.1 = "types" then return (name, { leaf with matchers := ← matchersOf f.2 })
    else if f.1 = "optional" then return (name, { leaf with optional := ← f.2.flag })
    else if f.1 = "default" then return (name, { leaf with fallback := some (← Value.ofToml f.2) })
    else if f.1 = "priority" then return (name, { leaf with priority := ← f.2.priority })
    else return p) (none, { name := "" })
  return { leaf with name := ← Toml.require "name" name }

/-- In a list the fallback has to be given. -/
def ofItems (vs : List Toml) : Except Misread LeafDraft := do
  let (name, vs) ← Toml.next Toml.text vs
  let (matchers, vs) ← Toml.nextOr [.text none] matchersOf vs
  let (optional, vs) ← Toml.nextOr false Toml.flag vs
  let (fallback, vs) ← Toml.next Value.ofToml vs
  let (priority, vs) ← Toml.nextOr 0 Toml.priority vs
  Toml.ending { name, matchers, optional, fallback := some fallback, priority } vs

end LeafDraft

/-- The bounds of a repetition. The lower one is 1 unless it is given. -/
def ShapeDraft.repetitionOf (v : Toml) : Except Misread (UInt32 × UInt32) := do
  match ← v.part with
  | .named fs =>
    let (min, max) ← fs.foldlM (fun (p : UInt32 × Option UInt32) f => do
      if f.1 = "min" then return (← f.2.count32, p.2)
      else if f.1 = "max" then return (p.1, some (← f.2.count32))
      else return p) (1, none)
    return (min, ← Toml.require "max" max)
  | .listed vs =>
    let (min, vs) ← Toml.nextOr 1 Toml.count32 vs
    let (max, vs) ← Toml.next Toml.count32 vs
    Toml.ending (min, max) vs

namespace NodeDraft

def variants : List String := ["argument", "literal", "group"]

def wordFields (fs : Toml.Fields) : Except Misread NodeDraft := do
  let (w, optional, priority) ←
    fs.foldlM (fun (p : Option String × Bool × Int) f => do
      let (w, optional, priority) := p
      if f.1 = "word" then return (some (← f.2.text), optional, priority)
      else if f.1 = "optional" then return (w, ← f.2.flag, priority)
      else if f.1 = "priority" then return (w, optional, ← f.2.priority)
      else return p) (none, false, 0)
  return word (← Toml.require "word" w) optional priority

/-- In a list the last two fields may be left out. -/
def wordItems (vs : List Toml) : Except Misread NodeDraft := do
  let (w, vs) ← Toml.next Toml.text vs
  let (optional, vs) ← Toml.nextOr false Toml.flag vs
  let (priority, vs) ← Toml.nextOr 0 Toml.priority vs
  Toml.ending (word w optional priority) vs

/-- What follows the children of a group in a list. The repetition has to be given. -/
def shapeItems (vs : List Toml) : Except Misread ShapeDraft := do
  let (optional, vs) ← Toml.nextOr false Toml.flag vs
  let (sparse, vs) ← Toml.nextOr false Toml.flag vs
  let (flexible, vs) ← Toml.nextOr false Toml.flag vs
  let (repetition, vs) ← Toml.next ShapeDraft.repetitionOf vs
  let (priority, vs) ← Toml.nextOr 0 Toml.priority vs
  Toml.ending { optional, sparse, flexible, repetition := some repetition, priority } vs

mutual

def ofToml : Toml → Except Misread NodeDraft
  | .table _ fs => do
    let tag ← Toml.tagOf "kind" variants fs
    if tag = "argument" then (LeafDraft.ofFields fs).map leaf
    else if tag = "literal" then wordFields fs
    else groupFields {} none fs
  | .moment => .error (.missingField "kind")
  | .array vs => ofTagged vs
  | .tables vs => ofTagged vs
  | _ => .error .malformed

/-- A node as a list, its kind first. -/
def ofTagged : List Toml → Except Misread NodeDraft
  | [] => .error (.missingField "kind")
  | tag :: vs => do
    let tag ← Toml.variant variants tag
    if tag = "argument" then (LeafDraft.ofItems vs).map leaf
    else if tag = "literal" then wordItems vs
    else
      match vs with
      | [] => .error .malformed
      | children :: vs => do
        let children ← childrenOf children
        return group (← shapeItems vs) children

def groupFields (shape : ShapeDraft) (children : Option (List NodeDraft)) :
    List (String × Toml) → Except Misread NodeDraft
  | [] => do return group shape (← Toml.require "children" children)
  | (k, v) :: fs => do
    if k = "children" then groupFields shape (some (← childrenOf v)) fs
    else if k = "optional" then groupFields { shape with optional := ← v.flag } children fs
    else if k = "partial" then groupFields { shape with sparse := ← v.flag } children fs
    else if k = "flexible" then groupFields { shape with flexible := ← v.flag } children fs
    else if k = "repeat" then
      groupFields { shape with repetition := some (← ShapeDraft.repetitionOf v) } children fs
    else if k = "priority" then groupFields { shape with priority := ← v.priority } children fs
    else groupFields shape children fs

def childrenOf : Toml → Except Misread (List NodeDraft)
  | .array vs => ofTomls vs
  | .tables vs => ofTomls vs
  | _ => .error .malformed

def ofTomls : List Toml → Except Misread (List NodeDraft)
  | [] => .ok []
  | v :: vs => do
    let node ← ofToml v
    let nodes ← ofTomls vs
    return node :: nodes

end

end NodeDraft

namespace VersionDraft

def ofFields (fs : Toml.Fields) : Except Misread VersionDraft := do
  let (triggers, version) ← fs.foldlM (fun (p : Option (List String) × VersionDraft) f => do
    let (triggers, version) := p
    if f.1 = "label" then return (triggers, { version with label := some (← f.2.text) })
    else if f.1 = "prefix" then return (triggers, { version with lead := some (← f.2.text) })
    else if f.1 = "triggers" then return (some (← f.2.texts), version)
    else if f.1 = "arguments" then
      return (triggers, { version with arguments := ← NodeDraft.childrenOf f.2 })
    else return p) (none, { triggers := [] })
  return { version with triggers := ← Toml.require "triggers" triggers }

/-- In a list the arguments may be left out, and what stands after them is ignored. -/
def ofItems (vs : List Toml) : Except Misread VersionDraft := do
  let (label, vs) ← Toml.next Toml.text vs
  let (lead, vs) ← Toml.next Toml.text vs
  let (triggers, vs) ← Toml.next Toml.texts vs
  let (arguments, _) ← Toml.nextOr [] NodeDraft.childrenOf vs
  return { label := some label, lead := some lead, triggers, arguments }

def ofToml (v : Toml) : Except Misread VersionDraft := do
  match ← v.part with
  | .named fs => ofFields fs
  | .listed vs => ofItems vs

end VersionDraft

namespace Draft

def ofFields (fs : Toml.Fields) : Except Misread Draft := do
  let (versions, draft) ← fs.foldlM (fun (p : Option (List VersionDraft) × Draft) f => do
    let (versions, draft) := p
    if f.1 = "name" then return (versions, { draft with name := some (← f.2.text) })
    else if f.1 = "handler" then return (versions, { draft with handler := some (← f.2.text) })
    else if f.1 = "versions" then
      return (some (← (← f.2.items).mapM VersionDraft.ofToml), draft)
    else return p) (none, { versions := [] })
  return { draft with versions := ← Toml.require "versions" versions }

/-- Reads a draft from the text of a definition. -/
def ofText (text : String) : Except Misread Draft :=
  match Toml.read? text with
  | some fs => ofFields fs
  | none => .error .malformed

end Draft
end Chatline
