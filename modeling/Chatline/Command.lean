import Chatline.Grammar.Match

/-! Commands: versions that are tried in order, and one handler for all of them. A version has the
words that start a message for it, and the grammar of the rest. Handlers act on a state of type `σ`
that the caller keeps, and are told where the message came from, which matching never looks at. -/
namespace Chatline

/-- A message is for this version if it starts with `lead` and one of the triggers. What follows
the first such trigger is cut into words, all of which the root has to take. -/
structure Version where
  label : String
  lead : String
  triggers : List String
  root : Group

namespace Version

/-- A version labelled by its first trigger. No trigger may be blank. -/
def of? (lead : String) (triggers : List String) (root : Group) : Except Fault Version :=
  match triggers with
  | [] => .error .noTriggers
  | first :: _ =>
    match triggers.find? Text.allBlank with
    | some blank => .error (.blankTrigger blank)
    | none => .ok { label := first, lead, triggers, root }

def withLabel (v : Version) (label : String) : Version := { v with label }

/-- What follows the lead and the first trigger that fits. -/
def rest? (v : Version) (message : String) : Option String :=
  (Text.cutStart? v.lead message).bind fun rest =>
    v.triggers.findSome? fun trigger => Text.cutStart? trigger rest

/-- Matches a message. A failure names this version. -/
def tryMatch (v : Version) (message : String) : Verdict Failure Args :=
  match v.rest? message with
  | none => .noMatch
  | some rest => (v.root.matchTokens (Text.words rest)).mapInvalid (·.withVersion v.label)

def openings (v : Version) : List String := v.triggers.map (v.lead ++ ·)

end Version

structure Context where
  author : Option String := none
  channel : Option String := none
  attributes : NameMap String := ∅

namespace Context

def withAuthor (c : Context) (author : String) : Context := { c with author := some author }

def withChannel (c : Context) (channel : String) : Context := { c with channel := some channel }

def withAttribute (c : Context) (key value : String) : Context :=
  { c with attributes := c.attributes.insert key value }

def attribute? (c : Context) (key : String) : Option String := c.attributes.get? key

end Context

/-- The code of a command: from what was read and where the message came from, a reply if there
is one, and the next state. -/
abbrev Handler (σ : Type) := Args → Context → σ → Option String × σ

structure Command (σ : Type) where
  name : String
  versions : List Version
  handler : Handler σ

/-- A message that was executed: by which command and version, what was read, and the reply. -/
structure Execution where
  command : String
  version : String
  args : Args
  reply : Option String

inductive Outcome where
  | executed (e : Execution)
  | unmatched
  | rejected (failures : List Failure)

namespace Outcome

def ofFailures (fs : List Failure) : Outcome := if fs.isEmpty then unmatched else rejected fs

def failures : Outcome → List Failure
  | rejected fs => fs
  | _ => []

def execution? : Outcome → Option Execution
  | executed e => some e
  | _ => none

end Outcome

/-- The failures of a command that did not execute a message. -/
structure Report where
  command : String
  failures : List Failure
deriving DecidableEq

/-- What dispatching a message gives: the outcome, what is reported, and the next state. -/
structure Reaction (σ : Type) where
  outcome : Outcome
  reports : List Report
  state : σ

namespace Command

variable {σ : Type}

/-- The failures of the versions up to the first one that matches, and that one. -/
def firstMatch (message : String) : List Version → List Failure × Option (Version × Args)
  | [] => ([], none)
  | v :: vs =>
    match v.tryMatch message with
    | .matched args => ([], some (v, args))
    | .invalid e => (e :: (firstMatch message vs).1, (firstMatch message vs).2)
    | .noMatch => firstMatch message vs

/-- Offers a message to the command. The first version that matches runs the handler; if none
does, the failures are reported. -/
def dispatch (c : Command σ) (message : String) (ctx : Context) (st : σ) : Reaction σ :=
  match firstMatch message c.versions with
  | (_, some (v, args)) =>
    let (reply, st) := c.handler args ctx st
    { outcome := .executed { command := c.name, version := v.label, args, reply }
      reports := []
      state := st }
  | (fs, none) =>
    { outcome := .ofFailures fs
      reports := if fs.isEmpty then [] else [{ command := c.name, failures := fs }]
      state := st }

/-- Offers a message to commands in order, up to the first one that executes it. What the
commands before it reported is dropped. -/
def dispatchAll (message : String) (ctx : Context) : List (Command σ) → σ → Reaction σ
  | [], st => { outcome := .unmatched, reports := [], state := st }
  | c :: cs, st =>
    let first := c.dispatch message ctx st
    match first.outcome with
    | .executed _ => first
    | outcome =>
      let others := dispatchAll message ctx cs first.state
      match others.outcome with
      | .executed _ => others
      | later =>
        { outcome := .ofFailures (outcome.failures ++ later.failures)
          reports := first.reports ++ others.reports
          state := others.state }

/-- The beginnings of the messages for the command, each once. -/
def openings (c : Command σ) : List String := (c.versions.flatMap Version.openings).eraseDups

end Command

end Chatline
