import Chatline.Config
import Chatline.Demo.Basic

/-! A console session. Every line is offered to the loaded commands as a message; a line that
starts with a colon speaks to the console itself. -/
namespace Chatline

structure Console where
  source : Source Generator
  registry : Registry Generator := ∅
  generator : Generator
  /-- Reports that no reply has taken yet. -/
  collected : List Report := []
  context : Context
  prompt : String
  showBanner : Bool
  /-- The words last given to the line editor for completion. -/
  completions : List String := []

inductive Reply where
  | silent
  | message (text : String)
  | rejected (failures : List Failure)
  | quit
deriving DecidableEq

namespace Console

def metaWords : List String := [":commands", ":reload", ":quit"]

/-- Offers the beginnings of all messages and the console's own commands for completion. -/
def refresh (c : Console) : Console :=
  let words := c.registry.values.flatMap Command.openings
  { c with completions := NameMap.sortedNames (words ++ metaWords) }

def sourceOf (config : Config) : Source Generator :=
  match config.commandsDir with
  | some dir => .directory dir config.lead Demo.handlers
  | none => Demo.source config.lead

/-- Opens a session and loads every command of its source. The seed is the one given here if the
configuration has none. -/
def start (config : Config) (files : FileTree) (seed : UInt64) : Except Error Console :=
  match config.validate with
  | .error e => .error (.ofConfig e)
  | .ok _ =>
    let c : Console :=
      { source := sourceOf config
        generator := .ofSeed (config.seed.getD seed)
        context := { author := some config.author }
        prompt := config.prompt
        showBanner := config.showBanner }
    (c.registry.loadAll (c.source.supply files)).map fun loaded =>
      refresh { c with registry := loaded.1 }

def withContext (c : Console) (context : Context) : Console := { c with context }

def commands (c : Console) : List String := c.registry.keys

def description (c : Console) : String :=
  let lines := c.registry.entries.map fun e => e.1 ++ ": " ++ ", ".intercalate e.2.openings
  if lines.isEmpty then "no commands loaded" else "\n".intercalate lines

/-- Answers a line that speaks to the console. Only a reload can fail, and then nothing
changes. -/
def answerMeta (c : Console) (files : FileTree) (word : String) : Except Error Reply × Console :=
  if word = "quit" ∨ word = "q" ∨ word = "exit" then (.ok .quit, c)
  else if word = "commands" then (.ok (.message c.description), c)
  else if word = "reload" then
    match Registry.reloadAll (c.source.supply files) with
    | .ok (registry, n) =>
      (.ok (.message ("reloaded " ++ toString n ++ " commands")), refresh { c with registry })
    | .error e => (.error e, c)
  else
    (.ok (.message ("unknown console command :" ++ word ++ " (try :commands, :reload, :quit)")), c)

/-- Answers a message. Failures come from the reports, all of which are taken. -/
def answerMessage (c : Console) (message : String) : Reply × Console :=
  let r := c.registry.dispatch message c.context c.generator
  let reports := c.collected ++ r.reports
  let reply := match r.outcome with
    | .executed e => (e.reply.map Reply.message).getD .silent
    | .rejected _ => .rejected (reports.flatMap Report.failures)
    | .unmatched => .silent
  (reply, { c with generator := r.state, collected := [] })

def answer (c : Console) (files : FileTree) (line : String) : Except Error Reply × Console :=
  let line := Text.trim line
  match Text.cutStart? ":" line with
  | some word => c.answerMeta files (Text.trim word)
  | none =>
    let (reply, c) := c.answerMessage line
    (.ok reply, c)

def isPassedOver (line : String) : Bool :=
  Text.allBlank line || Text.startsWith "#" (Text.trim line)

/-- Answers lines up to one that ends the session or an error. -/
def answerLines (files : FileTree) : List String → Console → Except Error (List Reply) × Console
  | [], c => (.ok [], c)
  | line :: lines, c =>
    if isPassedOver line then answerLines files lines c
    else
      match c.answer files line with
      | (.error e, c) => (.error e, c)
      | (.ok .quit, c) => (.ok [], c)
      | (.ok reply, c) =>
        let (replies, c) := answerLines files lines c
        (replies.map (reply :: ·), c)

def replay (c : Console) (files : FileTree) (path : String) :
    Except Error (List Reply) × Console :=
  match files.read path with
  | .ok text => answerLines files (Text.lines text) c
  | .error why => (.error (.ofConfig (.unreadable path why)), c)

end Console
end Chatline
