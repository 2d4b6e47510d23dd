import Chatline.Error
import Chatline.Text.Basic

/-! The settings of a console session, the command line that gives them, and the log filters that
are accepted. -/
namespace Chatline

/-- The lead stands in front of every trigger. Without a directory of definitions the demo commands
are used. Files of messages are replayed first; in a batch nothing comes after them. -/
structure Config where
  lead : String := "!"
  commandsDir : Option String := none
  logFilter : String := "warn"
  showBanner : Bool := true
  prompt : String := "> "
  author : String := "console"
  seed : Option UInt64 := none
  files : List String := []
  batch : Bool := false
deriving DecidableEq

inductive Request where
  | help
  | version
  | run (c : Config)
deriving DecidableEq

namespace Config

/-- For scripted runs: no banner, and only errors are logged. -/
def quiet : Config := { showBanner := false, logFilter := "error" }

def verbose : Config := { logFilter := "parley_parser=trace,parley_dispatch=debug,info" }

def withoutBanner (c : Config) : Config := { c with showBanner := false }

def withFile (c : Config) (path : String) : Config := { c with files := c.files ++ [path] }

def validate (c : Config) : Except ConfigFault Unit :=
  if Text.allBlank c.lead then .error .blankLead
  else if Text.hasBlank c.lead then .error .leadHasBlank
  else if c.batch && c.files.isEmpty then .error .batchWithoutFiles
  else .ok ()

/-- Options without a value. -/
inductive Flag where
  | help
  | version
  | batch
  | quiet
deriving DecidableEq

/-- Options that take the next argument as their value. -/
inductive Setting where
  | lead
  | commandsDir
  | logFilter
  | author
  | seed
deriving DecidableEq

def flag? (arg : String) : Option Flag :=
  if arg = "-h" ∨ arg = "--help" then some .help
  else if arg = "-V" ∨ arg = "--version" then some .version
  else if arg = "-b" ∨ arg = "--batch" then some .batch
  else if arg = "-q" ∨ arg = "--quiet" then some .quiet
  else none

def setting? (arg : String) : Option Setting :=
  if arg = "-p" ∨ arg = "--prefix" then some .lead
  else if arg = "-d" ∨ arg = "--commands" then some .commandsDir
  else if arg = "--log" then some .logFilter
  else if arg = "--author" then some .author
  else if arg = "--seed" then some .seed
  else none

/-- Whether an argument is meant as an option: a minus sign and more. -/
def isOption (arg : String) : Bool :=
  match arg.toList with
  | '-' :: _ :: _ => true
  | _ => false

/-- A number of 64 bits without a sign. A plus may stand in front of it. -/
def seed? (raw : String) : Option UInt64 :=
  let digits := match raw.toList with
    | '+' :: ds => ds
    | ds => ds
  match Text.readNat? digits with
  | some n => if n < UInt64.size then some (UInt64.ofNat n) else none
  | none => none

def assign (c : Config) (value : String) : Setting → Except ConfigFault Config
  | .lead => .ok { c with lead := value }
  | .commandsDir => .ok { c with commandsDir := some value }
  | .logFilter => .ok { c with logFilter := value }
  | .author => .ok { c with author := value }
  | .seed =>
    match seed? value with
    | some n => .ok { c with seed := some n }
    | none => .error (.badSeed value)

def parse (c : Config) : List String → Except ConfigFault Request
  | [] => c.validate.map fun _ => .run c
  | arg :: rest =>
    match flag? arg with
    | some .help => .ok .help
    | some .version => .ok .version
    | some .batch => parse { c with batch := true } rest
    | some .quiet => parse c.withoutBanner rest
    | none =>
      match setting? arg with
      | some s =>
        match rest with
        | [] => .error (.missingValue arg)
        | value :: rest =>
          match c.assign value s with
          | .ok c => parse c rest
          | .error e => .error e
      | none => if isOption arg then .error (.unknownOption arg) else parse (c.withFile arg) rest

/-- Reads a command line, which begins with the program's name. -/
def ofArgs (args : List String) : Except ConfigFault Request := parse {} (args.drop 1)

end Config

namespace LogFilter

def levels : List String := ["off", "error", "warn", "info", "debug", "trace"]

def isLevel (s : String) : Bool :=
  levels.any (Text.sameLetters s) || (List.range 6).any fun n => s = toString n

/-- Whether a directive is in order: what follows its first sign `=`, if anything, is a level. -/
def acceptsDirective (cs : List Char) : Bool :=
  let level := ((Text.trim (String.ofList cs)).toList.dropWhile (· != '=')).drop 1
  level.isEmpty || cs.contains '[' || isLevel (String.ofList level)

def accepts (filter : String) : Bool :=
  let (first, others) := Text.piecesAt ',' filter.toList
  (first :: others).all acceptsDirective

end LogFilter
end Chatline
