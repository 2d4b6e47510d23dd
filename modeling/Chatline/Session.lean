import Chatline.Console

/-! Interactive sessions: what the console reads, and what it prints. -/
namespace Chatline

/-- What a line editor gives when it is asked for a line. -/
inductive Input where
  | line (text : String)
  | interrupted
  | ended
  | failed (reason : String)
deriving DecidableEq

/-- A text for one of the two output channels. -/
inductive Printed where
  | out (text : String)
  | err (text : String)
deriving DecidableEq

namespace Printed

def outText (ps : List Printed) : String :=
  String.join (ps.map fun
    | out t => t
    | err _ => "")

def errText (ps : List Printed) : String :=
  String.join (ps.map fun
    | out _ => ""
    | err t => t)

end Printed

/-- A line in a colour of the terminal. -/
def colored (code text : String) : String := "\x1b[" ++ code ++ "m" ++ text ++ "\x1b[0m"

def Reply.printed : Reply → List Printed
  | message text => [.out (text ++ "\n")]
  | rejected failures => failures.map fun f => .err (colored "33" f.text ++ "\n")
  | silent => []
  | quit => []

def Error.printed (e : Error) : List Printed := [.err (colored "31" ("Error: " ++ e.text) ++ "\n")]

def versionNumber : String := "0.1.0"

def banner : Printed :=
  .out (colored "1;36" "parley" ++ " v" ++ versionNumber ++
    "\nType messages as if in a chat. :commands lists commands, Ctrl+D exits.\n\n")

def farewell : Printed := .out "\nGoodbye!\n"

/-- A session that came to its end: how it ended, what it printed, the prompts it gave, the lines
it kept in the history, and what it left unread. -/
structure Transcript where
  result : Except Error Unit
  printed : List Printed
  prompts : List String
  history : List String
  unread : List Input
  console : Console

namespace Console

/-- What follows a line: the session goes on or not, and something is printed. -/
structure Turn where
  goesOn : Bool
  printed : List Printed
  console : Console

/-- Answers a line of the session. -/
def turn (c : Console) (files : FileTree) (line : String) : Turn :=
  match c.answer files line with
  | (.ok .quit, console) => { goesOn := false, printed := [], console }
  | (.ok reply, console) => { goesOn := true, printed := reply.printed, console }
  | (.error e, console) => { goesOn := true, printed := e.printed, console }

/-- Reads and answers lines until the input ends, the line editor fails or a line ends the
session. Blank lines are neither answered nor kept. -/
def converse (files : FileTree) : List Input → Console → Transcript
  | [], c =>
    { result := .ok (), printed := [farewell], prompts := [c.prompt], history := [], unread := []
      console := c }
  | input :: inputs, c =>
    let after (t : Transcript) : Transcript := { t with prompts := c.prompt :: t.prompts }
    match input with
    | .ended =>
      { result := .ok (), printed := [farewell], prompts := [c.prompt], history := []
        unread := inputs, console := c }
    | .failed reason =>
      { result := .error { problem := .editor reason }, printed := [], prompts := [c.prompt]
        history := [], unread := inputs, console := c }
    | .interrupted => after (converse files inputs c)
    | .line line =>
      if Text.allBlank line then after (converse files inputs c)
      else
        let t := c.turn files line
        if t.goesOn then
          let rest := converse files inputs t.console
          after { rest with printed := t.printed ++ rest.printed, history := line :: rest.history }
        else
          { result := .ok (), printed := [farewell], prompts := [c.prompt], history := [line]
            unread := inputs, console := t.console }

/-- Runs a session, with its banner if it has one. -/
def run (c : Console) (files : FileTree) (inputs : List Input) : Transcript :=
  let t := converse files inputs c
  if c.showBanner then { t with printed := banner :: t.printed } else t

end Console
end Chatline
