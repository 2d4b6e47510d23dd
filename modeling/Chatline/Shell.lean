import Chatline.Session

/-! The program behind the command line, as a function of its arguments, the files and the lines
it reads. -/
namespace Chatline.Shell

def bold (text : String) : String := colored "1" text

def help : String :=
  bold "parley" ++ " - Chat command console\n\n" ++
  bold "USAGE:" ++ "\n    parley [OPTIONS] [FILES...]\n\n" ++
  bold "ARGUMENTS:" ++ "\n    [FILES...]    Message files to replay (one message per line)\n\n" ++
  bold "OPTIONS:" ++ "\n" ++
  "    -h, --help             Print help information\n" ++
  "    -V, --version          Print version information\n" ++
  "    -p, --prefix PREFIX    Trigger prefix (default: !)\n" ++
  "    -d, --commands DIR     Load *.toml command definitions from DIR\n" ++
  "        --log FILTER       Log filter when RUST_LOG is unset (default: warn)\n" ++
  "        --author NAME      Author attached to typed messages\n" ++
  "        --seed N           Seed the demo commands' dice and choices\n" ++
  "    -q, --quiet            Do not print the banner\n" ++
  "    -b, --batch            Replay files and exit\n\n" ++
  bold "EXAMPLES:" ++ "\n" ++
  "    parley                          Start the console with the demo commands\n" ++
  "    parley -d commands              Load definitions from ./commands\n" ++
  "    parley -b messages.txt          Replay messages.txt and exit\n" ++
  "    parley --log parley_parser=trace  Trace every matcher step\n\n" ++
  bold "CONSOLE COMMANDS:" ++ "\n" ++
  "    !choose a or b or c    Pick one option\n" ++
  "    !roll 2 d 6 + 1        Roll dice\n" ++
  "    !echo text             Repeat text\n" ++
  "    :commands              List loaded commands\n" ++
  "    :reload                Reload command definitions\n" ++
  "    :quit                  Leave (or Ctrl+D)\n"

structure Result where
  exitCode : UInt8
  printed : List Printed

def succeed (printed : List Printed) : Result := { exitCode := 0, printed }

def fail (printed : List Printed) (e : Error) : Result :=
  { exitCode := 1, printed := printed ++ e.printed }

/-- The log filter in force: that of the environment if it is accepted, else the configured one,
which has to be. -/
def logFilter (environment : Option String) (configured : String) : Except ConfigFault String :=
  match environment.filter LogFilter.accepts with
  | some filter => .ok filter
  | none =>
    if LogFilter.accepts configured then .ok configured else .error (.badLogFilter configured)

/-- Opens the session of a configuration. After message files no banner is shown. -/
def openConsole (config : Config) (environment : Option String) (files : FileTree)
    (seed : UInt64) : Except Error Console :=
  match logFilter environment config.logFilter with
  | .error e => .error (.ofConfig e)
  | .ok _ =>
    Console.start (if config.files.isEmpty then config else config.withoutBanner) files seed

/-- Replays message files one after the other. One that ends the session ends only itself. -/
def replayAll (files : FileTree) : List String → Console → List Printed × Except Error Console
  | [], c => ([], .ok c)
  | path :: paths, c =>
    match c.replay files path with
    | (.error e, _) => ([], .error e)
    | (.ok replies, c) =>
      let (printed, result) := replayAll files paths c
      (replies.flatMap Reply.printed ++ printed, result)

/-- Replays the message files and then reads lines, unless the files are all there is to do. -/
def converse (config : Config) (files : FileTree) (inputs : List Input) (c : Console) : Result :=
  match replayAll files config.files c with
  | (printed, .error e) => fail printed e
  | (printed, .ok c) =>
    if config.batch then succeed printed
    else
      let t := c.run files inputs
      match t.result with
      | .ok _ => succeed (printed ++ t.printed)
      | .error e => fail (printed ++ t.printed) e

/-- Runs the program. The arguments begin with its name. -/
def run (args : List String) (environment : Option String) (files : FileTree)
    (inputs : List Input) (seed : UInt64) : Result :=
  match Config.ofArgs args with
  | .error e => fail [] (.ofConfig e)
  | .ok .help => succeed [.out help]
  | .ok .version => succeed [.out ("parley " ++ versionNumber ++ "\n")]
  | .ok (.run config) =>
    match openConsole config environment files seed with
    | .error e => fail [] e
    | .ok c => converse config files inputs c

def inputsOf (text : String) : List Input := (Text.lines text).map .line

end Chatline.Shell
