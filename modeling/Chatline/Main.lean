import Chatline.Shell

/-! The program: reads files, lines and the environment, and prints what the session gives. -/
namespace Chatline.Main

open Chatline

/-- What stands at a path of the file system, if anything does. -/
def contentAt (path : String) : IO (Option Content) := do
  let place := (← IO.currentDir) / path
  if ← place.isDir then return some .folder
  try
    return some (.ofBytes (← IO.FS.readBinFile place))
  catch _ => return none

/-- The files with these paths, as they are now. -/
def capture (paths : List String) (files : FileTree) : IO FileTree :=
  paths.foldlM (fun files path => do
    if path.isEmpty then return files
    match ← contentAt path with
    | some c => return files.write path c
    | none => return files) files

/-- A directory and the files directly in it, as they are now. -/
def captureFolder (dir : String) (files : FileTree) : IO FileTree := do
  let files ← capture [dir] files
  let place := (← IO.currentDir) / dir
  if dir.isEmpty || !(← place.isDir) then return files
  let names := (← place.readDir).toList.map fun entry => entry.fileName
  capture (names.map (Path.join dir)) files

/-- The files that a session can read, as they are now. -/
def captureAll (config : Config) : IO FileTree := do
  let files ← capture config.files {}
  match config.commandsDir with
  | some dir => captureFolder dir files
  | none => return files

def print (ps : List Printed) : IO Unit := do
  for p in ps do
    match p with
    | .out text => (← IO.getStdout).putStr text
    | .err text => (← IO.getStderr).putStr text
  (← IO.getStdout).flush

def finish (r : Shell.Result) : IO UInt32 := do
  print r.printed
  return r.exitCode.toUInt32

def readLine? (prompt : String) : IO (Option String) := do
  let stdin ← IO.getStdin
  if ← stdin.isTty then
    print [.out prompt]
  let line ← stdin.getLine
  if line.isEmpty then return none else return (Text.lines line).head?

/-- Reads and answers lines, with the files as they are at each of them. -/
def converse (config : Config) (start : Console) : IO Unit := do
  let mut console := start
  if console.showBanner then
    print [banner]
  repeat
    match ← readLine? console.prompt with
    | none => break
    | some line =>
      if !Text.allBlank line then
        let turn := console.turn (← captureAll config) line
        console := turn.console
        print turn.printed
        if !turn.goesOn then
          break
  print [farewell]

def freshSeed : IO UInt64 := do
  let bytes ← IO.getRandomBytes 8
  return bytes.toList.foldl (fun seed b => 256 * seed + b.toUInt64) 0

def run (config : Config) : IO UInt32 := do
  let files ← captureAll config
  match Shell.openConsole config (← IO.getEnv "RUST_LOG") files (← freshSeed) with
  | .error e => finish (Shell.fail [] e)
  | .ok console =>
    let (printed, result) := Shell.replayAll files config.files console
    print printed
    match result with
    | .error e => finish (Shell.fail [] e)
    | .ok console =>
      if !config.batch then
        converse config console
      return 0

end Chatline.Main

def main (args : List String) : IO UInt32 := do
  match Chatline.Config.ofArgs ("parley" :: args) with
  | .ok (.run config) => Chatline.Main.run config
  | _ => Chatline.Main.finish (Chatline.Shell.run ("parley" :: args) none {} [] 0)
