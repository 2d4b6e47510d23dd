import Chatline.Draft.Reader
import Chatline.FileTree
import Chatline.Registry

/-! Where commands come from: a list of them, or the definitions in a directory. -/
namespace Chatline

/-- Listed commands may fail to be made. In a directory the files with the extension `toml` count,
and the rest of a file's name is the id of its command. -/
inductive Source (σ : Type) where
  | listed (commands : NameMap (Except Error (Command σ)))
  | directory (dir lead : String) (handlers : Handlers σ)

namespace Source

variable {σ : Type}

def idsIn (files : FileTree) (dir : String) : Except Error (List String) :=
  match files.filesIn dir with
  | .ok names => .ok (NameMap.sortedNames (names.filterMap Path.tomlStem?))
  | .error e => .error { problem := .io e }

/-- Builds the command that a definition file describes. Of an error in the definition its place
is not kept, but the path of the file is. -/
def loadFile (path id lead : String) (handlers : Handlers σ) (text : String) :
    Except Error (Command σ) :=
  let broken (f : Fault) : Error := { problem := .definitionFile path (.definition f) }
  match Draft.ofText text with
  | .error why => .error (broken (.misread why))
  | .ok draft =>
    match draft.build id lead handlers with
    | .ok c => .ok c
    | .error flaw => .error (broken flaw.fault)

def loadFrom (files : FileTree) (dir lead : String) (handlers : Handlers σ) (id : String) :
    Except Error (Command σ) :=
  let path := Path.join dir (id ++ ".toml")
  if files.isFile path then
    match files.read path with
    | .ok text => loadFile path id lead handlers text
    | .error e => .error { problem := .io e }
  else .error (.unknownCommand id)

/-- What a source offers while the files are these. -/
def supply (files : FileTree) : Source σ → Supply σ
  | listed commands =>
    { ids := .ok commands.keys
      load := fun id =>
        match commands.get? id with
        | some c => c
        | none => .error (.unknownCommand id) }
  | directory dir lead handlers =>
    { ids := idsIn files dir
      load := loadFrom files dir lead handlers }

end Source
end Chatline
