import Chatline.Error
import Chatline.Text.Basic

/-! Paths as they are spelled, and a tree of files as a value. -/
namespace Chatline
namespace Path

def isAbsolute (path : String) : Bool := path.toList.head? = some '/'

/-- The components of a path. An absolute path begins with the component `/`. -/
def components (path : String) : List String :=
  let (piece, others) := Text.piecesAt '/' path.toList
  (if isAbsolute path then "/" else String.ofList piece) :: others.map String.ofList

/-- A name below a directory, as it is spelled. An absolute name stands for itself. -/
def join (dir name : String) : String :=
  if isAbsolute name || dir.isEmpty then name
  else if dir.toList.getLast? = some '/' then dir ++ name
  else dir ++ "/" ++ name

/-- The part of a file name before its extension, if the extension is exactly `toml`. -/
def tomlStem? (name : String) : Option String :=
  let suffix := ".toml".toList
  let cs := name.toList
  let stem := cs.take (cs.length - suffix.length)
  if cs = stem ++ suffix ∧ stem ≠ [] then some (String.ofList stem) else none

/-- The longest name and the longest path, in bytes. -/
def nameLimit : Nat := 255

def pathLimit : Nat := 4095

/-- The place above another. Those above the working directory are named by two points. -/
def parent (place : List String) : List String :=
  if place.all (· = "..") then place ++ [".."]
  else if place = ["/"] then place
  else place.dropLast

end Path

inductive Content where
  | text (s : String)
  /-- A file whose bytes are not the encoding of a text. -/
  | binary
  | folder
deriving DecidableEq

def Content.isFile : Content → Bool
  | folder => false
  | _ => true

def Content.ofBytes (bytes : ByteArray) : Content :=
  match String.fromUTF8? bytes with
  | some s => text s
  | none => binary

/-- Files and folders by the names that lead to them from the working directory. -/
structure FileTree where
  entries : List (List String × Content) := []

namespace FileTree

/-- The working directory, the places above it and the root exist in every tree. -/
def content? (t : FileTree) (place : List String) : Option Content :=
  if place.all (· = "..") || place = ["/"] then some .folder
  else (t.entries.find? fun e => e.1 = place).map Prod.snd

def follow (t : FileTree) (place : List String) : List String → Except IoFault (List String)
  | [] => .ok place
  | c :: cs =>
    match t.content? place with
    | none => .error .notFound
    | some .folder =>
      if Path.nameLimit < c.utf8ByteSize then .error .nameTooLong
      else if c = "" || c = "." then follow t place cs
      else if c = ".." then follow t (Path.parent place) cs
      else follow t (place ++ [c]) cs
    | some _ => .error .notADirectory

/-- Follows the components of a path, from the root or from the working directory. -/
def walk (t : FileTree) : List String → Except IoFault (List String)
  | "/" :: parts => t.follow ["/"] parts
  | parts => t.follow [] parts

def found (t : FileTree) (place : List String) : Except IoFault (List String × Content) :=
  match t.content? place with
  | some content => .ok (place, content)
  | none => .error .notFound

def resolve (t : FileTree) (path : String) : Except IoFault (List String × Content) :=
  if path.toList.contains '\x00' then .error .nulInPath
  else if path.isEmpty then .error .notFound
  else if Path.pathLimit < path.utf8ByteSize then .error .nameTooLong
  else (t.walk (Path.components path)).bind t.found

def isFile (t : FileTree) (path : String) : Bool :=
  match t.resolve path with
  | .ok (_, c) => c.isFile
  | .error _ => false

def read (t : FileTree) (path : String) : Except IoFault String :=
  match t.resolve path with
  | .ok (_, .text s) => .ok s
  | .ok (_, .binary) => .error .notUtf8
  | .ok (_, .folder) => .error .isADirectory
  | .error e => .error e

/-- The names of what stands directly in a directory and is a file by its path, which is the path
of the directory with the name joined to it. -/
def filesIn (t : FileTree) (path : String) : Except IoFault (List String) :=
  match t.resolve path with
  | .ok (place, .folder) =>
    let names := t.entries.filterMap fun e => if e.1.dropLast = place then e.1.getLast? else none
    .ok (names.filter fun name => t.isFile (Path.join path name))
  | .ok _ => .error .notADirectory
  | .error e => .error e

/-- The place that a path names once the components that do not move are left out. -/
def placeOf (path : String) : List String :=
  (Path.components path).foldl (fun place c =>
    if c = "" || c = "." then place
    else if c = ".." then Path.parent place
    else place ++ [c]) []

/-- Takes away a file, or a folder with all that is in it. -/
def remove (t : FileTree) (path : String) : FileTree :=
  { entries := t.entries.filter fun e => !(placeOf path).isPrefixOf e.1 }

def makeFolders (t : FileTree) (place : List String) : FileTree :=
  (List.range place.length).foldl (fun t n =>
    let way := place.take n
    if (t.content? way).isSome then t else { entries := t.entries ++ [(way, .folder)] }) t

/-- Puts something at a path, and makes the folders on the way. -/
def write (t : FileTree) (path : String) (c : Content) : FileTree :=
  let place := placeOf path
  let t := t.makeFolders place
  { entries := (t.entries.filter fun e => e.1 != place) ++ [(place, c)] }

def ofList (files : List (String × Content)) : FileTree :=
  files.foldl (fun t f => t.write f.1 f.2) {}

end FileTree

end Chatline
