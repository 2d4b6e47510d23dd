import Chatline.Toml.Key
import Chatline.Toml.Scalar

/-! Documents of TOML 1.0: their tables, and the values after the keys. The fields of a table
stand in the order in which they were first named; a table that is named before its own header
moves to the place of the header. -/
namespace Chatline.Toml

/-- Arrays and inline tables nest fewer levels than this, and keys have fewer parts. -/
def nestingLimit : Nat := 80

def lookup? (k : String) (fs : Fields) : Option Toml := (fs.find? fun f => f.1 = k).map Prod.snd

def setField (k : String) (v : Toml) (fs : Fields) : Fields :=
  fs.map fun f => if f.1 = k then (k, v) else f

/-- Acts on the table at the end of a path, or on the latest table of an array of tables. Tables
that do not exist are made, with the origin `new`. A dotted key does not enter a table that has a
header, and nothing enters an inline table. -/
def within (new : Origin) (act : Origin → Fields → Option Fields) :
    List String → Origin → Fields → Option Fields
  | [], o, fs => act o fs
  | k :: ks, _, fs =>
    match lookup? k fs with
    | none => (within new act ks new []).map fun t => fs ++ [(k, table new t)]
    | some (table o t) =>
      if o = .inline || (new = .dotted && o = .header) then none
      else (within new act ks o t).map fun t => setField k (table o t) fs
    | some (tables items) =>
      match items.getLast? with
      | some (table o t) =>
        (within new act ks o t).map fun t =>
          setField k (tables (items.dropLast ++ [table o t])) fs
      | _ => none
    | some _ => none

/-- Adds a field that is not there yet. A dotted key adds only to tables named by dotted keys. -/
def addField (isDotted : Bool) (k : String) (v : Toml) (o : Origin) (fs : Fields) :
    Option Fields :=
  if (o == .dotted) != isDotted || (lookup? k fs).isSome then none else some (fs ++ [(k, v)])

/-- Adds a value under a key, the last part of which names the field. -/
def addKey (key : List String) (v : Toml) (o : Origin) (fs : Fields) : Option Fields :=
  match key.getLast? with
  | none => none
  | some k => within .dotted (addField (key.length != 1) k v) key.dropLast o fs

def openTable (path : List String) (root : Fields) : Option Fields :=
  match path.getLast? with
  | none => none
  | some k =>
    within .implied (fun _ fs =>
      match lookup? k fs with
      | none => some (fs ++ [(k, table .header [])])
      | some (table .implied t) =>
        some ((fs.filter fun f => f.1 != k) ++ [(k, table .header t)])
      | some _ => none) path.dropLast .header root

/-- Opens the next table of an array of tables. -/
def openElement (path : List String) (root : Fields) : Option Fields :=
  match path.getLast? with
  | none => none
  | some k =>
    within .implied (fun _ fs =>
      match lookup? k fs with
      | none => some (fs ++ [(k, tables [table .header []])])
      | some (tables items) => some (setField k (tables (items ++ [table .header []])) fs)
      | some _ => none) path.dropLast .header root

def keyInLimit? (cs : List Char) : Option (List String × List Char) :=
  (key? cs).filter fun r => r.1.length < nestingLimit

def keyValue (value : Reader Toml) (cs : List Char) : Option ((List String × Toml) × List Char) :=
  match keyInLimit? cs with
  | some (key, '=' :: rest) => (value (skipSpaces rest)).map fun r => ((key, r.1), r.2)
  | _ => none

def plainValue (cs : List Char) : Option (Toml × List Char) :=
  match cs with
  | '"' :: _ => (string? cs).map fun r => (string r.1, r.2)
  | '\'' :: _ => (string? cs).map fun r => (string r.1, r.2)
  | _ => scalar? cs

/-- Reads a value in which arrays and inline tables nest at most so deep. -/
def value : Nat → Reader Toml
  | 0, cs => plainValue cs
  | depth + 1, cs =>
    match cs with
    | '[' :: rest =>
      (sequence (value depth) skipLines ']' true true rest).map fun r => (array r.1, r.2)
    | '\x7b' :: rest =>
      match sequence (keyValue (value depth)) skipSpaces '\x7d' false true rest with
      | none => none
      | some (fields, rest) =>
        (fields.foldlM (fun fs f => addKey f.1 f.2 .inline fs) []).map fun fs =>
          (table .inline fs, rest)
    | _ => plainValue cs

/-- The tables read so far, and the path of the one to which keys are added. -/
structure Progress where
  root : Fields := []
  path : List String := []

def statement (p : Progress) (cs : List Char) : Option (Progress × List Char) :=
  match cs with
  | '[' :: '[' :: rest =>
    match keyInLimit? rest with
    | some (path, ']' :: ']' :: rest) =>
      (openElement path p.root).map fun root => ({ root, path }, rest)
    | _ => none
  | '[' :: rest =>
    match keyInLimit? rest with
    | some (path, ']' :: rest) => (openTable path p.root).map fun root => ({ root, path }, rest)
    | _ => none
  | _ =>
    match keyValue (value (nestingLimit - 1)) cs with
    | none => none
    | some ((key, v), rest) =>
      (within .implied (addKey key v) p.path .header p.root).map fun root =>
        ({ p with root }, rest)

/-- Reads statements, each on a line of its own. -/
def statements (p : Progress) (cs : List Char) : Option Fields :=
  match skipLines cs with
  | [] => some p.root
  | start =>
    match statement p start with
    | none => none
    | some (p, rest) =>
      match skipComment rest with
      | [] => some p.root
      | rest =>
        match lineEnd? rest with
        | none => none
        | some more => if more.length < cs.length then statements p more else none
termination_by cs.length

/-- The fields of a document. A byte order mark in front of it is ignored. -/
def readChars : List Char → Option Fields
  | '\uFEFF' :: cs => statements {} cs
  | cs => statements {} cs

def read? (text : String) : Option Fields := readChars text.toList

end Chatline.Toml
