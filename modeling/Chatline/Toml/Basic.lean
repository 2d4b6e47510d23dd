/-! Values of TOML 1.0 documents. What no definition can use is kept without its content:
floats and dates. -/
namespace Chatline

/-- How a table came to be: in braces, by a header of its own, on the way to the table of a header,
or on the way to a dotted key. It decides which later lines may still add to the table. -/
inductive Toml.Origin where
  | inline
  | header
  | implied
  | dotted
deriving DecidableEq

/-- The items of `array` stand in brackets; each of `tables` has a header in double brackets. -/
inductive Toml where
  | string (s : String)
  | integer (n : Int64)
  | float
  | boolean (b : Bool)
  | moment
  | array (items : List Toml)
  | tables (items : List Toml)
  | table (origin : Toml.Origin) (fields : List (String × Toml))

namespace Toml

abbrev Fields := List (String × Toml)

/-- A reader takes a value from the start of a text, and leaves the rest. -/
abbrev Reader (α : Type) := List Char → Option (α × List Char)

def isSpace (c : Char) : Bool := c = ' ' || c = '\t'

/-- Control characters, which no comment and no string may hold. A tab is none. -/
def isControl (c : Char) : Bool := (c.toNat < 0x20 && c != '\t') || c.toNat = 0x7F

def skipSpaces (cs : List Char) : List Char := cs.dropWhile isSpace

def lineEnd? : List Char → Option (List Char)
  | '\n' :: cs => some cs
  | '\r' :: '\n' :: cs => some cs
  | _ => none

def skipComment (cs : List Char) : List Char :=
  match skipSpaces cs with
  | '#' :: rest => rest.dropWhile fun c => !isControl c
  | rest => rest

def skipLines (cs : List Char) : List Char :=
  match lineEnd? (skipComment cs) with
  | some rest => if rest.length < cs.length then skipLines rest else rest
  | none => skipComment cs
termination_by cs.length

/-- Reads items between commas up to the closing character. `gap` is skipped around the items.
A comma may stand after the last item if `trailing` says so. -/
def sequence {α : Type} (item : Reader α) (gap : List Char → List Char) (close : Char)
    (trailing first : Bool) (cs : List Char) : Option (List α × List Char) :=
  match gap cs with
  | [] => none
  | c :: rest =>
    if c = close then
      if first || trailing then some ([], rest) else none
    else
      match item (c :: rest) with
      | none => none
      | some (a, rest) =>
        match gap rest with
        | [] => none
        | d :: more =>
          if d = close then some ([a], more)
          else if d = ',' then
            if more.length < cs.length then
              (sequence item gap close trailing false more).map fun r => (a :: r.1, r.2)
            else none
          else none
termination_by cs.length

end Toml
end Chatline
