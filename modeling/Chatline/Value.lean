import Chatline.Text.Quoted

/-! Values that matchers read, and the kinds of matcher that read them. -/
namespace Chatline

/-- The 64-bit integer with this value, if there is one. -/
def int64? (n : Int) : Option Int64 :=
  if Int64.minValue.toInt ≤ n ∧ n ≤ Int64.maxValue.toInt then some (Int64.ofInt n) else none

/-- A truth value, a 64-bit integer or a text. -/
inductive Value where
  | bool (b : Bool)
  | int (n : Int64)
  | text (s : String)
deriving DecidableEq

namespace Value

def bool? : Value → Option Bool
  | bool b => some b
  | _ => none

def int? : Value → Option Int64
  | int n => some n
  | _ => none

def text? : Value → Option String
  | text s => some s
  | _ => none

/-- The value in plain text. -/
def plain : Value → String
  | bool b => if b then "true" else "false"
  | int n => toString n.toInt
  | text s => s

/-- The value in plain text, a text in its quoted form. -/
def shown : Value → String
  | text s => Text.quoted s
  | v => v.plain

end Value

/-- The kinds of matcher. -/
inductive Kind where
  | literal
  | integer
  | text
  | choice
deriving DecidableEq

namespace Kind

def name : Kind → String
  | literal => "literal"
  | integer => "integer"
  | text => "text"
  | choice => "choice"

def all : List Kind := [literal, integer, text, choice]

def ofName? (s : String) : Option Kind := all.find? fun k => k.name = s

end Kind

/-- A value together with the kind of matcher that read it. -/
structure Reading where
  value : Value
  kind : Kind
deriving DecidableEq

end Chatline
