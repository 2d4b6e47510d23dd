import Chatline.Value

/-! Values and kinds as JSON. A number that is written as a float is never an integer. -/
namespace Chatline

inductive Json where
  | null
  | bool (b : Bool)
  | integer (n : Int)
  | float
  | string (s : String)
  | array (items : List Json)
  | object (fields : List (String × Json))
deriving Inhabited

namespace Json

/-- A character inside a JSON string. -/
def escapedChar (c : Char) : List Char :=
  if c = '"' then ['\\', '"']
  else if c = '\\' then ['\\', '\\']
  else if c = '\n' then ['\\', 'n']
  else if c = '\r' then ['\\', 'r']
  else if c = '\t' then ['\\', 't']
  else if c = '\x08' then ['\\', 'b']
  else if c = '\x0c' then ['\\', 'f']
  else if c.toNat < 0x20 then
    ['\\', 'u', '0', '0', Nat.digitChar (c.toNat / 16), Nat.digitChar (c.toNat % 16)]
  else [c]

def stringText (s : String) : String :=
  String.ofList ('"' :: s.toList.flatMap escapedChar ++ ['"'])

end Json

/-- The value as JSON text. -/
def Value.jsonText : Value → String
  | .text s => Json.stringText s
  | v => v.plain

def Value.ofJson? : Json → Option Value
  | .bool b => some (.bool b)
  | .integer n => (int64? n).map .int
  | .string s => some (.text s)
  | _ => none

/-- A kind is written as its name, or as an object whose one field has that name and is null. -/
def Kind.ofJson? : Json → Option Kind
  | .string s => ofName? s
  | .object [(s, .null)] => ofName? s
  | _ => none

end Chatline
