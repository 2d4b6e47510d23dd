import Chatline.Toml.Basic
import Chatline.Text.Basic

/-! Strings and keys of TOML. The body of a string is what stands after its opening quotes; a
literal string has no escapes. -/
namespace Chatline.Toml

def hexValue? (c : Char) : Option Nat :=
  if Text.isDigit c then some (Text.digitValue c)
  else if 'a' ≤ c && c ≤ 'f' then some (c.toNat - 'a'.toNat + 10)
  else if 'A' ≤ c && c ≤ 'F' then some (c.toNat - 'A'.toNat + 10)
  else none

/-- The character with the code point written by hexadecimal digits, unless it is a surrogate or
too large. -/
def codePoint? (ds : List Char) : Option Char :=
  match ds.mapM hexValue? with
  | none => none
  | some vs =>
    let n := vs.foldl (fun n v => 16 * n + v) 0
    if n < 0xD800 || (0xDFFF < n && n < 0x110000) then some (Char.ofNat n) else none

def escape? : Char → Option Char
  | 'b' => some '\x08'
  | 't' => some '\t'
  | 'n' => some '\n'
  | 'f' => some '\x0c'
  | 'r' => some '\r'
  | '"' => some '"'
  | '\\' => some '\\'
  | _ => none

def push (c : Char) (r : Option (List Char × List Char)) : Option (List Char × List Char) :=
  r.map fun p => (c :: p.1, p.2)

/-- Puts an escaped character in front of what was read, if there is such a character. -/
def pushEscape (c : Option Char) (r : Option (List Char × List Char)) :
    Option (List Char × List Char) :=
  match c with
  | some c => push c r
  | none => none

def basicBody : Reader (List Char)
  | '"' :: rest => some ([], rest)
  | '\\' :: 'u' :: a :: b :: c :: d :: rest => pushEscape (codePoint? [a, b, c, d]) (basicBody rest)
  | '\\' :: 'U' :: a :: b :: c :: d :: e :: f :: g :: h :: rest =>
    pushEscape (codePoint? [a, b, c, d, e, f, g, h]) (basicBody rest)
  | '\\' :: e :: rest => pushEscape (escape? e) (basicBody rest)
  | c :: rest => if isControl c then none else push c (basicBody rest)
  | [] => none

def literalBody : Reader (List Char)
  | '\'' :: rest => some ([], rest)
  | c :: rest => if isControl c then none else push c (literalBody rest)
  | [] => none

/-- Where a string of several lines stands: in its text, after a backslash that has to end its line,
or after that line and before the next character that is no blank. -/
inductive Margin where
  | text
  | lineBreak
  | indent
deriving DecidableEq

/-- Reads a string of several lines after its opening quotes. One or two quotes may stand in the
text, also right before the closing three. A backslash at the end of a line takes away the line
end and every blank after it. -/
def multiBody (m : Margin) : Reader (List Char)
  | [] => none
  | '\n' :: rest => if m = .text then push '\n' (multiBody .text rest) else multiBody .indent rest
  | '\r' :: '\n' :: rest =>
    if m = .text then push '\n' (multiBody .text rest) else multiBody .indent rest
  | '"' :: '"' :: '"' :: '"' :: '"' :: rest =>
    if m = .lineBreak then none else some (['"', '"'], rest)
  | '"' :: '"' :: '"' :: '"' :: rest => if m = .lineBreak then none else some (['"'], rest)
  | '"' :: '"' :: '"' :: rest => if m = .lineBreak then none else some ([], rest)
  | '\\' :: '\n' :: rest => if m = .lineBreak then none else multiBody .indent rest
  | '\\' :: '\r' :: '\n' :: rest => if m = .lineBreak then none else multiBody .indent rest
  | '\\' :: 'u' :: a :: b :: c :: d :: rest =>
    if m = .lineBreak then none
    else pushEscape (codePoint? [a, b, c, d]) (multiBody .text rest)
  | '\\' :: 'U' :: a :: b :: c :: d :: e :: f :: g :: h :: rest =>
    if m = .lineBreak then none
    else pushEscape (codePoint? [a, b, c, d, e, f, g, h]) (multiBody .text rest)
  | '\\' :: e :: rest =>
    if m = .lineBreak then none
    else if isSpace e then multiBody .lineBreak rest
    else pushEscape (escape? e) (multiBody .text rest)
  | c :: rest =>
    if isSpace c && m != .text then multiBody m rest
    else if isControl c || m = .lineBreak then none
    else push c (multiBody .text rest)

def multiLiteralBody : Reader (List Char)
  | [] => none
  | '\n' :: rest => push '\n' (multiLiteralBody rest)
  | '\r' :: '\n' :: rest => push '\n' (multiLiteralBody rest)
  | '\'' :: '\'' :: '\'' :: '\'' :: '\'' :: rest => some (['\'', '\''], rest)
  | '\'' :: '\'' :: '\'' :: '\'' :: rest => some (['\''], rest)
  | '\'' :: '\'' :: '\'' :: rest => some ([], rest)
  | c :: rest => if isControl c then none else push c (multiLiteralBody rest)

/-- A line end right after the opening quotes is no part of the string. -/
def dropLineEnd (cs : List Char) : List Char := (lineEnd? cs).getD cs

def string? (cs : List Char) : Option (String × List Char) :=
  let body := match cs with
    | '"' :: '"' :: '"' :: rest => multiBody .text (dropLineEnd rest)
    | '\'' :: '\'' :: '\'' :: rest => multiLiteralBody (dropLineEnd rest)
    | '"' :: rest => basicBody rest
    | '\'' :: rest => literalBody rest
    | _ => none
  body.map fun r => (String.ofList r.1, r.2)

def isKeyChar (c : Char) : Bool :=
  Text.isDigit c || ('a' ≤ c && c ≤ 'z') || ('A' ≤ c && c ≤ 'Z') || c = '_' || c = '-'

/-- Reads one part of a key: bare, or a string of one line. -/
def keyPart? (cs : List Char) : Option (String × List Char) :=
  let body := match cs with
    | '"' :: rest => basicBody rest
    | '\'' :: rest => literalBody rest
    | _ =>
      let bare := cs.takeWhile isKeyChar
      if bare.isEmpty then none else some (bare, cs.dropWhile isKeyChar)
  body.map fun r => (String.ofList r.1, r.2)

/-- Reads a key, the parts of which stand between points, and the spaces around it. -/
def key? (cs : List Char) : Option (List String × List Char) :=
  match keyPart? (skipSpaces cs) with
  | none => none
  | some (k, rest) =>
    match skipSpaces rest with
    | '.' :: more =>
      if more.length < cs.length then (key? more).map fun r => (k :: r.1, r.2) else none
    | rest => some ([k], rest)
termination_by cs.length

end Chatline.Toml
