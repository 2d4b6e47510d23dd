import Chatline.Text.Basic
import Chatline.Toml.Basic
import Chatline.Value

/-! Numbers, dates and truth values of TOML. Each is a run of letters, digits and the signs
`_ + - . :`, and is read as a whole. -/
namespace Chatline.Toml

open Text (isDigit digitValue)

def isScalarChar (c : Char) : Bool :=
  isDigit c || ('a' ≤ c && c ≤ 'z') || ('A' ≤ c && c ≤ 'Z') || "_+-.:".toList.contains c

/-- The digits of a number, between two of which an underscore may stand. -/
def digits? (ok : Char → Bool) : List Char → Option (List Char)
  | [] => none
  | [c] => if ok c then some [c] else none
  | c :: '_' :: cs => if ok c then (digits? ok cs).map (c :: ·) else none
  | c :: cs => if ok c then (digits? ok cs).map (c :: ·) else none

/-- The digits of a decimal integer, which has no leading zero. -/
def wholePart? (cs : List Char) : Option (List Char) :=
  if cs.head? = some '0' && cs.length != 1 then none else digits? isDigit cs

def baseDigit (c : Char) : Nat :=
  if isDigit c then digitValue c
  else if 'a' ≤ c then c.toNat - 'a'.toNat + 10
  else c.toNat - 'A'.toNat + 10

def isBaseDigit (base : Nat) (c : Char) : Bool :=
  (isDigit c || ('a' ≤ c && c ≤ 'f') || ('A' ≤ c && c ≤ 'F')) && baseDigit c < base

def natOfBase (base : Nat) (ds : List Char) : Nat :=
  ds.foldl (fun n c => base * n + baseDigit c) 0

def splitSign : List Char → Bool × List Char
  | '-' :: cs => (true, cs)
  | '+' :: cs => (false, cs)
  | cs => (false, cs)

/-- An integer in decimal, or without a sign in base sixteen, eight or two. -/
def integer? (cs : List Char) : Option Int :=
  let inBase (base : Nat) (ds : List Char) : Option Int :=
    (digits? (isBaseDigit base) ds).map fun ds => (natOfBase base ds : Int)
  match cs with
  | '0' :: 'x' :: ds => inBase 16 ds
  | '0' :: 'o' :: ds => inBase 8 ds
  | '0' :: 'b' :: ds => inBase 2 ds
  | _ =>
    let (negative, ds) := splitSign cs
    (wholePart? ds).map fun ds =>
      if negative then -(Text.natOfDigits ds : Int) else (Text.natOfDigits ds : Int)

/-- The exponent after the letter `e`, zeros in front allowed. -/
def exponent? (cs : List Char) : Option Int :=
  let (negative, ds) := splitSign cs
  (digits? isDigit ds).map fun ds =>
    if negative then -(Text.natOfDigits ds : Int) else (Text.natOfDigits ds : Int)

/-- Whether `m * 10 ^ e` rounds to a finite double: it lies below the middle between the largest
double and the next power of two, which is a number of 309 digits. -/
def isFinite (m : Nat) (e : Int) : Bool :=
  let size : Int := (Nat.toDigits 10 m).length + e
  let bound := Nat.pow 2 1024 - Nat.pow 2 970
  if m = 0 || size < 309 then true
  else if 309 < size then false
  else m * Nat.pow 10 e.toNat < bound * Nat.pow 10 (-e).toNat

/-- Whether a run is a float. One that overflows upward is none. -/
def isFloat (cs : List Char) : Bool :=
  let (negative, body) := splitSign cs
  if body = "inf".toList || body = "nan".toList then true
  else
    let isExp (c : Char) : Bool := c = 'e' || c = 'E'
    let mantissa := body.takeWhile fun c => !isExp c
    let exponent := (body.dropWhile fun c => !isExp c).drop 1
    let hasExp := body.any isExp
    let whole := mantissa.takeWhile (· != '.')
    let fraction := (mantissa.dropWhile (· != '.')).drop 1
    let hasPoint := mantissa.contains '.'
    let exp := if hasExp then exponent? exponent else some 0
    let frac := if hasPoint then digits? isDigit fraction else some []
    match wholePart? whole, frac, exp with
    | some w, some f, some e =>
      (hasExp || hasPoint) &&
        (negative || isFinite (Text.natOfDigits (w ++ f)) (e - f.length))
    | _, _, _ => false

def two? (a b : Char) : Option Nat :=
  if isDigit a && isDigit b then some (10 * digitValue a + digitValue b) else none

def isLeap (year : Nat) : Bool := year % 4 = 0 && (year % 100 != 0 || year % 400 = 0)

def daysIn (year month : Nat) : Nat :=
  if month = 2 then (if isLeap year then 29 else 28)
  else if month = 4 || month = 6 || month = 9 || month = 11 then 30
  else 31

def date? : List Char → Option (List Char)
  | a :: b :: c :: d :: '-' :: e :: f :: '-' :: g :: h :: rest =>
    match two? a b, two? c d, two? e f, two? g h with
    | some century, some year, some month, some day =>
      if 1 ≤ month && month ≤ 12 && 1 ≤ day && day ≤ daysIn (100 * century + year) month then
        some rest
      else none
    | _, _, _, _ => none
  | _ => none

/-- Takes a time of day, with seconds up to the leap second and any fraction of a second. -/
def time? : List Char → Option (List Char)
  | a :: b :: ':' :: c :: d :: ':' :: e :: f :: rest =>
    match two? a b, two? c d, two? e f with
    | some hour, some minute, some second =>
      if hour ≤ 23 && minute ≤ 59 && second ≤ 60 then
        match rest with
        | '.' :: more =>
          if (more.takeWhile isDigit).isEmpty then none else some (more.dropWhile isDigit)
        | _ => some rest
      else none
    | _, _, _ => none
  | _ => none

/-- Whether a run is a time of day and, if it has one, the offset after it. -/
def isTimeWithOffset (cs : List Char) : Bool :=
  match time? cs with
  | none => false
  | some [] => true
  | some [c] => c = 'Z' || c = 'z'
  | some [s, a, b, ':', c, d] =>
    match two? a b, two? c d with
    | some hour, some minute => (s = '+' || s = '-') && hour ≤ 23 && minute ≤ 59
    | _, _ => false
  | _ => false

def isMoment (cs : List Char) : Bool :=
  match date? cs with
  | some [] => true
  | some (c :: rest) => (c = 'T' || c = 't') && isTimeWithOffset rest
  | none => time? cs = some []

/-- Reads a number, a date or a truth value. A date and a time may have a space between them. -/
def scalar? (cs : List Char) : Option (Toml × List Char) :=
  let run := cs.takeWhile isScalarChar
  let rest := cs.dropWhile isScalarChar
  if run = "true".toList then some (boolean true, rest)
  else if run = "false".toList then some (boolean false, rest)
  else if date? run = some [] then
    match rest with
    | ' ' :: more =>
      if isTimeWithOffset (more.takeWhile isScalarChar) then
        some (moment, more.dropWhile isScalarChar)
      else some (moment, rest)
    | _ => some (moment, rest)
  else if isMoment run then some (moment, rest)
  else if isFloat run then some (float, rest)
  else
    match (integer? run).bind int64? with
    | some n => some (integer n, rest)
    | none => none

end Chatline.Toml
