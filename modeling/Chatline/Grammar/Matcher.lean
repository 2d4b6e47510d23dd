import Chatline.Error
import Chatline.Text.Basic
import Chatline.Verdict

/-! Matchers of a single span: bounded integers, texts and choices. -/
namespace Chatline

inductive Matcher where
  /-- A decimal integer within inclusive bounds. -/
  | integer (min max : Int64)
  /-- Any text that is not empty, with at most so many characters. -/
  | text (limit : Option Nat)
  /-- One of the words, in any ASCII case; its value is the word as listed. -/
  | choice (options : List String)
deriving DecidableEq

namespace Matcher

def anyInteger : Matcher := integer Int64.minValue Int64.maxValue

def anyText : Matcher := text none

def integer? (min max : Int64) : Except Fault Matcher :=
  if max < min then .error (.boundsReversed min max) else .ok (integer min max)

/-- Whether an option can be a whole token. -/
def isWord (option : String) : Bool := !Text.allBlank option && !Text.hasBlank option

def choice? (options : List String) : Except Fault Matcher :=
  if options.isEmpty then .error .noOptions
  else if options.all isWord then .ok (choice options)
  else .error .optionNotWord

def kind : Matcher → Kind
  | integer .. => .integer
  | text _ => .text
  | choice _ => .choice

/-- Whether a span of several tokens can match. -/
def isGreedy : Matcher → Bool
  | text _ => true
  | _ => false

def readInteger (min max : Int64) (span : String) : Verdict Cause Value :=
  match Text.readInt? span.toList with
  | none => .noMatch
  | some v =>
    match int64? v with
    | none => .invalid (.tooWide span min max)
    | some n =>
      if min ≤ n ∧ n ≤ max then .matched (.int n) else .invalid (.outOfBounds n min max)

def readText (limit : Option Nat) (span : String) : Verdict Cause Value :=
  if span.isEmpty then .noMatch
  else
    match limit with
    | none => .matched (.text span)
    | some limit =>
      if limit < span.length then .invalid (.tooLong span.length limit) else .matched (.text span)

def readChoice (options : List String) (span : String) : Verdict Cause Value :=
  match options.find? fun option => Text.sameLetters option span with
  | some option => .matched (.text option)
  | none => .noMatch

/-- Reads a span, the tokens of which are joined by single spaces. -/
def read : Matcher → String → Verdict Cause Value
  | integer min max => readInteger min max
  | text limit => readText limit
  | choice options => readChoice options

end Matcher
end Chatline
