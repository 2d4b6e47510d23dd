import Chatline.Value

/-! The three answers of a matcher, and why a span that was meant for a leaf is wrong. `noMatch` is
silent: the caller skips or tries what comes next. `invalid` says that the input was meant for this
place and is wrong, and nothing else is tried for it. The failure it comes with is no error of the
program: it matters only if nothing else accepts the message. -/
namespace Chatline

inductive Verdict (ε α : Type) where
  | matched (a : α)
  | noMatch
  | invalid (e : ε)
deriving DecidableEq

namespace Verdict

variable {ε ε' α β : Type}

def isMatched : Verdict ε α → Bool
  | matched _ => true
  | _ => false

def isNoMatch : Verdict ε α → Bool
  | noMatch => true
  | _ => false

def matched? : Verdict ε α → Option α
  | matched a => some a
  | _ => none

def invalid? : Verdict ε α → Option ε
  | invalid e => some e
  | _ => none

def map (f : α → β) : Verdict ε α → Verdict ε β
  | matched a => matched (f a)
  | noMatch => noMatch
  | invalid e => invalid e

/-- Goes on with `f` after a match; the other two answers stay. -/
def bind (v : Verdict ε α) (f : α → Verdict ε β) : Verdict ε β :=
  match v with
  | matched a => f a
  | noMatch => noMatch
  | invalid e => invalid e

def mapInvalid (f : ε → ε') : Verdict ε α → Verdict ε' α
  | matched a => matched a
  | noMatch => noMatch
  | invalid e => invalid (f e)

/-- The first match of two; if neither matches, the first `invalid`. -/
def orElse (v w : Verdict ε α) : Verdict ε α :=
  match v, w with
  | matched a, _ => matched a
  | noMatch, w => w
  | invalid _, matched b => matched b
  | invalid e, _ => invalid e

end Verdict

/-- The reason why a matcher refuses a span of its own kind. Digits that do not fit 64 bits are kept
as they were typed. -/
inductive Cause where
  | outOfBounds (n min max : Int64)
  | tooWide (span : String) (min max : Int64)
  | tooLong (length limit : Nat)
  | other (reason : String)
deriving DecidableEq

namespace Cause

def range (min max : Int64) : String :=
  toString min.toInt ++ "..=" ++ toString max.toInt

def message : Cause → String
  | outOfBounds n min max => toString n.toInt ++ " is not within " ++ range min max
  | tooWide span min max => span ++ " is not within " ++ range min max
  | tooLong length limit =>
    "text is " ++ toString length ++ " characters long, the limit is " ++ toString limit
  | other reason => reason

end Cause

/-- A refused span: the leaf, the kind of matcher that refused it, why, and the version of the
command once that is known. -/
structure Failure where
  argument : String
  kind : Kind
  cause : Cause
  version : Option String := none
deriving DecidableEq

namespace Failure

def message (f : Failure) : String := f.cause.message

def withVersion (f : Failure) (label : String) : Failure := { f with version := some label }

def text (f : Failure) : String :=
  let place := match f.version with
    | some label => "[" ++ label ++ "] "
    | none => ""
  place ++ f.argument ++ " (" ++ f.kind.name ++ "): " ++ f.message

end Failure

end Chatline
