/-! Texts: their blanks and words, what follows a known beginning, their lines, and the decimal
integers that they spell. A word is a maximal run of characters that are not blank, so words are
never empty and the blanks between them do not matter. -/
namespace Chatline.Text

/-- The characters with the Unicode property White_Space. -/
def isBlank (c : Char) : Bool :=
  let n := c.toNat
  (0x9 ≤ n && n ≤ 0xD) || n == 0x20 || n == 0x85 || n == 0xA0 || n == 0x1680 ||
    (0x2000 ≤ n && n ≤ 0x200A) || n == 0x2028 || n == 0x2029 || n == 0x202F ||
    n == 0x205F || n == 0x3000

/-- Puts a finished run in front of the words after it; an empty run is no word. -/
def closeRun (run : List Char) (words : List (List Char)) : List (List Char) :=
  if run.isEmpty then words else run :: words

/-- The run of characters that are not blank at the start, and the words after that run. -/
def leadingRun : List Char → List Char × List (List Char)
  | [] => ([], [])
  | c :: cs =>
    let (run, words) := leadingRun cs
    if isBlank c then ([], closeRun run words) else (c :: run, words)

def wordRuns (cs : List Char) : List (List Char) :=
  closeRun (leadingRun cs).1 (leadingRun cs).2

def words (s : String) : List String :=
  (wordRuns s.toList).map String.ofList

/-- The text of a span of words: one space between neighbours. -/
def spaced (ws : List String) : String := " ".intercalate ws

/-- A text without the blanks at its two ends. -/
def trim (s : String) : String :=
  String.ofList ((s.toList.dropWhile isBlank).reverse.dropWhile isBlank).reverse

def allBlank (s : String) : Bool := s.toList.all isBlank

def hasBlank (s : String) : Bool := s.toList.any isBlank

/-- What follows `lead` in a list that starts with it. -/
def after? : List Char → List Char → Option (List Char)
  | [], cs => some cs
  | _ :: _, [] => none
  | a :: lead, c :: cs => if a = c then after? lead cs else none

def cutStart? (lead s : String) : Option String :=
  (after? lead.toList s.toList).map String.ofList

def startsWith (lead s : String) : Bool := (after? lead.toList s.toList).isSome

/-- Equality of texts when the letters A to Z count as a to z and nothing else is folded. -/
def sameLetters (a b : String) : Bool := a.toList.map Char.toLower == b.toList.map Char.toLower

/-- What stands before the first such character, and what stands between and after them. -/
def piecesAt (sep : Char) : List Char → List Char × List (List Char)
  | [] => ([], [])
  | c :: cs =>
    let (piece, others) := piecesAt sep cs
    if c = sep then ([], piece :: others) else (c :: piece, others)

/-- The first line, and what stands on the lines after it. A line feed ends a line, and so does
a carriage return with a line feed after it. -/
def lineRuns : List Char → List Char × List (List Char)
  | [] => ([], [])
  | '\n' :: cs => ([], (lineRuns cs).1 :: (lineRuns cs).2)
  | '\r' :: '\n' :: cs => ([], (lineRuns cs).1 :: (lineRuns cs).2)
  | c :: cs => (c :: (lineRuns cs).1, (lineRuns cs).2)

/-- The lines of a text. What follows the last line end is a line only if it is not empty. -/
def lines (s : String) : List String :=
  let (first, others) := lineRuns s.toList
  let runs := first :: others
  (if runs.getLast? = some [] then runs.dropLast else runs).map String.ofList

theorem after?_append (lead rest : List Char) : after? lead (lead ++ rest) = some rest := by
  induction lead with
  | nil => rfl
  | cons a lead ih => simp [after?, ih]

theorem eq_append_of_after? {lead cs rest : List Char} (h : after? lead cs = some rest) :
    cs = lead ++ rest := by
  fun_induction after? lead cs with
  | case1 cs => simpa using h
  | case2 => simp at h
  | case3 a lead cs ih => simp [ih h]
  | case4 => simp at h

def isDigit (c : Char) : Bool := '0' ≤ c && c ≤ '9'

def digitValue (c : Char) : Nat := c.toNat - '0'.toNat

/-- The number written by a list of digits, the first one leading. -/
def natOfDigits (ds : List Char) : Nat := ds.foldl (fun n c => 10 * n + digitValue c) 0

def readNat? (cs : List Char) : Option Nat :=
  if !cs.isEmpty && cs.all isDigit then some (natOfDigits cs) else none

/-- Reads an optional minus sign and one or more ASCII digits. Leading zeros and minus zero are
allowed, a plus sign is not. -/
def readInt? : List Char → Option Int
  | '-' :: cs => (readNat? cs).map fun n => -(n : Int)
  | cs => (readNat? cs).map fun n => (n : Int)

def signed (n : Int) : String := if 0 ≤ n then "+" ++ toString n else toString n

end Chatline.Text
