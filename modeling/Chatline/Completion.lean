import Chatline.Text.Basic

/-! Completion of the first word of a line. The line editor gives the place of its cursor as a
number of bytes, and puts the text that comes with a word in the place of what was typed. -/
namespace Chatline.Completion

/-- The beginning of a text with so many bytes. -/
def takeBytes : Nat → List Char → List Char
  | _, [] => []
  | n, c :: cs => if c.utf8Size ≤ n then c :: takeBytes (n - c.utf8Size) cs else []

/-- The words that start with what stands before the cursor, each with the text that replaces
it. Nothing is offered after a blank. -/
def candidates (words : List String) (line : String) (pos : Nat) :
    Option (List (String × String)) :=
  let typed := String.ofList (takeBytes pos line.toList)
  if Text.hasBlank typed then none
  else some ((words.filter (Text.startsWith typed)).map fun w => (w, w ++ " "))

theorem takeBytes_zero (cs : List Char) : takeBytes 0 cs = [] := by
  cases cs with
  | nil => rfl
  | cons c cs =>
    have hpos := c.utf8Size_pos
    rw [takeBytes, if_neg (by omega)]

theorem takeBytes_append (cs rest : List Char) :
    takeBytes (String.ofList cs).utf8ByteSize (cs ++ rest) = cs := by
  induction cs with
  | nil => exact takeBytes_zero rest
  | cons c cs ih =>
    have hsize : (String.ofList (c :: cs)).utf8ByteSize =
        c.utf8Size + (String.ofList cs).utf8ByteSize := by
      rw [String.ofList_cons, String.utf8ByteSize_append, String.utf8ByteSize_singleton]
    rw [hsize, List.cons_append, takeBytes, if_pos (Nat.le_add_right _ _),
      Nat.add_sub_cancel_left, ih]

/-- With the cursor behind `typed`, what follows there does not matter. -/
theorem candidates_behind (words : List String) (typed rest : String) :
    candidates words (typed ++ rest) typed.utf8ByteSize =
      if Text.hasBlank typed then none
      else some ((words.filter (Text.startsWith typed)).map fun w => (w, w ++ " ")) := by
  have hbefore : takeBytes typed.utf8ByteSize (typed ++ rest).toList = typed.toList := by
    have happend := takeBytes_append typed.toList rest.toList
    rwa [String.ofList_toList, ← String.toList_append] at happend
  unfold candidates
  rw [hbefore, String.ofList_toList]

end Chatline.Completion
