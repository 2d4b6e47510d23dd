import Chatline.Random
import Chatline.Source

/-! The demo commands: a choice between options, dice, and an echo. -/
namespace Chatline.Demo

def maxExtraOptions : UInt32 := 20

def maxDice : Int64 := 100

/-- The longest message that is echoed, in characters. -/
def maxEchoLength : Nat := 400

variable {σ : Type}

/-- Picks one of the texts under `option`. Without options nothing is drawn. -/
def choose (index : Nat → σ → Nat × σ) (args : Args) (st : σ) : Option String × σ :=
  let options := args.texts "option"
  if options.isEmpty then (none, st)
  else
    let (i, st) := index options.length st
    (options[i]?.map ("I choose " ++ ·), st)

def throwDice (die : Nat → σ → Nat × σ) (sides : Nat) : Nat → σ → List Nat × σ
  | 0, st => ([], st)
  | n + 1, st =>
    let (v, st) := die sides st
    let (vs, st) := throwDice die sides n st
    (v :: vs, st)

/-- The dice of a roll, the numbers thrown, and their sum with the bonus. -/
def rollText (count sides bonus : Int) (throws : List Nat) (total : Int) : String :=
  let dice := toString count ++ "d" ++ toString sides
  let list := "[" ++ ", ".intercalate (throws.map toString) ++ "]"
  if bonus = 0 then dice ++ ": " ++ list ++ " = " ++ toString total
  else
    dice ++ Text.signed bonus ++ ": " ++ list ++ " " ++ Text.signed bonus ++ " = " ++ toString total

/-- Adds throws to a bonus one after the other, as long as the sum fits 64 bits. -/
def sumFrom (bonus : Int64) (throws : List Nat) : Option Int64 :=
  throws.foldlM (fun total (v : Nat) => int64? (total.toInt + v)) bonus

/-- Throws `count` dice with `sides` sides and adds a bonus. A roll without sides or with too few
or too many dice draws nothing; a sum that does not fit 64 bits gives no reply. -/
def roll (die : Nat → σ → Nat × σ) (args : Args) (st : σ) : Option String × σ :=
  match args.int? "sides" with
  | none => (none, st)
  | some sides =>
    let count := (args.int? "count").getD 1
    let bonus := (args.int? "bonus").getD 0
    if sides < 1 ∨ count < 1 ∨ maxDice < count then (none, st)
    else
      let (throws, st) := throwDice die sides.toInt.toNat count.toInt.toNat st
      let total := sumFrom bonus throws
      (total.map fun total => rollText count.toInt sides.toInt bonus.toInt throws total.toInt, st)

def echo (args : Args) (ctx : Context) : Option String :=
  (args.text? "message").map fun message =>
    match ctx.author with
    | some author => author ++ " says: " ++ message
    | none => message

def handlers : Handlers Generator :=
  NameMap.ofList
    [ ("choose", fun args _ g => choose Generator.index args g),
      ("roll", fun args _ g => roll Generator.die args g),
      ("echo", fun args ctx g => (echo args ctx, g)) ]

/-- The additional options: the word `or` and an option, again and again. -/
def moreOptions : Node :=
  .group
    { optional := true
      repetition := some
        { min := 1
          max := maxExtraOptions.toNat
          max_pos := by decide
          min_le_max := by decide
          max_lt := by decide } }
    [.leaf (.word "or"), .leaf (.text "option")]

/-- Options with the word `or` between them. -/
def options : Group :=
  { children := [.leaf (.text "option"), .leaf (.word "or"), .leaf (.text "option"), moreOptions] }

def sides : Node := .leaf (.ofMatcher "sides" (.integer 2 1000))

/-- A number of dice, the letter `d`, the sides, and a bonus. -/
def dice : Group :=
  { children :=
      [ .leaf
          { Leaf.ofMatcher "count" (.integer 1 maxDice) with
            optional := true
            fallback := some (.int 1) },
        .leaf (.word "d"),
        sides,
        .group { optional := true }
          [.leaf (.word "+"), .leaf (.ofMatcher "bonus" (.integer (-1000) 1000))] ] }

def singleDie : Group := { children := [sides] }

def message : Group :=
  { children := [.leaf (.ofMatcher "message" (.text (some maxEchoLength)))] }

def chooseVersions (lead : String) : List Version :=
  [{ label := "choose", lead, triggers := ["choose", "pick"], root := options }]

def rollVersions (lead : String) : List Version :=
  [ { label := "dice", lead, triggers := ["roll"], root := dice },
    { label := "single", lead, triggers := ["roll"], root := singleDie } ]

def echoVersions (lead : String) : List Version :=
  [{ label := "echo", lead, triggers := ["echo", "say"], root := message }]

/-- A command with the versions given and the demo handler of its name. -/
def command (id : String) (versions : List Version) : Except Error (Command Generator) :=
  match handlers.get? id with
  | some handler => .ok { name := id, versions, handler }
  | none => .error (.unknownCommand id)

def source (lead : String) : Source Generator :=
  .listed (NameMap.ofList
    [ ("choose", command "choose" (chooseVersions lead)),
      ("echo", command "echo" (echoVersions lead)),
      ("roll", command "roll" (rollVersions lead)) ])

end Chatline.Demo
