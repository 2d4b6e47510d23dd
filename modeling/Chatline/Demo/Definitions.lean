import Chatline.Demo.Basic

/-! The demo commands as definition files. They have the versions that the demo commands have when
they are made in code, and name the same handlers. -/
namespace Chatline.Demo

/-- A text with a line end after each of its lines. -/
def fileText (lines : List String) : String := String.join (lines.map (· ++ "\n"))

def chooseFile : String := fileText
  [ "# !choose pizza or tacos [or sushi ...]",
    "",
    "[[versions]]",
    "triggers = [\"choose\", \"pick\"]",
    "",
    "[[versions.arguments]]",
    "kind = \"argument\"",
    "name = \"option\"",
    "",
    "[[versions.arguments]]",
    "kind = \"literal\"",
    "word = \"or\"",
    "",
    "[[versions.arguments]]",
    "kind = \"argument\"",
    "name = \"option\"",
    "",
    "[[versions.arguments]]",
    "kind = \"group\"",
    "optional = true",
    "repeat = \x7b min = 1, max = 20 \x7d",
    "children = [",
    "    \x7b kind = \"literal\", word = \"or\" \x7d,",
    "    \x7b kind = \"argument\", name = \"option\" \x7d,",
    "]" ]

def echoFile : String := fileText
  [ "# !echo message",
    "",
    "[[versions]]",
    "triggers = [\"echo\", \"say\"]",
    "arguments = [",
    "    \x7b kind = \"argument\", name = \"message\", types = [\x7b type = \"text\", max_length = 400 \x7d] \x7d,",
    "]" ]

def rollFile : String := fileText
  [ "# !roll [count] d sides [+ bonus]",
    "# !roll sides",
    "",
    "handler = \"roll\"",
    "",
    "[[versions]]",
    "label = \"dice\"",
    "triggers = [\"roll\"]",
    "",
    "[[versions.arguments]]",
    "kind = \"argument\"",
    "name = \"count\"",
    "optional = true",
    "default = 1",
    "types = [\x7b type = \"integer\", min = 1, max = 100 \x7d]",
    "",
    "[[versions.arguments]]",
    "kind = \"literal\"",
    "word = \"d\"",
    "",
    "[[versions.arguments]]",
    "kind = \"argument\"",
    "name = \"sides\"",
    "types = [\x7b type = \"integer\", min = 2, max = 1000 \x7d]",
    "",
    "[[versions.arguments]]",
    "kind = \"group\"",
    "optional = true",
    "children = [",
    "    \x7b kind = \"literal\", word = \"+\" \x7d,",
    "    \x7b kind = \"argument\", name = \"bonus\", types = [\x7b type = \"integer\", min = -1000, max = 1000 \x7d] \x7d,",
    "]",
    "",
    "[[versions]]",
    "label = \"single\"",
    "triggers = [\"roll\"]",
    "arguments = [",
    "    \x7b kind = \"argument\", name = \"sides\", types = [\x7b type = \"integer\", min = 2, max = 1000 \x7d] \x7d,",
    "]" ]

/-- The definitions of the demo commands in a directory. -/
def definitions (dir : String) : FileTree :=
  FileTree.ofList
    [ (Path.join dir "choose.toml", .text chooseFile),
      (Path.join dir "echo.toml", .text echoFile),
      (Path.join dir "roll.toml", .text rollFile) ]

end Chatline.Demo
