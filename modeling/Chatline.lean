import Chatline.Demo.Definitions
import Chatline.Json
import Chatline.Main
import Chatline.Proofs.Grammar.Tree
import Chatline.Proofs.Scan.Moves
import Chatline.Proofs.Scan.Coherence
import Chatline.Proofs.Grammar.Derivation
import Chatline.Proofs.Grammar.Soundness
import Chatline.Proofs.Grammar.Nullable
import Chatline.Proofs.Dispatch
import Chatline.Proofs.Registry
import Chatline.Proofs.Grammar.Refusal
import Chatline.Proofs.Text.Words
import Chatline.Proofs.Draft.Vocabulary
import Chatline.Proofs.Console.CommandLines
import Chatline.Proofs.Demo.Definitions
import Chatline.Proofs.Console.Completions
import Chatline.Proofs.Console.Draws
import Chatline.Proofs.Scan.Absorption
import Chatline.Proofs.Demo.Options
import Chatline.Proofs.Grammar.Takeover
import Chatline.Proofs.Scan.OnePass
import Chatline.Proofs.Scan.StepCount
import Chatline.Proofs.Grammar.Gaps
import Chatline.Proofs.Grammar.Arrangement
import Chatline.Proofs.Grammar.Turns
import Chatline.Proofs.Grammar.Blocks
import Chatline.Proofs.Grammar.LooserBounds
import Chatline.Proofs.Scan.Straight
import Chatline.Proofs.Grammar.Nesting
import Chatline.Proofs.Grammar.OwnTokens
import Chatline.Proofs.Demo.Dice
import Chatline.Proofs.Draft.WellFormed
import Chatline.Proofs.Grammar.Defaults
import Chatline.Proofs.Demo.Rolls
import Chatline.Proofs.Console.Rolls
import Chatline.Proofs.Integers.Narrow
import Chatline.Proofs.CommandLine
import Chatline.Proofs.Directory
import Chatline.Proofs.Scan.WholeText
import Chatline.Proofs.Console.Listeners
import Chatline.Proofs.Console.Echo
import Chatline.Proofs.Text.Layout
import Chatline.Proofs.Args.Edits
import Chatline.Proofs.Scan.States
import Chatline.Proofs.Scan.Growth
