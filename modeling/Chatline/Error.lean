import Chatline.Text.Quoted

/-! What can go wrong outside the matching of messages: definitions, the set of loaded commands,
files, the configuration and the line editor. Each error is a cause; its wording is a function
of the cause. -/
namespace Chatline

/-- Why a text is not the text of a definition. -/
inductive Misread where
  | missingField (name : String)
  | unknownVariant (found : String) (expected : List String)
  | malformed
deriving DecidableEq

def Misread.message : Misread → String
  | missingField name => "missing field `" ++ name ++ "`"
  | unknownVariant found expected =>
    "unknown variant `" ++ found ++ "`, expected one of " ++
      ", ".intercalate (expected.map fun e => "`" ++ e ++ "`")
  | malformed => "the text is no definition"

/-- What is wrong with a definition. -/
inductive Fault where
  | boundsReversed (min max : Int64)
  | noOptions
  | optionNotWord
  | noMatchers (argument : String)
  | neverRepeated
  | repetitionReversed (min max : UInt32)
  | noTriggers
  | blankTrigger (trigger : String)
  | literalNotWord (word : String)
  | noHandler (name : String)
  | noVersions
  | misread (why : Misread)
  | other (reason : String)
deriving DecidableEq

def Fault.message : Fault → String
  | boundsReversed min max =>
    "integer bounds are reversed: " ++ toString min.toInt ++ " > " ++ toString max.toInt
  | noOptions => "choice needs at least one option"
  | optionNotWord => "choice options must be single non-empty words"
  | noMatchers argument => "argument " ++ argument ++ " has no type matchers"
  | neverRepeated => "repeat max must be at least 1"
  | repetitionReversed min max =>
    "repeat min " ++ toString min.toNat ++ " exceeds max " ++ toString max.toNat
  | noTriggers => "command version has no triggers"
  | blankTrigger trigger => "command version has a blank trigger " ++ Text.quoted trigger
  | literalNotWord word => "literal " ++ Text.quoted word ++ " must be a single word"
  | noHandler name => "no handler named " ++ Text.quoted name
  | noVersions => "command has no versions"
  | misread why => why.message
  | other reason => reason

/-- Why a file or directory cannot be read. -/
inductive IoFault where
  | notFound
  | notADirectory
  | isADirectory
  | notUtf8
  | nulInPath
  | nameTooLong
  | other (reason : String)
deriving DecidableEq

def IoFault.message : IoFault → String
  | notFound => "No such file or directory (os error 2)"
  | notADirectory => "Not a directory (os error 20)"
  | isADirectory => "Is a directory (os error 21)"
  | notUtf8 => "stream did not contain valid UTF-8"
  | nulInPath => "file name contained an unexpected NUL byte"
  | nameTooLong => "File name too long (os error 36)"
  | other reason => reason

/-- What is wrong with a configuration, or with what it names. -/
inductive ConfigFault where
  | blankLead
  | leadHasBlank
  | batchWithoutFiles
  | missingValue (option : String)
  | badSeed (raw : String)
  | unknownOption (option : String)
  | unreadable (path : String) (why : IoFault)
  | badLogFilter (filter : String)
  | other (reason : String)
deriving DecidableEq

def ConfigFault.message : ConfigFault → String
  | blankLead => "prefix must not be blank"
  | leadHasBlank => "prefix must not contain whitespace"
  | batchWithoutFiles => "--batch needs at least one message file"
  | missingValue option => option ++ " requires a value"
  | badSeed raw => "invalid --seed value: " ++ raw
  | unknownOption option => "unknown option: " ++ option
  | unreadable path why => "failed to read " ++ path ++ ": " ++ why.message
  | badLogFilter filter =>
    "invalid log filter " ++ Text.quoted filter ++ ": error parsing level filter: expected one of " ++
      "\"off\", \"error\", \"warn\", \"info\", \"debug\", \"trace\", or a number 0-5"
  | other reason => reason

/-- What is wrong with a definition file. -/
inductive FileFault where
  | definition (fault : Fault)
  | other (reason : String)
deriving DecidableEq

def Fault.text (f : Fault) : String := "invalid definition: " ++ f.message

def FileFault.message : FileFault → String
  | definition fault => fault.text
  | other reason => reason

inductive Problem where
  | invalidDefinition (fault : Fault)
  | unknownCommand (id : String)
  | duplicateCommand (id : String)
  | definitionFile (path : String) (fault : FileFault)
  | io (fault : IoFault)
  | config (fault : ConfigFault)
  | editor (reason : String)
deriving DecidableEq

/-- The problem in words. -/
def Problem.text : Problem → String
  | invalidDefinition fault => fault.text
  | unknownCommand id => "unknown command: " ++ id
  | duplicateCommand id => "duplicate command: " ++ id
  | definitionFile path fault => "definition file " ++ path ++ ": " ++ fault.message
  | io fault => "io error: " ++ fault.message
  | config fault => "config error: " ++ fault.message
  | editor reason => "editor error: " ++ reason

/-- Where in a definition an error arose: the command, and the parts around the place, the
outermost first. -/
structure Place where
  command : Option String := none
  stack : List String := []
deriving DecidableEq

def Place.text (p : Place) : String :=
  let command := match p.command with
    | some c => "in command " ++ c
    | none => ""
  let frames := p.stack.map fun frame => "  in " ++ frame ++ "\n"
  command ++ (if p.stack.isEmpty then "" else "\n" ++ String.join frames)

structure Error where
  problem : Problem
  place : Option Place := none
deriving DecidableEq

namespace Error

def text (e : Error) : String := e.problem.text

def ofFault (f : Fault) : Error := { problem := .invalidDefinition f }

def ofConfig (f : ConfigFault) : Error := { problem := .config f }

def unknownCommand (id : String) : Error := { problem := .unknownCommand id }

def duplicateCommand (id : String) : Error := { problem := .duplicateCommand id }

end Error
end Chatline
