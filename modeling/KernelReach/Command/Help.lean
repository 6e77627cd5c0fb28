import KernelReach.Command.Table
import KernelReach.Text.Numeral

/-!
# Help

What a command does and the flags it knows, laid out in columns.
-/

namespace KernelReach.Command

/-- The text with blanks after it, up to a width. -/
def padRight (width : Nat) (s : String) : String :=
  s ++ String.ofList (List.replicate (width - s.length) ' ')

/-- The kind of value that a flag takes, as help shows it. -/
def kindName : FlagKind → String
  | .switch => ""
  | .text => " string"
  | .number _ => " int"
  | .list => " strings"
  | .span => " duration"

/-- A flag and the kind of its value. -/
def flagColumn (f : Flag) : String :=
  let letter := match f.letter with
    | some c => "  -" ++ String.singleton c ++ ", --"
    | none => "      --"
  letter ++ f.name ++ kindName f.kind

/-- What a flag is for, and what it is if it is not given. -/
def flagAbout (f : Flag) : String :=
  match f.kind with
  | .number n => if n = 0 then f.about else f.about ++ " (default " ++ Text.integer n ++ ")"
  | _ => f.about

/-- A table of flags, in the order of their names. -/
def flagTable (flags : List Flag) : String :=
  let flags := flags.mergeSort fun a b => a.name ≤ b.name
  let width := (flags.map fun f => (flagColumn f).length).foldl max 0
  "\n".intercalate (flags.map fun f => padRight (width + 3) (flagColumn f) ++ flagAbout f)

/-- The width of the names of commands in a list of them. -/
def nameWidth : Nat := 11

/-- A list of commands, in the order of their names, under its title. -/
def commandTable (commands : List Command) : String :=
  let listed := commands.mergeSort fun a b => a.name ≤ b.name
  "Available Commands:\n" ++ String.join (listed.map fun c =>
    "  " ++ padRight nameWidth c.name ++ " " ++ c.brief ++ "\n")

/-- Where there is more to read on the parts of something. -/
def moreHelp (path : String) : String :=
  "\nUse \"" ++ path ++ " [command] --help\" for more information about a command.\n"

def helpText (c : Command) : String :=
  (if c.about = "" then c.brief else c.about)
    ++ "\n\nUsage:\n  " ++ c.path ++ c.usage
    ++ (if c.parts.isEmpty then "\n" else "\n\n" ++ commandTable c.parts)
    ++ "\nFlags:\n" ++ flagTable (helpFlag c.name :: c.flags)
    ++ "\n\nGlobal Flags:\n" ++ flagTable sharedFlags ++ "\n"
    ++ (if c.parts.isEmpty then "" else moreHelp c.path)

/-- How the program is used: its commands and the flags that all of them know. -/
def programUsage : String :=
  "Usage:\n  " ++ programName ++ " [command]\n\n" ++ commandTable all
    ++ "\nFlags:\n" ++ flagTable programFlags ++ "\n" ++ moreHelp programName

def programHelp : String := programAbout ++ "\n\n" ++ programUsage

/-- Whether a character can stand in a text that is shown between backticks. -/
def isPlainlyShown (c : Char) : Bool :=
  c == '\t' || (' ' ≤ c && c != '\x60' && c != '\x7f' && c != '\ufeff')

/-- A topic as it is shown: between backticks if that is possible. -/
def shownTopic (topic : String) : String :=
  if topic.toList.all isPlainlyShown then "\x60" ++ topic ++ "\x60" else Text.quote topic

/-- What is said of topics on which there is no help. -/
def unknownTopic (topics : List String) : String :=
  "Unknown help topic [" ++ " ".intercalate (topics.map shownTopic) ++ "]\n" ++ programUsage

end KernelReach.Command
