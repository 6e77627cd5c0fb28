import KernelReach.Command.Table
import KernelReach.Text.Blank

/-!
# Completing commands

While a command is being typed, a shell asks how its last word can go on: with the name of a
command, with the name of a flag, or with something that only the shell knows, such as the name of a
file.
-/

namespace KernelReach.Command

/-- A word that can be typed, and what it is for. -/
structure Choice where
  word : String
  about : String
  deriving DecidableEq, Repr

/-- What a shell does if none of the choices is taken. -/
inductive Fallback
  /-- It completes the names of files. -/
  | files
  | nothing
  deriving DecidableEq, Repr

namespace Fallback

/-- The number that tells a shell what to do. -/
def code : Fallback → String
  | files => "0"
  | nothing => "4"

/-- What is told about it. -/
def name : Fallback → String
  | files => "ShellCompDirectiveDefault"
  | nothing => "ShellCompDirectiveNoFileComp"

end Fallback

/-- Choices, and what is done if none of them is taken. -/
structure Choices where
  choices : List Choice := []
  fallback : Fallback := .files
  deriving DecidableEq, Repr

/-- The choices as a shell reads them. -/
def Choices.text (described : Bool) (c : Choices) : String :=
  String.join (c.choices.map fun choice =>
    Text.trim (if described then choice.word ++ "\t" ++ choice.about else choice.word) ++ "\n")
    ++ ":" ++ c.fallback.code ++ "\nCompletion ended with directive: " ++ c.fallback.name ++ "\n"

/-! ### Flags -/

def isFlag (arg : String) : Bool :=
  match arg.toList with
  | '-' :: '-' :: rest => !rest.isEmpty
  | '-' :: _ :: _ => true
  | _ => false

def flagCalled? (flags : List Flag) (name : String) : Option Flag :=
  let lettered := match name.toList with
    | [c] => Arguments.lettered? flags c
    | _ => none
  lettered.or (Arguments.named? flags name)

/-- The name in a flag without a value: the last letter, if it is given by letters. -/
def flagName (arg : List Char) : String :=
  match arg with
  | '-' :: '-' :: name => String.ofList name
  | letters => String.ofList (letters.drop (letters.length - 1))

/-- What is being typed. -/
structure Typing where
  /-- The flag whose value is being typed. -/
  flag : Option Flag := none
  /-- The arguments before it. -/
  before : List String
  /-- What is there of the word. -/
  word : String
  /-- Whether a value of a flag is being typed that is not known. -/
  isLost : Bool := false
  deriving DecidableEq, Repr

/-- What is being typed after some arguments: the value of a flag, if the word holds an equals sign
    after a flag or if a flag that takes a value stands before it. -/
def Typing.of (flags : List Flag) (before : List String) (word : String) : Typing :=
  let cs := word.toList
  let plain : Typing := { before, word }
  if cs.head? = some '-' ∧ ¬cs.contains '=' then plain
  else if cs.head? = some '-' ∧ flagName (cs.takeWhile (· != '=')) ≠ "" then
    match flagCalled? flags (flagName (cs.takeWhile (· != '='))) with
    | some f => { flag := f, before, word := String.ofList ((cs.dropWhile (· != '=')).drop 1) }
    | none => { plain with isLost := true }
  else match before.getLast? with
    | some last =>
      if isFlag last && !last.toList.contains '=' then
        match flagCalled? flags (flagName last.toList) with
        | some f => if f.isSwitch then plain else { flag := f, before := before.dropLast, word }
        | none => { plain with isLost := true }
      else plain
    | none => plain

/-- The ways to give a flag that start with a word. -/
def flagChoices (word : String) (f : Flag) : List Choice :=
  let ways := ("--" ++ f.name) :: (f.letter.map fun c => String.ofList ['-', c]).toList
  (ways.filter (Text.startsWith word)).map fun way => ⟨way, f.about⟩

/-- The flags of a command in the order in which they are offered: those that all commands share
    come first, but for the program itself there are no others. -/
def offeredFlags (c : Option Command) : List Flag :=
  let sorted (flags : List Flag) : List Flag := flags.mergeSort fun a b => a.name ≤ b.name
  match c with
  | none => sorted programFlags
  | some c => sorted sharedFlags ++ sorted (helpFlag c.name :: c.flags)

/-! ### Commands -/

/-- The commands of some whose names start with a word. -/
def commandChoices (word : String) (commands : List Command) : List Choice :=
  let sorted := commands.mergeSort fun a b => a.name ≤ b.name
  (sorted.filter fun c => Text.startsWith word c.name).map fun c => ⟨c.name, c.brief⟩

def partsOf (c : Option Command) : List Command := (c.map parts).getD all

/-- What the arguments of a command can be, after some of them. -/
def argumentChoices (c : Option Command) (args : List String) (word : String) : Option Choices :=
  match c.map Command.verb with
  | some .help =>
    match find all args with
    | .ok (topic, _) => some ⟨commandChoices word (partsOf topic), .nothing⟩
    | .error _ => some ⟨[], .nothing⟩
  | some .completion | some (.script _) => some ⟨[], .nothing⟩
  | _ => none

/-- How a command with some flags goes on. -/
def choicesFor (c : Option Command) (t : Typing) (given all : Arguments) : Choices :=
  let mayBeFlag := all.plain.length = given.plain.length
  let wasGiven (f : Flag) : Bool := given.values.any (·.1 = f.name)
  if t.isLost ∧ mayBeFlag then {}
  else if wasGiven (helpFlag "") then { fallback := .nothing }
  else if t.flag = none ∧ Text.startsWith "-" t.word ∧ ¬t.word.toList.contains '=' ∧ mayBeFlag then
    let offered := (offeredFlags c).filter fun f => f.kind = .list || !wasGiven f
    ⟨offered.flatMap (flagChoices t.word), .nothing⟩
  else
    let named : Choices :=
      if t.flag = none ∧ given.plain = [] ∧ partsOf c ≠ [] then
        ⟨commandChoices t.word (partsOf c), .nothing⟩
      else {}
    if t.flag ≠ none ∧ mayBeFlag then named
    else match argumentChoices c given.plain t.word with
      | some more => ⟨named.choices ++ more.choices, more.fallback⟩
      | none => named

/-- How some words go on of which the last is being typed. -/
def choicesAfter (words : List String) : Choices :=
  match find all words.dropLast with
  | .error _ => {}
  | .ok (c, before) =>
    let flags := (c.map allFlags).getD programFlags
    let t := Typing.of flags before (words.getLast?.getD "")
    match Arguments.read flags t.before, Arguments.read flags (t.before ++ ["--"]) with
    | .ok given, .ok all => choicesFor c t given all
    | _, _ => {}

end KernelReach.Command
