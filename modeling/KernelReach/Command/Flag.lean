import KernelReach.Text.Affix
import KernelReach.Text.Quoted
import KernelReach.Text.ReadNumeral
import KernelReach.Text.Record
import KernelReach.Time.ReadSpan

/-!
# Flags

The arguments of a command are flags and plain arguments in any order. A flag is written with its
name after two dashes or with its letter after one; its value follows a `=` or is the next argument.
A switch has no value unless one is given with `=`. Switches can be written together after one dash.
After two dashes alone there are no more flags.
-/

namespace KernelReach

/-- The kind of value that a flag takes. -/
inductive FlagKind
  | switch
  | text
  /-- A whole number, and what it is if it is not given. -/
  | number (unset : Int)
  /-- Texts with commas between them. -/
  | list
  /-- A span of time. -/
  | span
  deriving DecidableEq, Repr

/-- A flag. -/
structure Flag where
  name : String
  letter : Option Char := none
  kind : FlagKind
  /-- What the flag is for. -/
  about : String
  deriving DecidableEq, Repr

namespace Flag

/-- Whether the value of a flag can be left out. -/
def isSwitch (f : Flag) : Bool := f.kind = .switch

def shown (f : Flag) : String :=
  match f.letter with
  | some c => "-" ++ String.singleton c ++ ", --" ++ f.name
  | none => "--" ++ f.name

end Flag

/-- The value of a flag. -/
inductive FlagValue
  | switch (isOn : Bool)
  | text (s : String)
  | number (n : Int)
  | list (items : List String)
  | span (nanoseconds : Int)
  deriving DecidableEq, Repr

/-- Why the arguments of a command cannot be read. -/
inductive FlagError
  | unknown (name : String)
  | unknownLetter (letter : Char) (group : String)
  | noValue (name : String)
  | noLetterValue (letter : Char) (group : String)
  | badForm (argument : String)
  | badValue (value : String) (flag : Flag) (cause : String)
  deriving DecidableEq, Repr

/-- A letter as it is shown in a complaint. Letters are bytes, so for one outside of ASCII a mark is
    shown that is the same for all of them. -/
def shownLetter (c : Char) : String := Text.quoteChar (if c.toNat < 0x80 then c else 'Ã')

def FlagError.message : FlagError → String
  | unknown name => "unknown flag: --" ++ name
  | unknownLetter c group => "unknown shorthand flag: " ++ shownLetter c ++ " in -" ++ group
  | noValue name => "flag needs an argument: --" ++ name
  | noLetterValue c group => "flag needs an argument: " ++ shownLetter c ++ " in -" ++ group
  | badForm argument => "bad flag syntax: " ++ argument
  | badValue value flag cause =>
    "invalid argument " ++ Text.quote value ++ " for " ++ Text.quote flag.shown ++ " flag: "
      ++ cause

/-! ### Values -/

/-- The truth value of a text. -/
def switchValue (s : String) : Except String Bool :=
  if ["1", "t", "T", "TRUE", "true", "True"].contains s then .ok true
  else if ["0", "f", "F", "FALSE", "false", "False"].contains s then .ok false
  else .error ("strconv.ParseBool: parsing " ++ Text.quote s ++ ": invalid syntax")

def numberValue (s : String) : Except String Int :=
  (Text.readInteger s).mapError fun e =>
    "strconv.ParseInt: parsing " ++ Text.quote s ++ ": " ++ match e with
      | .malformed => "invalid syntax"
      | .tooBig => "value out of range"

def listValue (s : String) : Except String (List String) :=
  if s = "" then .ok [] else (Text.record s).mapError Text.RecordFault.message

def spanValue (s : String) : Except String Int := (Time.readSpan s).mapError Time.SpanFault.message

def Flag.value (f : Flag) (s : String) : Except FlagError FlagValue :=
  match f.kind with
  | .switch => ((switchValue s).map .switch).mapError (.badValue s f)
  | .text => .ok (.text s)
  | .number _ => ((numberValue s).map .number).mapError (.badValue s f)
  | .list => ((listValue s).map .list).mapError (.badValue s f)
  | .span => ((spanValue s).map .span).mapError (.badValue s f)

/-! ### Arguments -/

/-- What was said on the command line. -/
structure Arguments where
  /-- The values of the flags that were given, in order. -/
  values : List (String × FlagValue) := []
  plain : List String := []
  deriving DecidableEq, Repr

namespace Arguments

/-- The text of a flag, the last one given; empty if there is none. -/
def text (a : Arguments) (name : String) : String :=
  a.values.foldl (fun old (n, v) => match v with
    | .text s => if n = name then s else old
    | _ => old) ""

def isOn (a : Arguments) (name : String) : Bool :=
  a.values.foldl (fun old (n, v) => match v with
    | .switch b => if n = name then b else old
    | _ => old) false

def number (a : Arguments) (name : String) (unset : Int) : Int :=
  a.values.foldl (fun old (n, v) => match v with
    | .number k => if n = name then k else old
    | _ => old) unset

/-- The items of a flag, all that were given. -/
def items (a : Arguments) (name : String) : List String :=
  a.values.flatMap fun (n, v) => match v with
    | .list xs => if n = name then xs else []
    | _ => []

/-- The span of time of a flag. -/
def span (a : Arguments) (name : String) : Int :=
  a.values.foldl (fun old (n, v) => match v with
    | .span k => if n = name then k else old
    | _ => old) 0

def named? (flags : List Flag) (name : String) : Option Flag := flags.find? (·.name = name)

def lettered? (flags : List Flag) (c : Char) : Option Flag := flags.find? (·.letter = some c)

def set (a : Arguments) (f : Flag) (s : String) : Except FlagError Arguments := do
  pure { a with values := a.values ++ [(f.name, ← f.value s)] }

/-- Reads a flag that is given by its name, with the arguments after it. -/
def readNamed (flags : List Flag) (a : Arguments) (argument : String) (rest : List String) :
    Except FlagError (Arguments × List String) :=
  let body := argument.toList.drop 2
  if body.head? = none ∨ body.head? = some '-' ∨ body.head? = some '=' then
    .error (.badForm argument)
  else
    let name := String.ofList (body.takeWhile (· != '='))
    match named? flags name, body.drop name.length with
    | none, _ => .error (.unknown name)
    | some f, _ :: value => (a.set f (String.ofList value)).map (·, rest)
    | some f, [] =>
      if f.isSwitch then (a.set f "true").map (·, rest)
      else match rest with
        | value :: rest => (a.set f value).map (·, rest)
        | [] => .error (.noValue name)

/-- What a group of letters starts with that is not for the program. -/
def foreignStart : String := "test."

/-- Reads flags that are given by their letters, with the arguments after them. -/
def readLetters (flags : List Flag) : (a : Arguments) → List Char → List String →
    Except FlagError (Arguments × List String)
  | a, [], rest => .ok (a, rest)
  | a, c :: cs, rest =>
    if foreignStart.toList.isPrefixOf (c :: cs) then .ok (a, rest)
    else match lettered? flags c with
    | none => .error (.unknownLetter c (String.ofList (c :: cs)))
    | some f =>
      match cs with
      | '=' :: d :: value => (a.set f (String.ofList (d :: value))).map (·, rest)
      | cs =>
        if f.isSwitch then
          match a.set f "true" with
          | .ok a => readLetters flags a cs rest
          | .error e => .error e
        else match cs, rest with
          | [], value :: rest => (a.set f value).map (·, rest)
          | [], [] => .error (.noLetterValue c (String.singleton c))
          | cs, rest => (a.set f (String.ofList cs)).map (·, rest)

def readFrom (flags : List Flag) : (fuel : Nat) → Arguments → List String →
    Except FlagError Arguments
  | _, a, [] => .ok a
  | 0, a, _ => .ok a
  | fuel + 1, a, arg :: rest =>
    if arg = "--" then .ok { a with plain := a.plain ++ rest }
    else if Text.startsWith "--" arg then do
      let (a, rest) ← readNamed flags a arg rest
      readFrom flags fuel a rest
    else if Text.startsWith "-" arg && arg != "-" then do
      let (a, rest) ← readLetters flags a (arg.toList.drop 1) rest
      readFrom flags fuel a rest
    else readFrom flags fuel { a with plain := a.plain ++ [arg] } rest

/-- Reads the arguments of a command that knows some flags. -/
def read (flags : List Flag) (args : List String) : Except FlagError Arguments :=
  readFrom flags args.length {} args

end Arguments

end KernelReach
