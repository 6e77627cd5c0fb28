import KernelReach.Text.Affix

/-!
# Tokens of statements

A statement to the database is a row of tokens, with blanks and comments between them: words, names
between quotes, brackets or backticks, numbers, and marks. A token that is never closed, or a
character with which no token starts, is not one. A statement ends before a zero character.
-/

namespace KernelReach.Store

/-- A token of a statement. -/
inductive Token
  | word (text : String)
  /-- A name or a text between quotes, as it is written, and what it stands for. -/
  | quoted (text name : String)
  | number (text : String)
  /-- A mark, a place for a value, or a literal of another kind. -/
  | mark (text : String)
  /-- What is no token. -/
  | illegal (text : String)
  deriving DecidableEq, Repr

def Token.text : Token → String
  | word text | quoted text _ | number text | mark text | illegal text => text

namespace Token

/-- A blank inside a statement. -/
def isBlank (c : Char) : Bool := c == ' ' || c == '\t' || c == '\n' || c == '\x0c' || c == '\r'

/-- What separates tokens: a blank, or the mark of the order of bytes. -/
def isGap (c : Char) : Bool := isBlank c || c == '\ufeff'

def isWordChar (c : Char) : Bool := c.isAlphanum || c == '_' || c == '$' || 0x80 ≤ c.toNat

/-- What stands between tokens. -/
inductive Gap
  | blanks
  /-- A comment that ends with the line. -/
  | line
  /-- A comment that ends with a mark. -/
  | block

/-- Skips what stands between tokens. -/
def skipGaps : Gap → List Char → List Char
  | .blanks, '-' :: '-' :: cs => skipGaps .line cs
  | .blanks, '/' :: '*' :: c :: cs => skipGaps .block (c :: cs)
  | .blanks, c :: cs => if isGap c then skipGaps .blanks cs else c :: cs
  | .line, c :: cs => skipGaps (if c == '\n' then .blanks else .line) cs
  | .block, '*' :: '/' :: cs => skipGaps .blanks cs
  | .block, _ :: cs => skipGaps .block cs
  | _, [] => []

/-- The text up to a closing quote, in which the quote is written twice, and the rest. -/
def untilQuote (quote : Char) : List Char → Option (List Char × List Char)
  | [] => none
  | c :: cs =>
    if c == quote then
      match cs with
      | d :: rest =>
        if d == quote then (untilQuote quote rest).map fun (text, rest) => (c :: text, rest)
        else some ([], cs)
      | [] => some ([], [])
    else (untilQuote quote cs).map fun (text, rest) => (c :: text, rest)

/-- The marks of more than one character. -/
def longMarks : List String := ["->>", "->", "||", "==", "<=", "<>", "<<", ">=", ">>", "!="]

def shortMarks : List Char :=
  ['-', '(', ')', ';', '+', '*', '/', '%', '=', '<', '>', '|', ',', '&', '~', '.']

/-- The characters with which the name of a place for a value starts. -/
def placeStarts : List Char := ['@', '#', ':', '$']

/-! ### Numbers -/

/-- The digits at the start of a text, among which there may be separators, and the rest. -/
def digitRun (isDigit : Char → Bool) (cs : List Char) : List Char × List Char :=
  let isPart (c : Char) : Bool := isDigit c || c == '_'
  (cs.takeWhile isPart, cs.dropWhile isPart)

/-- What follows the exponent at the start of a text, or the text if there is no exponent. -/
def afterExponent (cs : List Char) : List Char :=
  match cs with
  | e :: rest =>
    let digits := match rest with
      | c :: more => if c == '+' || c == '-' then more else rest
      | [] => []
    if (e == 'e' || e == 'E') && digits.head?.any Char.isDigit then
      (digitRun Char.isDigit digits).2
    else cs
  | [] => []

/-- What follows a number at the start of a text. -/
def afterNumber (cs : List Char) : List Char :=
  let isHex (c : Char) : Bool := c.isDigit || ('a' ≤ c.toLower && c.toLower ≤ 'f')
  match cs with
  | '0' :: x :: d :: rest =>
    if (x == 'x' || x == 'X') && isHex d then (digitRun isHex rest).2 else afterDecimal cs
  | _ => afterDecimal cs
where
  /-- What follows a decimal number. -/
  afterDecimal (cs : List Char) : List Char :=
    match (digitRun Char.isDigit cs).2 with
    | '.' :: rest => afterExponent (digitRun Char.isDigit rest).2
    | rest => afterExponent rest

/-! ### Places for values -/

/-- What follows the argument of a place for a value, if it is closed. -/
def afterArgument? : List Char → Option (List Char)
  | c :: cs => if c == ')' then some cs else if isBlank c then none else afterArgument? cs
  | [] => none

/-- What follows the name of a place for a value, after its start; none if it is not one. -/
def afterPlace? : (named : Bool) → List Char → Option (List Char)
  | named, ':' :: ':' :: cs => afterPlace? named cs
  | named, c :: cs =>
    if isWordChar c then afterPlace? true cs
    else if c == '(' && named then afterArgument? cs
    else if named then some (c :: cs) else none
  | named, [] => if named then some [] else none

/-- How far a place for a value goes that is not one. -/
def brokenPlace : List Char → List Char
  | ':' :: ':' :: cs => brokenPlace cs
  | c :: cs =>
    if isWordChar c then brokenPlace cs
    else if c == '(' then cs.dropWhile (!isBlank ·)
    else c :: cs
  | [] => []

/-! ### Tokens -/

/-- The token that starts with `c`, and what follows it. -/
def first (c : Char) (rest : List Char) : Token × List Char :=
  let cs := c :: rest
  let upTo (kind : String → Token) (after : List Char) : Token × List Char :=
    (kind (String.ofList (cs.take (cs.length - after.length))), after)
  let closed (inside : Option (List Char × List Char)) : Token × List Char :=
    match inside with
    | some (name, after) => upTo (.quoted · (String.ofList name)) after
    | none => upTo .illegal []
  if c == '"' || c == '\'' || c == '\x60' then closed (untilQuote c rest)
  else if c == '[' then
    let name := rest.takeWhile (· != ']')
    closed (if name.length < rest.length then some (name, rest.drop (name.length + 1)) else none)
  else if c.isDigit || (c == '.' && rest.head?.any Char.isDigit) then
    let after := afterNumber cs
    let written := cs.take (cs.length - after.length)
    if after.head?.any isWordChar then upTo .illegal (after.dropWhile isWordChar)
    else upTo (if written.contains '_' then .mark else .number) after
  else if c == '?' then upTo .mark (rest.dropWhile Char.isDigit)
  else if placeStarts.contains c then
    match afterPlace? false rest with
    | some after => upTo .mark after
    | none => upTo .illegal (brokenPlace rest)
  else if (c == 'x' || c == 'X') && rest.head? == some '\'' then
    let inside := (rest.drop 1).takeWhile (· != '\'')
    let isHex (c : Char) : Bool := c.isDigit || ('a' ≤ c.toLower && c.toLower ≤ 'f')
    let isWhole := inside.all isHex && inside.length % 2 == 0 && inside.length + 1 < rest.length
    upTo (if isWhole then .mark else .illegal) (rest.drop (inside.length + 2))
  else if isWordChar c then upTo .word (cs.dropWhile isWordChar)
  else match longMarks.find? fun m => m.toList.isPrefixOf cs with
    | some m => upTo .mark (cs.drop m.length)
    | none => upTo (if shortMarks.contains c then .mark else .illegal) rest

/-- The next token of a text, if there is one, and what follows it. -/
def next? (cs : List Char) : Option (Token × List Char) :=
  match skipGaps .blanks (cs.takeWhile (· != '\x00')) with
  | [] => none
  | c :: rest => some (first c rest)

end Token

end KernelReach.Store
