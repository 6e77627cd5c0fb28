import KernelReach.Json.Document
import KernelReach.Text.Blank
import KernelReach.Text.Quoted

/-!
# Reading JSON

A reader for JSON texts. A text that is not a document is refused at the first character that
cannot stand where it stands, with what was expected there, or because it ends too early.
-/

namespace KernelReach.Json

/-- Why a text is not a document. -/
inductive Fault
  /-- The text ends inside a document. -/
  | endOfText
  /-- A character that cannot stand here, and where that is. -/
  | unexpected (c : Char) (place : String)
  /-- An escape in a string that stands for no character. -/
  | badEscape (bytes : List UInt8)
  /-- Too many arrays and objects inside one another. -/
  | tooDeep
  deriving DecidableEq, Repr

/-- Whether a piece of an escape has to be escaped itself when the escape is shown. -/
def isHardToShow : Text.Piece → Bool
  | .char c => c == '\x60' || c == '�' || Text.isBlank c || !Text.isPrintable c
  | .stray _ => true

/-- An escape as it is shown: between backticks if it can be read there. -/
def shownEscape (bytes : List UInt8) : String :=
  if (Text.pieces bytes).any isHardToShow then Text.quoteBytes bytes
  else "\x60" ++ Text.ofBytes bytes ++ "\x60"

def Fault.message : Fault → String
  | endOfText => "unexpected end of JSON input"
  | unexpected c place => "invalid character " ++ Text.quoteChar c ++ " " ++ place
  | badEscape bytes => "invalid escape sequence " ++ shownEscape bytes ++ " in string"
  | tooDeep => "exceeded max depth"

/-- A step of reading: a value and the rest of the text. -/
abbrev Reader (α : Type) := List Char → Except Fault (α × List Char)

/-- Refuses the text at its first character. -/
def refuse {α : Type} (place : String) : List Char → Except Fault α
  | c :: _ => .error (.unexpected c place)
  | [] => .error .endOfText

/-- The text without the blanks at its start. -/
def skipBlank (cs : List Char) : List Char :=
  cs.dropWhile fun c => c == ' ' || c == '\t' || c == '\r' || c == '\n'

def readWord (word : String) : List Char → Reader Unit
  | [] => fun cs => .ok ((), cs)
  | w :: ws => fun cs =>
    match cs with
    | c :: rest =>
      if c = w then readWord word ws rest
      else refuse ("in literal " ++ word ++ " (expecting " ++ Text.quoteChar w ++ ")") cs
    | [] => .error .endOfText

/-! ### Strings -/

/-- Reads four hexadecimal digits. -/
def readHex4? (cs : List Char) : Option (Nat × List Char) :=
  go 4 0 cs
where
  /-- Reads `n` more digits after those with the value `acc`. -/
  go : Nat → Nat → List Char → Option (Nat × List Char)
    | 0, acc, cs => some (acc, cs)
    | n + 1, acc, c :: cs => (Text.hexDigit? c).bind fun d => go n (16 * acc + d) cs
    | _ + 1, _, [] => none

/-- The size of an escape with four digits, in bytes. -/
def longEscape : Nat := 6

/-- The size of an escape with one letter, in bytes. -/
def shortEscape : Nat := 2

/-- Refuses an escape of some size that the text starts with. If the text ends before the escape and
    nothing in it is wrong so far, that is the fault. -/
def refuseEscape {α : Type} (size : Nat) (cs : List Char) : Except Fault α :=
  let bytes := Text.toBytes (String.ofList (cs.take size))
  if bytes.length < size ∧ (cs.drop 2).all fun c => (Text.hexDigit? c).isSome then
    .error .endOfText
  else .error (.badEscape (bytes.take size))

/-- A piece of a string: a character, or half of a surrogate pair. -/
inductive Piece
  | char (c : Char)
  | unit (n : Nat)
  deriving DecidableEq, Repr

/-- Joins surrogate pairs; a half without its partner becomes the replacement character. -/
def joinPieces : List Piece → List Char
  | [] => []
  | .char c :: ps => c :: joinPieces ps
  | [.unit _] => ['�']
  | .unit _ :: .char c :: ps => '�' :: c :: joinPieces ps
  | .unit h :: .unit l :: ps =>
    if 0xD800 ≤ h ∧ h < 0xDC00 ∧ 0xDC00 ≤ l ∧ l < 0xE000 then
      Char.ofNat (0x10000 + (h - 0xD800) * 0x400 + (l - 0xDC00)) :: joinPieces ps
    else '�' :: joinPieces (.unit l :: ps)

/-- The piece that a four-digit escape stands for. -/
def pieceOfCode (n : Nat) : Piece :=
  if 0xD800 ≤ n ∧ n < 0xE000 then .unit n else .char (Char.ofNat n)

/-- The character that a one-letter escape stands for. -/
def escaped? : Char → Option Char
  | 'b' => some '\x08'
  | 'f' => some '\x0c'
  | 'n' => some '\n'
  | 'r' => some '\r'
  | 't' => some '\t'
  | '"' => some '"'
  | '\\' => some '\\'
  | '/' => some '/'
  | _ => none

/-- Reads the rest of a string after its opening quote. -/
def readPieces : (fuel : Nat) → List Char → Except Fault (List Piece × List Char)
  | 0, _ => .error .endOfText
  | fuel + 1, cs =>
    match cs with
    | [] => .error .endOfText
    | '"' :: rest => .ok ([], rest)
    | ['\\'] => .error .endOfText
    | '\\' :: 'u' :: rest =>
      match readHex4? rest with
      | none => refuseEscape longEscape cs
      | some (n, rest) => (readPieces fuel rest).map fun (ps, rest) => (pieceOfCode n :: ps, rest)
    | '\\' :: c :: rest =>
      match escaped? c with
      | some d => (readPieces fuel rest).map fun (ps, rest) => (.char d :: ps, rest)
      | none => refuseEscape shortEscape cs
    | c :: rest =>
      if c.toNat < 0x20 then .error (.unexpected c "in string")
      else (readPieces fuel rest).map fun (ps, rest) => (.char c :: ps, rest)

/-- Reads the rest of a string after its opening quote. -/
def readString (cs : List Char) : Except Fault (String × List Char) :=
  (readPieces (cs.length + 1) cs).map fun (ps, rest) => (String.ofList (joinPieces ps), rest)

/-! ### Numbers -/

def isDigit (c : Char) : Bool := '0' ≤ c && c ≤ '9'

def readDigits : Reader (List Char) := fun cs =>
  let digits := cs.takeWhile isDigit
  if digits = [] then refuse "in numeric literal" cs else .ok (digits, cs.dropWhile isDigit)

/-- Reads the digits before the point. -/
def readWhole : Reader (List Char) := fun cs =>
  match cs with
  | '0' :: rest => .ok (['0'], rest)
  | _ => readDigits cs

/-- Reads the point and the digits after it, if there is a point. -/
def readDecimals : Reader (List Char) := fun cs =>
  match cs with
  | '.' :: rest => (readDigits rest).map fun (ds, rest) => ('.' :: ds, rest)
  | _ => .ok ([], cs)

def readExponent : Reader (List Char) := fun cs =>
  match cs with
  | e :: sign :: rest =>
    if e = 'e' ∨ e = 'E' then
      if sign = '+' ∨ sign = '-' then
        (readDigits rest).map fun (ds, rest) => (e :: sign :: ds, rest)
      else (readDigits (sign :: rest)).map fun (ds, rest) => (e :: ds, rest)
    else .ok ([], cs)
  | [e] => if e = 'e' ∨ e = 'E' then .error .endOfText else .ok ([], cs)
  | [] => .ok ([], cs)

def readNumber : Reader String := fun cs => do
  let (sign, cs) : List Char × List Char :=
    match cs with
    | '-' :: rest => (['-'], rest)
    | _ => ([], cs)
  let (whole, cs) ← readWhole cs
  let (decimals, cs) ← readDecimals cs
  let (exponent, cs) ← readExponent cs
  pure (String.ofList (sign ++ whole ++ decimals ++ exponent), cs)

/-! ### Documents -/

/-- How many arrays and objects may be inside one another. -/
def maxDepth : Nat := 10000

mutual

/-- Reads a document inside of which `depth` more arrays and objects may be inside one another. -/
def readValue : (fuel depth : Nat) → List Char → Except Fault (Json × List Char)
  | 0, _, _ => .error .endOfText
  | fuel + 1, depth, cs =>
    let cs := skipBlank cs
    match cs with
    | '\x7b' :: rest =>
      if depth = 0 then .error .tooDeep else
      match skipBlank rest with
      | '\x7d' :: rest => .ok (.object [], rest)
      | rest => (readFields fuel (depth - 1) rest).map fun (fs, rest) => (.object fs, rest)
    | '[' :: rest =>
      if depth = 0 then .error .tooDeep else
      match skipBlank rest with
      | ']' :: rest => .ok (.array [], rest)
      | rest => (readItems fuel (depth - 1) rest).map fun (xs, rest) => (.array xs, rest)
    | '"' :: rest => (readString rest).map fun (s, rest) => (.string s, rest)
    | 't' :: rest => (readWord "true" ['r', 'u', 'e'] rest).map fun ((), rest) => (.bool true, rest)
    | 'f' :: rest =>
      (readWord "false" ['a', 'l', 's', 'e'] rest).map fun ((), rest) => (.bool false, rest)
    | 'n' :: rest => (readWord "null" ['u', 'l', 'l'] rest).map fun ((), rest) => (.null, rest)
    | c :: _ =>
      if c = '-' ∨ isDigit c then (readNumber cs).map fun (n, rest) => (.number n, rest)
      else refuse "looking for beginning of value" cs
    | [] => .error .endOfText

/-- Reads the items of an array after its opening bracket. -/
def readItems : (fuel depth : Nat) → List Char → Except Fault (List Json × List Char)
  | 0, _, _ => .error .endOfText
  | fuel + 1, depth, cs =>
    match readValue fuel depth cs with
    | .error e => .error e
    | .ok (x, rest) =>
      match skipBlank rest with
      | ',' :: rest => (readItems fuel depth rest).map fun (xs, rest) => (x :: xs, rest)
      | ']' :: rest => .ok ([x], rest)
      | rest => refuse "after array element" rest

/-- Reads the fields of an object after its opening brace. -/
def readFields : (fuel depth : Nat) → List Char →
    Except Fault (List (String × Json) × List Char)
  | 0, _, _ => .error .endOfText
  | fuel + 1, depth, cs =>
    match skipBlank cs with
    | '"' :: rest =>
      match readString rest with
      | .error e => .error e
      | .ok (k, rest) =>
        match skipBlank rest with
        | ':' :: rest =>
          match readValue fuel depth rest with
          | .error e => .error e
          | .ok (v, rest) =>
            match skipBlank rest with
            | ',' :: rest => (readFields fuel depth rest).map fun (fs, rest) => ((k, v) :: fs, rest)
            | '\x7d' :: rest => .ok ([(k, v)], rest)
            | rest => refuse "after object key:value pair" rest
        | rest => refuse "after object key" rest
    | rest => refuse "looking for beginning of object key string" rest

end

/-- Reads a text that holds one document and nothing else. -/
def parse (text : String) : Except Fault Json :=
  let cs := text.toList
  match readValue (2 * cs.length + 2) maxDepth cs with
  | .error e => .error e
  | .ok (j, rest) =>
    match skipBlank rest with
    | [] => .ok j
    | rest => refuse "after top-level value" rest

/-! ### Lists of texts -/

/-- Why a text is not a list of texts. -/
inductive TextsFault
  | malformed (f : Fault)
  /-- A document of some kind in place of the whole list. -/
  | notAList (kind : String)
  /-- A document of some kind in place of the item with an index. -/
  | notAText (kind : String) (index : Nat)
  deriving DecidableEq, Repr

def TextsFault.message : TextsFault → String
  | malformed f => f.message
  | notAList kind => "json: cannot unmarshal " ++ kind ++ " into Go value of type []string"
  | notAText kind index =>
    "json: cannot unmarshal " ++ kind ++ " into ." ++ Text.decimal 1 index ++ " of type string"

def kind : Json → String
  | null => "null"
  | bool _ => "bool"
  | number _ => "number"
  | string _ => "string"
  | array _ => "array"
  | object _ => "object"

/-- The item with an index as a text; null is the empty text. -/
def asText (index : Nat) : Json → Except TextsFault String
  | string s => .ok s
  | null => .ok ""
  | other => .error (.notAText other.kind index)

/-- A document as a list of texts; null is no list. -/
def asTexts : Json → Except TextsFault (Option (List String))
  | null => .ok none
  | array items => (items.zipIdx.mapM fun (item, i) => asText i item).map some
  | other => .error (.notAList other.kind)

/-- Reads a list of texts and gives their bytes. -/
def parseTexts (text : String) : Except TextsFault (Option (List (List UInt8))) :=
  match parse text with
  | .ok j => j.asTexts.map fun texts => texts.map (List.map Text.toBytes)
  | .error f => .error (.malformed f)

/-- Texts with commas between them. -/
def writeItems : List String → String
  | [] => ""
  | [s] => encode s
  | s :: ss => encode s ++ "," ++ writeItems ss

/-- A list of texts, which are given as bytes, as a document on one line. In the document
    replacement characters stand for the bytes that are stray. -/
def writeTexts : Option (List (List UInt8)) → String
  | none => "null"
  | some texts => "[" ++ writeItems (texts.map Text.ofBytes) ++ "]"

end KernelReach.Json
