import KernelReach.Text.Numeral
import KernelReach.Text.Utf8

/-!
# JSON documents

Documents whose objects keep the order of their fields, and their two written forms: on one line
without blanks, and with one item a line, indented by two blanks a level. In strings the characters
that have a meaning in HTML are escaped as well, so that a document can stand inside a page.
-/

namespace KernelReach

/-- A JSON document. -/
inductive Json
  | null
  | bool (b : Bool)
  /-- A number, as it is written. -/
  | number (literal : String)
  | string (s : String)
  | array (items : List Json)
  | object (fields : List (String × Json))
  deriving Repr, Inhabited

namespace Json

def int (n : Int) : Json := number (Text.integer n)

def list {α : Type} (f : α → Json) (xs : List α) : Json := array (xs.map f)

/-- A list of items, or null if there is none. -/
def listOrNull {α : Type} (f : α → Json) : Option (List α) → Json
  | some xs => list f xs
  | none => null

/-- A field with a text; no field at all if the text is empty. -/
def textField (name : String) (s : String) : List (String × Json) :=
  if s = "" then [] else [(name, string s)]

def escape (c : Char) : String :=
  match c with
  | '"' => "\\\""
  | '\\' => "\\\\"
  | '\n' => "\\n"
  | '\r' => "\\r"
  | '\t' => "\\t"
  | c =>
    let n := c.toNat
    if n = 0x08 then "\\b"
    else if n = 0x0c then "\\f"
    else if n < 0x20 ∨ c = '<' ∨ c = '>' ∨ c = '&' ∨ n = 0x2028 ∨ n = 0x2029 then
      "\\u" ++ Text.hexadecimal 4 n
    else String.singleton c

/-- A text as a string of a document, from which it can be read again. -/
def encode (s : String) : String := "\"" ++ String.join (s.toList.map escape) ++ "\""

/-- A text as a string of a document that is shown. -/
def quote (s : String) : String := encode (Text.shown s)

mutual

/-- The document on one line. -/
def compact : Json → String
  | null => "null"
  | bool b => if b then "true" else "false"
  | number literal => literal
  | string s => quote s
  | array items => "[" ++ compactItems items ++ "]"
  | object fields => "\x7b" ++ compactFields fields ++ "\x7d"

/-- Items with commas between them. -/
def compactItems : List Json → String
  | [] => ""
  | [x] => compact x
  | x :: xs => compact x ++ "," ++ compactItems xs

/-- Fields with commas between them. -/
def compactFields : List (String × Json) → String
  | [] => ""
  | [(k, v)] => quote k ++ ":" ++ compact v
  | (k, v) :: fs => quote k ++ ":" ++ compact v ++ "," ++ compactFields fs

end

def newLine (level : Nat) : String := "\n" ++ String.ofList (List.replicate (2 * level) ' ')

mutual

/-- The document with one item a line, its first line standing at a level. -/
def indentedAt (level : Nat) : Json → String
  | array items =>
    match items with
    | [] => "[]"
    | x :: xs => "[" ++ indentedItems (level + 1) (x :: xs) ++ newLine level ++ "]"
  | object fields =>
    match fields with
    | [] => "\x7b\x7d"
    | f :: fs => "\x7b" ++ indentedFields (level + 1) (f :: fs) ++ newLine level ++ "\x7d"
  | other => compact other

/-- Items, each on a line of its own. -/
def indentedItems (level : Nat) : List Json → String
  | [] => ""
  | [x] => newLine level ++ indentedAt level x
  | x :: xs => newLine level ++ indentedAt level x ++ "," ++ indentedItems level xs

/-- Fields, each on a line of its own. -/
def indentedFields (level : Nat) : List (String × Json) → String
  | [] => ""
  | [(k, v)] => newLine level ++ quote k ++ ": " ++ indentedAt level v
  | (k, v) :: fs =>
    newLine level ++ quote k ++ ": " ++ indentedAt level v ++ "," ++ indentedFields level fs

end

/-- The document with one item a line. -/
def indented (j : Json) : String := indentedAt 0 j

end Json

end KernelReach
