import KernelReach.Text.Numeral

/-!
# Records

A record is a line of items with commas between them. An item may stand in double quotes; then it
may hold commas and ends of lines, and a quote in it is written twice. Of a text of several lines
only the first record is read, and lines without anything are passed over.
-/

namespace KernelReach.Text

/-- A place in a text: a line, and a byte in it, both counted from one. -/
structure Place where
  line : Nat := 1
  column : Nat := 1
  deriving DecidableEq, Repr

namespace Place

/-- The place after a character that does not end a line. -/
def after (p : Place) (c : Char) : Place := { p with column := p.column + c.utf8Size }

/-- The place after the end of a line. The next line begins only if there is something on it. -/
def afterLine (p : Place) (rest : List Char) : Place :=
  if rest.isEmpty then { p with column := p.column + 1 } else { line := p.line + 1, column := 1 }

end Place

/-- What is wrong with a record. -/
inductive RecordFault
  | noRecord
  /-- A quote in an item without quotes. -/
  | bareQuote (firstLine : Nat) (place : Place)
  /-- A quote inside of an item in quotes, or none at its end. -/
  | strayQuote (firstLine : Nat) (place : Place)
  deriving DecidableEq, Repr

def RecordFault.message : RecordFault → String
  | noRecord => "EOF"
  | bareQuote firstLine p => told firstLine p ++ "bare \" in non-quoted-field"
  | strayQuote firstLine p => told firstLine p ++ "extraneous or missing \" in quoted-field"
where
  /-- Where a fault is, in a record that begins on some line. -/
  told (firstLine : Nat) (p : Place) : String :=
    (if firstLine = p.line then "" else "record on line " ++ decimal 1 firstLine ++ "; ")
      ++ "parse error on line " ++ decimal 1 p.line ++ ", column " ++ decimal 1 p.column ++ ": "

/-- Where a record is being read. -/
inductive RecordState
  /-- Before an item. -/
  | before
  /-- In an item without quotes. -/
  | bare
  /-- In an item in quotes. -/
  | quoted
  deriving DecidableEq, Repr

/-- Reads a record from a place, after some characters of an item, which are in reverse. -/
def recordFrom (firstLine : Nat) : (state : RecordState) → (item : List Char) → Place → List Char →
    Except RecordFault (List String)
  | .quoted, _, p, [] => .error (.strayQuote firstLine p)
  | .quoted, item, p, '"' :: cs =>
    match cs with
    | '"' :: cs => recordFrom firstLine .quoted ('"' :: item) ((p.after '"').after '"') cs
    | ',' :: cs =>
      (recordFrom firstLine .before [] ((p.after '"').after ',') cs).map
        (String.ofList item.reverse :: ·)
    | [] | '\n' :: _ => .ok [String.ofList item.reverse]
    | _ => .error (.strayQuote firstLine p)
  | .quoted, item, p, c :: cs =>
    recordFrom firstLine .quoted (c :: item) (if c = '\n' then p.afterLine cs else p.after c) cs
  | .before, _, p, '"' :: cs => recordFrom firstLine .quoted [] (p.after '"') cs
  | .bare, _, p, '"' :: _ => .error (.bareQuote firstLine p)
  | _, item, p, ',' :: cs =>
    (recordFrom firstLine .before [] (p.after ',') cs).map (String.ofList item.reverse :: ·)
  | _, item, _, [] | _, item, _, '\n' :: _ => .ok [String.ofList item.reverse]
  | _, item, p, c :: cs => recordFrom firstLine .bare (c :: item) (p.after c) cs

/-- A text in which lines end as they do here: without a carriage return before the end of a line or
    of the text. -/
def plainLines : List Char → List Char
  | '\r' :: '\n' :: cs => '\n' :: plainLines cs
  | ['\r'] => []
  | c :: cs => c :: plainLines cs
  | [] => []

/-- The items of the first record of a text. -/
def record (s : String) : Except RecordFault (List String) :=
  let cs := plainLines s.toList
  let rest := cs.dropWhile (· == '\n')
  let line := cs.length - rest.length + 1
  if rest.isEmpty then .error .noRecord else recordFrom line .before [] { line } rest

end KernelReach.Text
