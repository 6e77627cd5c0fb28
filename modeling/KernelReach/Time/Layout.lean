import KernelReach.Text.Quoted
import KernelReach.Time.Timestamp

/-!
# Reading timestamps

The stored form of a timestamp is read field by field. A text that does not have the form is
refused with the field at which it fails and the rest of the text, or with the field whose value is
out of its range. Documents are read by the same rules, except that the fraction has any number of
digits or is left out.
-/

namespace KernelReach.Time

/-- Why a text is not a timestamp. -/
inductive LayoutFault
  /-- At the text `rest` the field `field` was expected. -/
  | mismatch (rest field : String)
  /-- The value of a field is out of its range. -/
  | outOfRange (what : String)
  /-- The text goes on after the timestamp. -/
  | extraText (rest : String)
  deriving DecidableEq, Repr

namespace LayoutFault

/-- The stored form, written as the text of one particular instant. -/
def storedLayout : String := "2006-01-02T15:04:05.000000000Z07:00"

/-- The text of the failure to read `text` in the stored form. -/
def message (text : String) : LayoutFault → String
  | mismatch rest field =>
    "parsing time " ++ Text.quoteAscii text ++ " as " ++ Text.quoteAscii storedLayout
      ++ ": cannot parse " ++ Text.quoteAscii rest ++ " as " ++ Text.quoteAscii field
  | outOfRange what => "parsing time " ++ Text.quoteAscii text ++ ": " ++ what ++ " out of range"
  | extraText rest =>
    "parsing time " ++ Text.quoteAscii text ++ ": extra text: " ++ Text.quoteAscii rest

end LayoutFault

/-- A step of reading: a value and the rest of the text. -/
abbrev FieldReader (α : Type) := List Char → Except LayoutFault (α × List Char)

def digit? (c : Char) : Option Nat :=
  if '0' ≤ c ∧ c ≤ '9' then some (c.toNat - '0'.toNat) else none

/-- The value of a text of decimal digits. -/
def digits? (cs : List Char) : Option Nat :=
  cs.foldlM (fun n c => (digit? c).map (10 * n + ·)) 0

/-- The value of a text of decimal digits that may have a sign. -/
def signedDigits? : List Char → Option Int
  | '-' :: cs => if cs = [] then none else (digits? cs).map fun n => -(n : Int)
  | '+' :: cs => if cs = [] then none else (digits? cs).map Int.ofNat
  | cs => if cs = [] then none else (digits? cs).map Int.ofNat

/-- Refuses the text at a field. -/
def failAt {α : Type} (field : String) (rest : List Char) : Except LayoutFault α :=
  .error (.mismatch (String.ofList rest) field)

/-- Reads one character that has to be there. -/
def literal (c : Char) : FieldReader Unit := fun cs =>
  match cs with
  | d :: rest => if d = c then .ok ((), rest) else failAt (String.singleton c) cs
  | [] => failAt (String.singleton c) cs

def readYear : FieldReader Int := fun cs =>
  match cs with
  | a :: b :: c :: d :: rest =>
    match digits? [a, b, c, d] with
    | some y => .ok (Int.ofNat y, rest)
    | none => failAt "2006" cs
  | _ => failAt "2006" cs

/-- Reads a number of two digits, or of one digit where that is allowed. -/
def readTwo (single : Bool) (field : String) : FieldReader Nat := fun cs =>
  match cs with
  | a :: b :: rest =>
    match digit? a, digit? b with
    | some m, some n => .ok (10 * m + n, rest)
    | some m, none => if single then .ok (m, b :: rest) else failAt field cs
    | none, _ => failAt field cs
  | [a] =>
    match digit? a with
    | some m => if single then .ok (m, []) else failAt field cs
    | none => failAt field cs
  | [] => failAt field cs

/-- Reads a number of two digits that lies in a range. -/
def readRanged (single : Bool) (field what : String) (low high : Nat) : FieldReader Nat := fun cs =>
  match readTwo single field cs with
  | .ok (n, rest) => if low ≤ n ∧ n ≤ high then .ok (n, rest) else .error (.outOfRange what)
  | .error e => .error e

/-- Reads a fraction of exactly nine digits. -/
def readFraction : FieldReader (Fin nanosPerSecond) := fun cs =>
  let field := ".000000000"
  match cs with
  | point :: digits =>
    if (point = '.' ∨ point = ',') ∧ 9 ≤ digits.length then
      match signedDigits? (digits.take 9) with
      | some n =>
        if n < 0 then .error (.outOfRange "fractional second")
        else .ok (nanosOf n.toNat, digits.drop 9)
      | none => failAt field cs
    else failAt field cs
  | [] => failAt field cs

/-- The first bytes of a text, each as a character. -/
def firstBytes (n : Nat) (cs : List Char) : List Char :=
  ((Text.toBytes (String.ofList (cs.take n))).take n).map fun b => Char.ofNat b.toNat

/-- Reads an offset from universal time, in minutes. It takes six bytes, of which the fourth is a
    colon. -/
def readZone : FieldReader Int := fun cs =>
  let field := "Z07:00"
  match cs, firstBytes 6 cs with
  | 'Z' :: rest, _ => .ok (0, rest)
  | cs, [sign, a, b, ':', c, d] =>
    let hours := digits? [a, b]
    let minutes := if hours.isSome then digits? [c, d] else none
    if 60 < minutes.getD 0 then .error (.outOfRange "time zone offset minute")
    else if 24 < hours.getD 0 then .error (.outOfRange "time zone offset hour")
    else match hours, minutes, sign with
      | some h, some m, '+' => .ok (Int.ofNat (60 * h + m), cs.drop 6)
      | some h, some m, '-' => .ok (-Int.ofNat (60 * h + m), cs.drop 6)
      | _, _, _ => failAt field cs
  | cs, _ => failAt field cs

/-- Reads the date and the time of day. -/
def readClock (cs : List Char) : Except LayoutFault (ClockTime × List Char) := do
  let (year, cs) ← readYear cs
  let ((), cs) ← literal '-' cs
  let (month, cs) ← readRanged false "01" "month" 1 12 cs
  let ((), cs) ← literal '-' cs
  let (day, cs) ← readTwo false "02" cs
  let ((), cs) ← literal 'T' cs
  let (hour, cs) ← readRanged true "15" "hour" 0 23 cs
  let ((), cs) ← literal ':' cs
  let (minute, cs) ← readRanged false "04" "minute" 0 59 cs
  let ((), cs) ← literal ':' cs
  let (second, cs) ← readRanged false "05" "second" 0 59 cs
  pure (⟨⟨year, month, day⟩, hour, minute, second⟩, cs)

/-- The timestamp of all fields, if nothing follows them and the day exists. -/
def assemble (c : ClockTime) (nanos : Fin nanosPerSecond) (offset : Int) (rest : List Char) :
    Except LayoutFault Timestamp :=
  if rest ≠ [] then .error (.extraText (String.ofList rest))
  else if c.date.day < 1 ∨ daysIn c.date.year c.date.month < c.date.day then
    .error (.outOfRange "day")
  else .ok (.ofClock c nanos offset)

/-- Reads a timestamp in the stored form. -/
def Timestamp.ofStored (text : String) : Except LayoutFault Timestamp := do
  let (c, cs) ← readClock text.toList
  let (nanos, cs) ← readFraction cs
  let (offset, cs) ← readZone cs
  assemble c nanos offset cs

/-- Reads the fraction of a document's timestamp: a point and digits, of which the first nine
    count, or nothing. -/
def readFreeFraction (cs : List Char) : Fin nanosPerSecond × List Char :=
  match cs with
  | '.' :: rest =>
    let digits := rest.takeWhile fun c => (digit? c).isSome
    if digits = [] then (nanosOf 0, cs)
    else
      let nine := (digits ++ List.replicate 9 '0').take 9
      (nanosOf ((digits? nine).getD 0), rest.drop digits.length)
  | _ => (nanosOf 0, cs)

/-- Reads a timestamp as documents show it. -/
def Timestamp.ofText (text : String) : Except LayoutFault Timestamp := do
  let (c, cs) ← readClock text.toList
  let (nanos, cs) := readFreeFraction cs
  let (offset, cs) ← readZone cs
  assemble c nanos offset cs

end KernelReach.Time
