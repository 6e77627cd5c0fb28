import KernelReach.Time.Layout

/-!
# Loose timestamps

Documents may give a date, or a date and a time of day, with fields of one digit, without a fraction
and without an offset from universal time. Only whether a text is such a timestamp is told here.
-/

namespace KernelReach.Time

/-- Reads a date whose month and day may have one digit. -/
def readLooseDate (cs : List Char) : Except LayoutFault (Date × List Char) := do
  let (year, cs) ← readYear cs
  let ((), cs) ← literal '-' cs
  let (month, cs) ← readRanged true "1" "month" 1 12 cs
  let ((), cs) ← literal '-' cs
  let (day, cs) ← readTwo true "2" cs
  pure (⟨year, month, day⟩, cs)

/-- Reads a time of day whose fields may have one digit, with or without a fraction. -/
def readLooseTime (cs : List Char) : Except LayoutFault (List Char) := do
  let (_, cs) ← readRanged true "15" "hour" 0 23 cs
  let ((), cs) ← literal ':' cs
  let (_, cs) ← readRanged true "4" "minute" 0 59 cs
  let ((), cs) ← literal ':' cs
  let (_, cs) ← readRanged true "5" "second" 0 59 cs
  match cs with
  | point :: rest =>
    let digits := rest.takeWhile Char.isDigit
    pure (if (point == '.' || point == ',') && !digits.isEmpty then rest.drop digits.length else cs)
  | [] => pure []

/-- What may follow a date: nothing, blanks and a time of day, or a time of day with an offset. -/
def readAfterDate : List Char → Except LayoutFault (List Char)
  | [] => pure []
  | ' ' :: cs => readLooseTime (cs.dropWhile (· == ' '))
  | 'T' :: cs | 't' :: cs => do
    let cs ← readLooseTime cs
    (readZone cs).map Prod.snd
  | cs => failAt "T" cs

def isLoose (text : String) : Bool :=
  match readLooseDate text.toList with
  | .error _ => false
  | .ok (date, rest) => date.isValid && (readAfterDate rest).toOption == some []

end KernelReach.Time
