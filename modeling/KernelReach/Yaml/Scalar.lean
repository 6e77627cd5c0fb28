import KernelReach.Text.Numeral
import KernelReach.Yaml.Glyph

/-!
# Scalars

The text of a scalar in each of the styles in which it can be written. A scalar may run over several
lines: a single line break in it is read as a blank, and of several the first is dropped. Only a
literal block keeps its lines. Every reader is given the line on which the scalar starts, which
messages name.
-/

namespace KernelReach.Yaml

/-- What stands between two words of a scalar. -/
inductive Gap
  /-- Blanks, the last one first; none at all if the words touch. -/
  | blanks (reversed : List Char)
  /-- A line break, which may be hidden by an escape, and the breaks after it, the last one first.
      -/
  | breaks (first : Option Char) (reversed : List Char)
  deriving DecidableEq, Repr

namespace Gap

def none : Gap := blanks []

/-- Whether the gap ends a line. -/
def isBreak : Gap → Bool
  | blanks _ => false
  | breaks _ _ => true

/-- The gap with one more blank. Blanks at the start of a line do not count. -/
def addBlank (c : Char) : Gap → Gap
  | blanks cs => blanks (c :: cs)
  | g => g

/-- The gap with one more line break. Blanks at the end of a line do not count. -/
def addBreak (c : Char) : Gap → Gap
  | blanks _ => breaks (some c) []
  | breaks first cs => breaks first (c :: cs)

def text : Gap → List Char
  | blanks cs => cs.reverse
  | breaks (some '\n') [] => [' ']
  | breaks (some '\n') cs => cs.reverse
  | breaks (some c) cs => c :: cs.reverse
  | breaks Option.none cs => cs.reverse

end Gap

/-- What was read of a scalar and what comes after it. -/
structure Scanned where
  text : String
  /-- Whether lines were ended after the last word. -/
  endsLine : Bool
  rest : List Glyph

/-! ### Plain scalars -/

/-- Whether a plain scalar ends before this character. -/
def endsPlain (inFlow : Bool) (c next : Char) : Bool :=
  (c == ':' && isGapOrEnd next)
    || (inFlow && (c == ',' || c == '?' || c == '[' || c == ']' || c == '\x7b' || c == '\x7d'))

/-- Reads on in a plain scalar whose lines are indented by at least `indent`. -/
def scanPlain (start : Nat) (inFlow : Bool) (indent : Nat) (read : List Char) (gap : Gap) :
    List Glyph → Except Fault Scanned
  | [] => .ok ⟨String.ofList read.reverse, gap.isBreak, []⟩
  | g :: rest =>
    if isSpace g.char then
      if gap.isBreak && g.char == '\t' && g.column < indent then
        tokenFault .tabInPlain start (g :: rest)
      else scanPlain start inFlow indent read (gap.addBlank g.char) rest
    else if isBreak g.char then scanPlain start inFlow indent read (gap.addBreak g.char) rest
    else if g.char == endMark || endsPlain inFlow g.char (front rest)
        || (gap != .none
          && ((!inFlow && g.column < indent) || g.char == '#' || isDocumentEdge (g :: rest))) then
      .ok ⟨String.ofList read.reverse, gap.isBreak, g :: rest⟩
    else scanPlain start inFlow indent (g.char :: (gap.text.reverse ++ read)) .none rest

/-! ### Quoted scalars -/

/-- The character that an escape of one letter stands for. -/
def simpleEscape? : Char → Option Char
  | '0' => some '\x00'
  | 'a' => some '\x07'
  | 'b' => some '\x08'
  | 't' | '\t' => some '\t'
  | 'n' => some '\n'
  | 'v' => some '\x0b'
  | 'f' => some '\x0c'
  | 'r' => some '\r'
  | 'e' => some '\x1b'
  | ' ' => some ' '
  | '"' => some '"'
  | '\'' => some '\''
  | '\\' => some '\\'
  | 'N' => some '\u0085'
  | '_' => some '\u00a0'
  | 'L' => some '\u2028'
  | 'P' => some '\u2029'
  | _ => none

/-- The number of digits in an escape that gives the code of a character. -/
def codeLength? : Char → Option Nat
  | 'x' => some 2
  | 'u' => some 4
  | 'U' => some 8
  | _ => none

/-- The character with a code, unless the code is not that of a character. -/
def ofCode? (n : Nat) : Option Char :=
  if n.isValidChar then some (Char.ofNat n) else none

/-- Where in a double-quoted scalar the reader is. -/
inductive QuotedPart
  | words
  /-- After a backslash. -/
  | escape
  /-- In the code of a character, of which some digits are left. -/
  | code (left value : Nat)

def scanDouble (start : Nat) (read : List Char) (gap : Gap) :
    QuotedPart → List Glyph → Except Fault Scanned
  | _, [] => tokenFault .endInQuotes start []
  | .escape, g :: rest =>
    if isBreak g.char then scanDouble start read (.breaks Option.none []) .words rest
    else match simpleEscape? g.char, codeLength? g.char with
      | some c, _ => scanDouble start (c :: read) .none .words rest
      | Option.none, some n => scanDouble start read .none (.code n 0) rest
      | Option.none, Option.none => tokenFault .unknownEscape start (g :: rest)
  | .code left value, g :: rest =>
    match Text.hexDigit? g.char with
    | Option.none => tokenFault .badCode start (g :: rest)
    | some d =>
      let value := 16 * value + d
      if left ≤ 1 then
        match ofCode? value with
        | some c => scanDouble start (c :: read) .none .words rest
        | Option.none => tokenFault .codeOutOfRange start (g :: rest)
      else scanDouble start read .none (.code (left - 1) value) rest
  | .words, g :: rest =>
    if g.char == endMark then tokenFault .endInQuotes start (g :: rest)
    else if isDocumentEdge (g :: rest) then tokenFault .documentInQuotes start (g :: rest)
    else if isSpace g.char then scanDouble start read (gap.addBlank g.char) .words rest
    else if isBreak g.char then scanDouble start read (gap.addBreak g.char) .words rest
    else
      let read := gap.text.reverse ++ read
      if g.char == '"' then .ok ⟨String.ofList read.reverse, false, rest⟩
      else if g.char == '\\' then scanDouble start read .none .escape rest
      else scanDouble start (g.char :: read) .none .words rest

/-- Reads on in a single-quoted scalar, possibly after a quote that ends it unless another one
    follows. -/
def scanSingle (start : Nat) (read : List Char) (gap : Gap) (afterQuote : Bool) :
    List Glyph → Except Fault Scanned
  | [] => tokenFault .endInQuotes start []
  | g :: rest =>
    if afterQuote then
      if g.char == '\'' then scanSingle start ('\'' :: read) .none false rest
      else .ok ⟨String.ofList read.reverse, false, g :: rest⟩
    else if g.char == endMark then tokenFault .endInQuotes start (g :: rest)
    else if isDocumentEdge (g :: rest) then tokenFault .documentInQuotes start (g :: rest)
    else if isSpace g.char then scanSingle start read (gap.addBlank g.char) false rest
    else if isBreak g.char then scanSingle start read (gap.addBreak g.char) false rest
    else
      let read := gap.text.reverse ++ read
      if g.char == '\'' then scanSingle start read .none true rest
      else scanSingle start (g.char :: read) .none false rest

/-! ### Block scalars -/

/-- What becomes of the line breaks at the end of a block. -/
inductive Chomping
  | strip
  | clip
  | keep
  deriving DecidableEq, Repr

/-- What the first line of a block says. -/
structure BlockHeader where
  chomping : Chomping := .clip
  /-- The indentation below that of the surrounding text; 0 if the first line shows it. -/
  increment : Nat := 0

/-- What a character of the first line says about line breaks. -/
def chomping? : Char → Option Chomping
  | '+' => some .keep
  | '-' => some .strip
  | _ => none

/-- What a character of the first line says about the indentation. -/
def increment? (c : Char) : Option Nat :=
  if '0' ≤ c ∧ c ≤ '9' then some (c.toNat - '0'.toNat) else none

/-- Reads the indicators of a block: one for line breaks and one for the indentation, in any order.
    -/
def blockHeader (start : Nat) (gs : List Glyph) : Except Fault (BlockHeader × List Glyph) :=
  let digit (h : BlockHeader) (gs : List Glyph) : Except Fault (BlockHeader × List Glyph) :=
    match increment? (front gs) with
    | some 0 => tokenFault .zeroIndentation start gs
    | some n => .ok ({ h with increment := n }, gs.drop 1)
    | none => .ok (h, gs)
  match chomping? (front gs) with
  | some c => digit { chomping := c } (gs.drop 1)
  | none => do
    let (h, gs) ← digit {} gs
    match chomping? (front gs) with
    | some c => if h.increment = 0 then .ok (h, gs) else .ok ({ h with chomping := c }, gs.drop 1)
    | none => .ok (h, gs)

/-- Skips the rest of the first line of a block, in which only a comment may stand. -/
def skipHeaderLine (start : Nat) (gs : List Glyph) : Except Fault (List Glyph) :=
  let gs := gs.dropWhile fun g => isSpace g.char
  let gs := if front gs == '#' then gs.dropWhile fun g => !isBreakOrEnd g.char else gs
  if isBreak (front gs) then .ok (gs.drop 1)
  else if front gs == endMark then .ok gs
  else tokenFault .blockHeaderGoesOn start gs

/-- Skips the indentation and the empty lines before the next line of a block. Gives the line
    breaks, the last one first, and the greatest column that was reached. -/
def skipEmptyLines (start : Nat) (indent : Option Nat) (breaks : List Char) (reached : Nat) :
    List Glyph → Except Fault (List Char × Nat × List Glyph)
  | [] => .ok (breaks, reached, [])
  | g :: rest =>
    let before := match indent with
      | some n => g.column < n
      | none => true
    let reached := max reached g.column
    if g.char == ' ' && before then skipEmptyLines start indent breaks reached rest
    else if g.char == '\t' && before then tokenFault .tabInBlock start (g :: rest)
    else if isBreak g.char then skipEmptyLines start indent (g.char :: breaks) reached rest
    else .ok (breaks, reached, g :: rest)

/-- A line break that separates two lines of a block, as text. In a folded block it is read as a
    blank unless one of the lines starts with a blank. -/
def foldBreak (literal afterBlank beforeBlank : Bool) (lineBreak breaks : List Char) : List Char :=
  if !literal && !afterBlank && !beforeBlank && lineBreak == ['\n'] then
    if breaks.isEmpty then [' '] else []
  else lineBreak

/-- Reads the lines of a block that are indented by `indent`. Gives the text, the last break and
    the breaks of the empty lines after it, all with the last character first. -/
def blockLines (start : Nat) (literal : Bool) (indent : Nat) : (fuel : Nat) → (afterBlank : Bool) →
    (read lineBreak breaks : List Char) → List Glyph →
    Except Fault (List Char × List Char × List Char × List Glyph)
  | 0, _, read, lineBreak, breaks, gs => .ok (read, lineBreak, breaks, gs)
  | fuel + 1, afterBlank, read, lineBreak, breaks, gs =>
    match gs with
    | [] => .ok (read, lineBreak, breaks, gs)
    | g :: _ =>
      if g.column ≠ indent || g.char == endMark then .ok (read, lineBreak, breaks, gs)
      else do
        let startsBlank := isSpace g.char
        let read := foldBreak literal afterBlank startsBlank lineBreak breaks ++ read
        let line := (gs.takeWhile fun g => !isBreakOrEnd g.char).map Glyph.char
        let rest := gs.dropWhile fun g => !isBreakOrEnd g.char
        let read := line.reverse ++ (breaks ++ read)
        let lineBreak := if isBreak (front rest) then [front rest] else []
        let rest := if isBreak (front rest) then rest.drop 1 else rest
        let (breaks, _, rest) ← skipEmptyLines start (some indent) [] 0 rest
        blockLines start literal indent fuel startsBlank read lineBreak breaks rest

/-- Reads a block after its first character, inside text that is indented by `outer`. -/
def scanBlock (start : Nat) (literal : Bool) (outer : Int) (gs : List Glyph) :
    Except Fault Scanned := do
  let (header, gs) ← blockHeader start gs
  let gs ← skipHeaderLine start gs
  let given := if header.increment = 0 then none
    else some (outer.toNat + header.increment)
  let (breaks, reached, gs) ← skipEmptyLines start given [] 0 gs
  let indent := given.getD (max (max reached (outer + 1).toNat) 1)
  let (read, lineBreak, breaks, rest) ←
    blockLines start literal indent gs.length false [] [] breaks gs
  let tail := match header.chomping with
    | .strip => []
    | .clip => lineBreak
    | .keep => breaks ++ lineBreak
  .ok ⟨String.ofList (tail ++ read).reverse, true, rest⟩

end KernelReach.Yaml
