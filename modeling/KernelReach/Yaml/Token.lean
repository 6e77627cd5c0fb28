import KernelReach.Yaml.Property
import KernelReach.Yaml.Scalar

/-!
# Tokens

A YAML text as a queue of tokens that is filled as it is read. Layout becomes brackets here: a block
collection starts where a line is indented deeper than the text around it and ends where the
indentation goes back.

Whether a scalar is the key of a mapping is only known at the colon after it. The place of a
possible key is therefore kept, and the tokens that mark it are put in at that place later. A
possible key has to end on the line on which it starts, within `maxKeyLength` characters.

Tokens are read `lookahead` places in advance, and further while the first of them may be a key, so
a fault of a token is found even if nothing asks for that token. How far the text was looked at is
counted, because a fault of the characters shows only there.
-/

namespace KernelReach.Yaml

/-- A token. -/
inductive Token
  | streamStart
  | streamEnd
  | directive (d : Directive)
  | documentStart
  | documentEnd
  | blockSequenceStart
  | blockMappingStart
  | blockEnd
  | flowSequenceStart
  | flowSequenceEnd
  | flowMappingStart
  | flowMappingEnd
  | blockEntry
  | flowEntry
  | key
  | value
  | reference (name : String)
  | anchor (name : String)
  | tag (t : TagText)
  /-- A scalar; a plain one is not quoted and not a block. -/
  | scalar (text : String) (plain : Bool)
  deriving DecidableEq, Repr

/-- A token and the line on which it starts. -/
structure Lexeme where
  token : Token
  line : Nat
  deriving Repr

/-- The place of a possible key. -/
structure KeyPlace where
  /-- Whether a key may still be here. -/
  possible : Bool := false
  /-- Whether only a key can stand here. -/
  required : Bool := false
  /-- The number of tokens before it. -/
  token : Nat := 0
  start : Glyph := default
  deriving Repr, Inhabited

/-- The longest text in which the colon after a key is looked for. -/
def maxKeyLength : Nat := 1024

/-- The greatest number of collections inside each other. -/
def maxDepth : Nat := 10000

/-- The number of tokens that are read in advance. -/
def lookahead : Nat := 2

/-- The number of characters in which the next comment is looked for. -/
def commentReach : Nat := 512

/-- What is known about a text before it is scanned. -/
structure Source where
  /-- The number of characters that can be read. -/
  size : Nat := 0
  /-- The number of them in the first piece. -/
  firstSize : Nat := 0
  /-- Whether the first of them is a mark of the encoding. -/
  isMarked : Bool := false
  /-- What is wrong with the characters after them. -/
  fault : Option Fault := none

/-- What is known after some tokens. -/
structure Scan where
  source : Source := {}
  /-- The number of characters that were looked at. -/
  seen : Nat := 0
  /-- The text that is left. -/
  rest : List Glyph
  /-- The tokens that were read and not yet taken. -/
  queue : List Lexeme := []
  /-- The number of tokens that were taken. -/
  taken : Nat := 0
  /-- Whether the token for the start of the text was read. -/
  started : Bool := false
  /-- The number of open flow collections. -/
  flow : Nat := 0
  /-- The indentation of the innermost block collection, -1 outside of all. -/
  indent : Int := -1
  /-- The indentations around it. -/
  outer : List Int := []
  /-- Whether a key may start here. -/
  keyAllowed : Bool := true
  /-- The place for a key in the block and in each open flow collection, the innermost one last. -/
  keys : Array KeyPlace := #[{}]
  /-- Which of these places a token may start, by the number of the token. -/
  keyOfToken : List (Nat × Nat) := []

namespace Scan

def line (s : Scan) : Nat := lineOf s.rest

/-- The place that is read. -/
def here (s : Scan) : Glyph := s.rest.headD default

/-- The greatest number of glyphs that can be left. -/
def fuel (s : Scan) : Nat := s.source.size + 1

/-- Refuses the text at a token that starts on a line. -/
def refuse {α : Type} (s : Scan) (p : Problem) (start : Nat) : Except Fault α :=
  tokenFault p start s.rest

/-- The number of the next token that is read. -/
def nextToken (s : Scan) : Nat := s.taken + s.queue.length

def emit (s : Scan) (line : Nat) (t : Token) : Scan := { s with queue := s.queue ++ [⟨t, line⟩] }

/-- Skips so many characters. -/
def skip (s : Scan) (n : Nat) : Scan := { s with rest := s.rest.drop n }

/-- Looks at the next so many characters. -/
def look (s : Scan) (n : Nat) : Scan := { s with seen := max s.seen (s.here.index + n) }

/-- Refuses the text if it was looked at where it cannot be read. -/
def checked (s : Scan) : Except Fault Scan :=
  match s.source.fault with
  | some f => if s.source.size < s.seen then .error f else .ok s
  | none => .ok s

/-! ### Possible keys -/

/-- The place for a key in the innermost collection. -/
def key (s : Scan) : KeyPlace := s.keys.back?.getD {}

/-- Changes the place for a key in the innermost collection. -/
def setKey (s : Scan) (k : KeyPlace) : Scan := { s with keys := s.keys.pop.push k }

/-- Forgets that a token may start a key. -/
def forgetToken (s : Scan) (token : Nat) : Scan :=
  { s with keyOfToken := s.keyOfToken.filter fun e => e.1 != token }

/-- Gives up the current possible key. -/
def dropKey (s : Scan) : Except Fault Scan :=
  if !s.key.possible then .ok s
  else if s.key.required then s.refuse .missingColon s.key.start.line
  else .ok ((s.setKey { s.key with possible := false }).forgetToken s.key.token)

/-- Keeps the place of a possible key. -/
def saveKey (s : Scan) : Except Fault Scan :=
  if s.keyAllowed then do
    let place : KeyPlace := {
      possible := true, token := s.nextToken, start := s.here
      required := s.flow == 0 && s.indent == (s.here.column : Int) }
    let s ← s.dropKey
    let s := s.setKey place
    .ok { s with keyOfToken := (place.token, s.keys.size - 1) :: s.keyOfToken }
  else .ok s

/-- Whether a key may still be at a place, now that the text has gone on. -/
def keyHolds (s : Scan) (level : Nat) : Except Fault (Bool × Scan) :=
  match s.keys[level]? with
  | none => .ok (false, s)
  | some k =>
    if !k.possible then .ok (false, s)
    else if k.start.line < s.line || k.start.index + maxKeyLength < s.here.index then
      if k.required then s.refuse .missingColon k.start.line
      else .ok (false, { s with keys := s.keys.setIfInBounds level { k with possible := false } })
    else .ok (true, s)

/-! ### Indentation -/

/-- Opens a block collection at a column unless one is open there. Its token goes before the token
    with the given number, or to the end. -/
def roll (s : Scan) (start : Glyph) (t : Token) (place : Option Nat) : Except Fault Scan :=
  if s.flow == 0 && s.indent < (start.column : Int) then
    let entry : Lexeme := ⟨t, start.line⟩
    let queue := match place with
      | some n => s.queue.take (n - s.taken) ++ entry :: s.queue.drop (n - s.taken)
      | none => s.queue ++ [entry]
    if maxDepth ≤ s.outer.length then s.refuse (.tooDeep maxDepth) s.key.start.line
    else .ok { s with queue, indent := start.column, outer := s.indent :: s.outer }
  else .ok s

/-- Closes the block collections that are indented deeper than a column. -/
def unrollFrom (line : Nat) (column : Int) : (outer : List Int) → Scan → Scan
  | [], s => s
  | i :: is, s =>
    if column < s.indent then
      unrollFrom line column is { s.emit line .blockEnd with indent := i, outer := is }
    else s

/-- Closes the block collections that are indented deeper than a column. -/
def unroll (s : Scan) (line : Nat) (column : Int) : Scan :=
  if s.flow == 0 then unrollFrom line column s.outer s else s

/-! ### Gaps -/

/-- Skips a comment and the comments after it, between which only blanks and line breaks of one byte
    stand, and not more than are looked at. The end of the last comment's line stays. -/
def skipComments : (fuel : Nat) → Scan → Scan
  | 0, s => s
  | fuel + 1, s =>
    let ended := skipLine s.rest
    let next := ended.dropWhile fun g => !g.isWide && (isSpace g.char || isBreak g.char)
    let gap := indexOf next - indexOf ended
    let s := { s with rest := ended }.look (min (gap + 1) commentReach)
    if front next == '#' && gap < commentReach then skipComments fuel { s with rest := next } else s

/-- Skips a comment that follows a token on its line. -/
def skipLineComment (s : Scan) : Scan :=
  let next := skipSpaces s.rest
  let gap := indexOf next - s.here.index
  let s := s.look (min (gap + 1) commentReach)
  if front next == '#' && gap < commentReach then { s with rest := skipLine next }.look 1 else s

/-- The glyphs after a line break that is read as a part of its line. -/
def joined (line : Nat) (gs : List Glyph) : List Glyph :=
  gs.map fun g => { g with
    line := g.line - 1
    column := if g.line = line + 1 then g.column + 1 else g.column }

/-- Skips a mark of the encoding at the start of a line. The mark is looked for where the text that
    is kept starts, and so after a first mark every line of the first piece loses a character. -/
def skipMark (s : Scan) : Scan :=
  if s.source.isMarked && s.here.column == 0 && (s.look 1).seen ≤ s.source.firstSize then
    match s.rest with
    | [] => s
    | g :: rest =>
      if !isBreak g.char then s.skip 1
      else if indexOf rest = g.index + 2 then
        { s with rest := { g with column := 1, index := g.index + 1 } :: rest }
      else { s with rest := joined g.line rest }
  else s

/-- Whether a character is skipped before a token. A tab may not stand where a key may start. -/
def isSkipped (s : Scan) (c : Char) : Bool :=
  c == ' ' || (c == '\t' && (s.flow != 0 || !s.keyAllowed))

/-- Skips blanks, comments and line breaks. After a line break in a block a key may start. -/
def skipGap : (fuel : Nat) → Scan → Scan
  | 0, s => s
  | fuel + 1, s =>
    let s := s.skipMark
    let s := { s with rest := s.rest.dropWhile fun g => s.isSkipped g.char }.look 1
    let s := if front s.rest == '#' then skipComments s.fuel s else s
    if isBreak (front s.rest) then
      skipGap fuel { (s.look 2).skip 1 with keyAllowed := s.keyAllowed || s.flow == 0 }
    else s

/-! ### Single tokens -/

/-- The end of the text, on a line of its own. -/
def finish (s : Scan) : Except Fault Scan := do
  let line := if s.here.column = 0 then s.line else s.line + 1
  let s := { s with rest := [{ s.here with line, column := 0 }] }
  let s ← (s.unroll line (-1)).dropKey
  .ok { s.emit line .streamEnd with keyAllowed := false }

def addDirective (s : Scan) : Except Fault Scan := do
  let s ← (s.unroll s.line (-1)).dropKey
  let (d, rest) ← scanDirective s.line (s.rest.drop 1)
  .ok { s.emit s.line (.directive d) with rest, keyAllowed := false }

/-- The start or the end of a document. -/
def addDocument (s : Scan) (t : Token) : Except Fault Scan := do
  let s ← (s.unroll s.line (-1)).dropKey
  .ok { (s.emit s.line t).skip 3 with keyAllowed := false }

/-- The start of a flow collection. -/
def openFlow (s : Scan) (t : Token) : Except Fault Scan := do
  let s ← s.saveKey
  let place : KeyPlace := { token := s.nextToken, start := s.here }
  if maxDepth ≤ s.flow then s.refuse (.tooDeep maxDepth) s.line
  else .ok { (s.emit s.line t).skip 1 with
    flow := s.flow + 1, keys := s.keys.push place, keyAllowed := true }

/-- The end of a flow collection. -/
def closeFlow (s : Scan) (t : Token) : Except Fault Scan := do
  let s ← s.dropKey
  let s := if s.flow == 0 then s
    else { s.forgetToken s.key.token with flow := s.flow - 1, keys := s.keys.pop }
  .ok { (s.emit s.line t).skip 1 with keyAllowed := false }

def addFlowEntry (s : Scan) : Except Fault Scan := do
  let s ← s.dropKey
  .ok { (s.emit s.line .flowEntry).skip 1 with keyAllowed := true }

/-- The dash before an item. -/
def addBlockEntry (s : Scan) : Except Fault Scan := do
  if s.flow == 0 && !s.keyAllowed then s.refuse .entryNotAllowed s.line
  else
    let s ← (← s.roll s.here .blockSequenceStart none).dropKey
    .ok { (s.emit s.line .blockEntry).skip 1 with keyAllowed := true }

/-- The question mark before a key. -/
def addKey (s : Scan) : Except Fault Scan := do
  if s.flow == 0 && !s.keyAllowed then s.refuse .keyNotAllowed s.line
  else
    let s ← (← s.roll s.here .blockMappingStart none).dropKey
    .ok { (s.emit s.line .key).skip 1 with keyAllowed := s.flow == 0 }

/-- The colon before a value. -/
def addValue (s : Scan) : Except Fault Scan := do
  let (holds, s) ← s.keyHolds (s.keys.size - 1)
  if holds then
    let k := s.key
    let place := k.token - s.taken
    let mark : Lexeme := ⟨.key, k.start.line⟩
    let s := { s with queue := s.queue.take place ++ mark :: s.queue.drop place }
    let s ← s.roll k.start .blockMappingStart (some k.token)
    let s := (s.setKey { k with possible := false }).forgetToken k.token
    .ok { (s.emit s.line .value).skip 1 with keyAllowed := false }
  else if s.flow == 0 && !s.keyAllowed then s.refuse .valueNotAllowed s.line
  else
    let s ← s.roll s.here .blockMappingStart none
    .ok { (s.emit s.line .value).skip 1 with keyAllowed := s.flow == 0 }

def addAnchor (s : Scan) (t : String → Token) : Except Fault Scan := do
  let s ← s.saveKey
  let (name, rest) ← scanAnchor s.line (s.rest.drop 1)
  .ok ({ s.emit s.line (t name) with rest, keyAllowed := false }.look 1)

/-- The type of a value. -/
def addTag (s : Scan) : Except Fault Scan := do
  let s ← s.saveKey
  let (t, rest) ← scanTag s.line s.rest
  .ok ({ s.emit s.line (.tag t) with rest, keyAllowed := false }.look 1)

def addQuoted (s : Scan) (single : Bool) : Except Fault Scan := do
  let s ← s.saveKey
  let body := s.rest.drop 1
  let r ← if single then scanSingle s.line [] .none false body
    else scanDouble s.line [] .none .words body
  .ok { s.emit s.line (.scalar r.text false) with rest := r.rest, keyAllowed := false }

/-- A plain scalar. Gives also whether it ends its line. -/
def addPlain (s : Scan) : Except Fault (Bool × Scan) := do
  let s ← s.saveKey
  let r ← scanPlain s.line (s.flow != 0) (s.indent + 1).toNat [] .none s.rest
  let s := { s.emit s.line (.scalar r.text true) with rest := r.rest, keyAllowed := r.endsLine }
  .ok (r.endsLine, s.look (if r.endsLine then 1 else 2))

def addBlockScalar (s : Scan) (literal : Bool) : Except Fault Scan := do
  let s ← s.dropKey
  let r ← scanBlock s.line literal s.indent (s.rest.drop 1)
  .ok ({ s.emit s.line (.scalar r.text false) with rest := r.rest, keyAllowed := true }.look 1)

/-- The characters with which no plain scalar starts. -/
def indicators : List Char :=
  ['-', '?', ':', ',', '[', ']', '\x7b', '\x7d', '#', '&', '*', '!', '|', '>', '\'', '"', '%', '@',
    '\x60']

/-- Whether a plain scalar starts with a character. -/
def startsPlain (s : Scan) (c next : Char) : Bool :=
  (!isGapOrEnd c && !indicators.contains c) || (c == '-' && !isSpace next)
    || (s.flow == 0 && (c == '?' || c == ':') && !isGapOrEnd next)

/-- Reads the token that starts here and the comment after it. A comment after a dash is left, and
    one after a scalar that ends its line is not on that line. -/
def addToken (s : Scan) : Except Fault Scan :=
  let c := front s.rest
  let after := front (s.rest.drop 1)
  let inLine (r : Except Fault Scan) : Except Fault Scan := r.map skipLineComment
  if c == '[' then inLine (s.openFlow .flowSequenceStart)
  else if c == '\x7b' then inLine (s.openFlow .flowMappingStart)
  else if c == ']' then inLine (s.closeFlow .flowSequenceEnd)
  else if c == '\x7d' then inLine (s.closeFlow .flowMappingEnd)
  else if c == ',' then inLine s.addFlowEntry
  else if c == '-' && isGapOrEnd after then s.addBlockEntry
  else if c == '?' && (s.flow != 0 || isGapOrEnd after) then inLine s.addKey
  else if c == ':' && (s.flow != 0 || isGapOrEnd after) then inLine s.addValue
  else if c == '*' then inLine (s.addAnchor .reference)
  else if c == '&' then inLine (s.addAnchor .anchor)
  else if c == '!' then inLine s.addTag
  else if c == '|' && s.flow == 0 then s.addBlockScalar true
  else if c == '>' && s.flow == 0 then s.addBlockScalar false
  else if c == '\'' then inLine (s.addQuoted true)
  else if c == '"' then inLine (s.addQuoted false)
  else if s.startsPlain c after then
    s.addPlain.map fun (endsLine, s) => if endsLine then s else s.skipLineComment
  else s.refuse .badToken s.line

/-- Reads the token after a gap. A fault of a token that ends where the text cannot be read is a
    fault of the text. -/
def addNext (s : Scan) : Except Fault Scan :=
  let added :=
    if front s.rest == endMark then s.finish
    else if s.here.column == 0 && front s.rest == '%' then s.addDirective
    else if isDocumentMark '-' s.rest then s.addDocument .documentStart
    else if isDocumentMark '.' s.rest then s.addDocument .documentEnd
    else s.addToken
  match added, s.source.fault with
  | .error e, some f => .error (if s.source.size ≤ e.index then f else e)
  | r, _ => r

/-- Reads one more token. -/
def fetch (s : Scan) : Except Fault Scan := do
  if !s.started then
    let s ← (s.look 1).checked
    .ok { s.emit s.line .streamStart with started := true }
  else
    let before := s.line
    let s ← ((skipGap s.fuel s).look 4).checked
    (← (s.unroll before s.here.column).addNext).checked

/-- Whether tokens have to be read before the first one can be taken. -/
def needsMore (s : Scan) : Except Fault (Bool × Scan) :=
  if s.queue.length ≤ lookahead then .ok (true, s)
  else match s.keyOfToken.lookup s.taken with
    | none => .ok (false, s)
    | some level => s.keyHolds level

/-- Reads tokens until the first one can be taken. -/
def fill : (fuel : Nat) → Scan → Except Fault Scan
  | 0, s => .ok s
  | fuel + 1, s => do
    let (more, s) ← s.needsMore
    if more then fill fuel (← s.fetch) else .ok s

/-- The first token that was not taken. -/
def peek (s : Scan) : Except Fault (Lexeme × Scan) := do
  let s ← fill (s.fuel + 2 * lookahead) s
  .ok (s.queue.headD ⟨.streamEnd, s.line⟩, s)

/-- Takes the first token. -/
def take (s : Scan) : Scan := { s with queue := s.queue.drop 1, taken := s.taken + 1 }

/-- The start of a file. -/
def ofBytes (bytes : List UInt8) : Scan :=
  let pieces := Pieces.ofBytes bytes
  let gs := pieces.glyphs
  { rest := gs
    source := {
      size := pieces.chars.length, firstSize := pieces.firstSize
      isMarked := front gs == '\ufeff', fault := pieces.fault } }

end Scan

end KernelReach.Yaml
