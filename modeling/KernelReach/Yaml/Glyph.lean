import KernelReach.Yaml.Character

/-!
# Glyphs

The layout of a YAML text carries meaning, so its characters are read together with their places.
A text becomes a list of glyphs that ends with a mark of its own, so that every place in the text,
the end included, has a column.
-/

namespace KernelReach.Yaml

/-- A character and its place. -/
structure Glyph where
  char : Char
  line : Nat
  column : Nat
  /-- The number of characters before it, of which a line break may be two. -/
  index : Nat
  /-- Whether it takes more than one byte of UTF-8. -/
  isWide : Bool := false
  deriving DecidableEq, Repr, Inhabited

/-- The character that marks the end of a text. No text contains it. -/
def endMark : Char := '\x00'

/-- A blank inside a line. -/
def isSpace (c : Char) : Bool := c == ' ' || c == '\t'

/-- A line break, once the breaks of the different systems have been made one. -/
def isBreak (c : Char) : Bool := c == '\n' || c == '\u2028' || c == '\u2029'

def isBreakOrEnd (c : Char) : Bool := isBreak c || c == endMark

/-- A blank, a line break or the end. -/
def isGapOrEnd (c : Char) : Bool := isSpace c || isBreakOrEnd c

/-- A letter or digit of a name. -/
def isNameChar (c : Char) : Bool :=
  ('0' ≤ c && c ≤ '9') || ('A' ≤ c && c ≤ 'Z') || ('a' ≤ c && c ≤ 'z') || c == '_' || c == '-'

/-! ### Places -/

/-- The glyphs of the characters from a place on, with one kind of line break for the breaks of the
    different systems. -/
def placed (line column index : Nat) : List Char → List Glyph
  | [] => [⟨endMark, line, column, index, false⟩]
  | '\r' :: '\n' :: cs => ⟨'\n', line, column, index, false⟩ :: placed (line + 1) 0 (index + 2) cs
  | c :: cs =>
    let shown := if c == '\r' || c == '\u0085' then '\n' else c
    ⟨shown, line, column, index, 0x80 ≤ c.toNat⟩ ::
      (if isBreak shown then placed (line + 1) 0 (index + 1) cs
       else placed line (column + 1) (index + 1) cs)

/-- The glyphs of what was read of a text. -/
def Pieces.glyphs (p : Pieces) : List Glyph := placed 0 0 0 p.chars

/-- The character at the start of a list of glyphs. -/
def front : List Glyph → Char
  | [] => endMark
  | g :: _ => g.char

def lineOf : List Glyph → Nat
  | [] => 0
  | g :: _ => g.line

/-- The number of characters before a list of glyphs. -/
def indexOf : List Glyph → Nat
  | [] => 0
  | g :: _ => g.index

/-- Whether a line that starts or ends a document begins here. -/
def isDocumentMark (mark : Char) : List Glyph → Bool
  | a :: b :: c :: rest =>
    a.column == 0 && a.char == mark && b.char == mark && c.char == mark && isGapOrEnd (front rest)
  | _ => false

/-- Whether a document starts or ends here. -/
def isDocumentEdge (gs : List Glyph) : Bool := isDocumentMark '-' gs || isDocumentMark '.' gs

/-- A fault of a token that starts on one line, found on another. -/
def tokenFault {α : Type} (p : Problem) (start : Nat) (gs : List Glyph) : Except Fault α :=
  .error { problem := p, part := .token, start, line := lineOf gs, index := indexOf gs }

end KernelReach.Yaml
