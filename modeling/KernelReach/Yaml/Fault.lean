import KernelReach.Text.Numeral

/-!
# Faults of YAML texts

Why a text is not a YAML document, with the lines that the message names. Lines are counted from 0;
a fault of the first line is told without its place.
-/

namespace KernelReach.Yaml

/-- What is wrong with a text. -/
inductive Problem
  -- Characters
  | badLead
  | cutCharacter
  | badTail
  | badLength
  | badCharacter
  | cutUnit
  | strayLowSurrogate
  | cutSurrogatePair
  | missingLowSurrogate
  | controlCharacter
  -- Tokens
  | badToken
  | missingColon
  | entryNotAllowed
  | keyNotAllowed
  | valueNotAllowed
  | tooDeep (limit : Nat)
  -- Directives
  | missingDirectiveName
  | badDirectiveName
  | unknownDirective
  | missingVersionNumber
  | longVersionNumber
  | missingVersionPoint
  | directiveGoesOn
  | missingBlank
  | tagPrefixGoesOn
  -- Anchors and tags
  | badAnchor
  | missingMark
  | missingTag
  | missingTagEnd
  | tagGoesOn
  | badTagEscape
  | badTagLead
  | badTagTail
  -- Scalars
  | zeroIndentation
  | blockHeaderGoesOn
  | tabInBlock
  | tabInPlain
  | documentInQuotes
  | endInQuotes
  | unknownEscape
  | badCode
  | codeOutOfRange
  -- Documents
  | missingDocumentStart
  | duplicateVersion
  | wrongVersion
  | duplicateTagHandle
  | undefinedTagHandle
  | missingContent
  | missingDash
  | missingKey
  | missingSequenceEnd
  | missingMappingEnd
  | unknownAnchor (name : String)
  -- Values
  | anchorInItself (name : String)
  | tooManyAliases
  | badMerge
  | badBase64
  | wrongTag (found text wanted : String)
  deriving DecidableEq, Repr

def Problem.message : Problem → String
  | badLead => "invalid leading UTF-8 octet"
  | cutCharacter => "incomplete UTF-8 octet sequence"
  | badTail => "invalid trailing UTF-8 octet"
  | badLength => "invalid length of a UTF-8 sequence"
  | badCharacter => "invalid Unicode character"
  | cutUnit => "incomplete UTF-16 character"
  | strayLowSurrogate => "unexpected low surrogate area"
  | cutSurrogatePair => "incomplete UTF-16 surrogate pair"
  | missingLowSurrogate => "expected low surrogate area"
  | controlCharacter => "control characters are not allowed"
  | badToken => "found character that cannot start any token"
  | missingColon => "could not find expected ':'"
  | entryNotAllowed => "block sequence entries are not allowed in this context"
  | keyNotAllowed => "mapping keys are not allowed in this context"
  | valueNotAllowed => "mapping values are not allowed in this context"
  | tooDeep limit => "exceeded max depth of " ++ Text.integer limit
  | missingDirectiveName => "could not find expected directive name"
  | badDirectiveName => "found unexpected non-alphabetical character"
  | unknownDirective => "found unknown directive name"
  | missingVersionNumber => "did not find expected version number"
  | longVersionNumber => "found extremely long version number"
  | missingVersionPoint => "did not find expected digit or '.' character"
  | directiveGoesOn => "did not find expected comment or line break"
  | missingBlank => "did not find expected whitespace"
  | tagPrefixGoesOn => "did not find expected whitespace or line break"
  | badAnchor => "did not find expected alphabetic or numeric character"
  | missingMark => "did not find expected '!'"
  | missingTag => "did not find expected tag URI"
  | missingTagEnd => "did not find the expected '>'"
  | tagGoesOn => "did not find expected whitespace or line break"
  | badTagEscape => "did not find URI escaped octet"
  | badTagLead => "found an incorrect leading UTF-8 octet"
  | badTagTail => "found an incorrect trailing UTF-8 octet"
  | zeroIndentation => "found an indentation indicator equal to 0"
  | blockHeaderGoesOn => "did not find expected comment or line break"
  | tabInBlock => "found a tab character where an indentation space is expected"
  | tabInPlain => "found a tab character that violates indentation"
  | documentInQuotes => "found unexpected document indicator"
  | endInQuotes => "found unexpected end of stream"
  | unknownEscape => "found unknown escape character"
  | badCode => "did not find expected hexdecimal number"
  | codeOutOfRange => "found invalid Unicode character escape code"
  | missingDocumentStart => "did not find expected <document start>"
  | duplicateVersion => "found duplicate %YAML directive"
  | wrongVersion => "found incompatible YAML document"
  | duplicateTagHandle => "found duplicate %TAG directive"
  | undefinedTagHandle => "found undefined tag handle"
  | missingContent => "did not find expected node content"
  | missingDash => "did not find expected '-' indicator"
  | missingKey => "did not find expected key"
  | missingSequenceEnd => "did not find expected ',' or ']'"
  | missingMappingEnd => "did not find expected ',' or '\x7d'"
  | unknownAnchor name => "unknown anchor '" ++ name ++ "' referenced"
  | anchorInItself name => "anchor '" ++ name ++ "' value contains itself"
  | tooManyAliases => "document contains excessive aliasing"
  | badMerge => "map merge requires map or sequence of maps as the value"
  | badBase64 => "!!binary value contains invalid base64 data"
  | wrongTag found text wanted =>
    "cannot decode " ++ found ++ " \x60" ++ text ++ "\x60 as a " ++ wanted

/-- What a fault was found in. -/
inductive Part
  /-- The characters. -/
  | text
  /-- A token. -/
  | token
  /-- The order of the tokens. -/
  | order
  deriving DecidableEq, Repr

/-- Why a text is not a document. -/
structure Fault where
  problem : Problem
  part : Part := .text
  /-- The line on which what is wrong starts. -/
  start : Nat := 0
  /-- The line on which the problem stands. -/
  line : Nat := 0
  /-- The number of characters before the problem. -/
  index : Nat := 0
  deriving DecidableEq, Repr

namespace Fault

/-- The number of the line that a fault names, unless it is in the first line. A line is counted
    from 1 for a token, and from 0 for the order of tokens. -/
def place (f : Fault) : Nat :=
  let line := if f.start ≠ 0 then f.start else f.line
  if line ≠ 0 ∧ f.part = .token then line + 1 else line

def message (f : Fault) : String :=
  let place := if f.place = 0 then "" else "line " ++ Text.integer f.place ++ ": "
  "yaml: " ++ place ++ f.problem.message

end Fault

end KernelReach.Yaml
