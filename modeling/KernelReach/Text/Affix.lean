/-!
# Beginnings and ends of texts
-/

namespace KernelReach.Text

def startsWith (head s : String) : Bool := head.toList.isPrefixOf s.toList

def endsWith (tail s : String) : Bool := tail.toList.isSuffixOf s.toList

/-- Whether `part` stands somewhere in `s`. -/
def contains (part s : String) : Bool :=
  go s.toList
where
  /-- Looks for `part` in a list of characters. -/
  go : List Char → Bool
    | [] => part.toList.isEmpty
    | c :: cs => part.toList.isPrefixOf (c :: cs) || go cs

/-- What follows `head`, or all of `s` if it does not start with it. -/
def dropStart (head s : String) : String :=
  if startsWith head s then String.ofList (s.toList.drop head.length) else s

/-- What precedes `tail`, or all of `s` if it does not end with it. -/
def dropEnd (tail s : String) : String :=
  if endsWith tail s then String.ofList (s.toList.take (s.length - tail.length)) else s

/-- The parts of `s` between the characters `sep`; there is always one. -/
def splitAt (sep : Char) (s : String) : List String :=
  (s.toList.splitOn sep).map String.ofList

/-- The lines of a text. A line break at the end starts no other line. -/
def lines (s : String) : List String := splitAt '\n' (dropEnd "\n" s)

/-- `s` with `new` for every `old`. -/
def replaceChar (old new : Char) (s : String) : String :=
  String.ofList (s.toList.map fun c => if c == old then new else c)

end KernelReach.Text
