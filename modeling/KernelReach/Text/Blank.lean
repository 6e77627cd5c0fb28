/-!
# Blanks

The characters with the Unicode property White_Space, and the two operations that go by them:
`trim` takes them off both ends of a text and `fields` splits a text at every run of them.
-/

namespace KernelReach.Text

/-- The characters of the property White_Space. The zero-width characters are not among them. -/
def isBlank (c : Char) : Bool :=
  let n := c.toNat
  (0x09 ≤ n && n ≤ 0x0d) || n == 0x20 || n == 0x85 || n == 0xa0 || n == 0x1680 ||
    (0x2000 ≤ n && n ≤ 0x200a) || n == 0x2028 || n == 0x2029 || n == 0x202f || n == 0x205f ||
    n == 0x3000

/-- `s` without the blanks at its two ends. -/
def trim (s : String) : String :=
  String.ofList (((s.toList.dropWhile isBlank).reverse.dropWhile isBlank).reverse)

/-- The maximal runs of characters that are not blank, in order. -/
def fields (s : String) : List String :=
  (splitRuns s.toList []).map String.ofList
where
  /-- Splits `cs`, where `run` is the run read so far, backwards. -/
  splitRuns : List Char → List Char → List (List Char)
    | [], run => if run.isEmpty then [] else [run.reverse]
    | c :: cs, run =>
      if isBlank c then
        if run.isEmpty then splitRuns cs [] else run.reverse :: splitRuns cs []
      else splitRuns cs (c :: run)

end KernelReach.Text
