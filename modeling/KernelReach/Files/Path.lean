import KernelReach.Text.Affix

/-!
# Paths

A path is a text of components with slashes between them. `clean` gives the shortest path that
means the same without looking at any file: empty components and `.` are dropped, and `..` takes
away the component before it.
-/

namespace KernelReach.Path

/-- The texts between the slashes. -/
def components (p : String) : List String := Text.splitAt '/' p

/-- Whether a path starts at the root of the file system. -/
def isRooted (p : String) : Bool := Text.startsWith "/" p

/-- Drops empty components and `.`, and lets `..` cancel what precedes it. `kept` holds the
    components kept so far, the last first. Above the root there is nothing. -/
def reduce (rooted : Bool) : (kept : List String) → List String → List String
  | kept, [] => kept.reverse
  | kept, c :: cs =>
    if c = "" ∨ c = "." then reduce rooted kept cs
    else if c = ".." then
      match kept with
      | k :: ks => if k = ".." then reduce rooted (c :: kept) cs else reduce rooted ks cs
      | [] => if rooted then reduce rooted [] cs else reduce rooted [c] cs
    else reduce rooted (c :: kept) cs

def cleanComponents (p : String) : List String := reduce (isRooted p) [] (components p)

/-- The shortest path with the same meaning. -/
def clean (p : String) : String :=
  let body := String.intercalate "/" (cleanComponents p)
  if isRooted p then "/" ++ body else if body = "" then "." else body

/-- The path of `q` below `p`, cleaned. An empty path adds nothing. -/
def join (p q : String) : String :=
  if p = "" then (if q = "" then "" else clean q) else clean (p ++ "/" ++ q)

/-- The path of the directory in which `p` lies, cleaned. -/
def parent (p : String) : String :=
  clean (String.ofList (p.toList.reverse.dropWhile (· != '/')).reverse)

/-- The last component, slashes at the end aside. -/
def base (p : String) : String :=
  if p = "" then "."
  else
    let stripped := (p.toList.reverse.dropWhile (· == '/'))
    if stripped.isEmpty then "/" else String.ofList (stripped.takeWhile (· != '/')).reverse

/-- Whether a path leads to something below the place at which it starts: it is not empty, has no
    backslash, is not rooted and does not climb out. -/
def isLocal (p : String) : Bool :=
  p != "" && !p.toList.contains '\\' &&
    (let c := clean p
     c != ".." && !Text.startsWith "../" c && !isRooted c)

end KernelReach.Path
