import KernelReach.Text.Affix

/-!
# Hosts of Amazon

The hosts of Amazon's object stores have the region of the store in their names. A host is taken for
one of them if there is a region where it should be. In the forms that names are compared with, a
dot stands for any character.
-/

namespace KernelReach.Endpoint

/-- Whether a text has the form of a text, in which a dot stands for any character. -/
def hasForm : (form text : List Char) → Bool
  | [], [] => true
  | f :: fs, c :: cs => (f == '.' || f == c) && hasForm fs cs
  | _, _ => false

/-- What stands between a start and an end of given forms. -/
def between? (first last : String) (host : List Char) : Option (List Char) :=
  let inner := host.length - first.length - last.length
  let rest := host.drop first.length
  if first.length + last.length ≤ host.length && hasForm first.toList (host.take first.length)
      && hasForm last.toList (rest.drop inner) then some (rest.take inner)
  else none

/-- The rest of a text after each place at which it has a form. -/
def afterEach (form : String) : List Char → List (List Char)
  | [] => []
  | c :: cs =>
    let here := if hasForm form.toList ((c :: cs).take form.length)
      then [(c :: cs).drop form.length] else []
    here ++ afterEach form cs

def amazonEnd : String := ".amazonaws.com"

def chineseEnd : String := ".amazonaws.com.cn"

/-- Whether a host balances the load of others, so that its region is not known. -/
def isBalancer (host : List Char) : Bool :=
  (afterEach "elb" host).any fun rest =>
    (between? "" amazonEnd rest).isSome || (between? "" chineseEnd rest).isSome

def chineseRegion? (host : List Char) : Option (List Char) :=
  ((between? "s3." chineseEnd host).filter (['c', 'n'].isPrefixOf ·)).or
    ((between? "s3.dualstack." chineseEnd host).filter (['c', 'n'].isPrefixOf ·))

/-- The region in the name of a host in which a private link ends. -/
def linkedRegion? (host : List Char) : Option (List Char) :=
  ["bucket", "accesspoint"].findSome? fun start =>
    (between? (start ++ ".vpce-") "" host).bind fun rest =>
      (afterEach ".s3." rest).findSome? (between? "" ".vpce.amazonaws.com")

/-- The region in the name of a host; it is empty if there is none. Hosts of the express kind are
    told apart by a name that has no region. -/
def region (host : List Char) : List Char :=
  if isBalancer host then []
  else
    let isExpress (r : List Char) : Bool := "xpress-".toList.isPrefixOf r
    ["s3-fips.dualstack.", "s3.dualstack.", "s3-"].findSome? (between? · amazonEnd host)
      |>.or (chineseRegion? host)
      |>.or ((between? "s3." amazonEnd host).map fun r => if isExpress r then [] else r)
      |>.or (linkedRegion? host)
      |>.getD []

def isAmazonHost (host : String) : Bool :=
  host == "s3.amazonaws.com" || host == "s3-external-1.amazonaws.com"
    || !(region host.toList).isEmpty

end KernelReach.Endpoint
