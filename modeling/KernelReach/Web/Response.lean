import KernelReach.Json.Document
import KernelReach.Time.Timestamp
import KernelReach.Web.Request

/-!
# Responses

What is sent back for a request. Documents end with a line feed. A request for a path that is not
in its shortest form is sent on to the shortest form.
-/

namespace KernelReach.Web

/-- A response. -/
structure Response where
  status : Nat
  /-- The type of the content, if one is given. -/
  contentType : Option String
  /-- Whether pages of other sites may read the response. -/
  shared : Bool
  body : String
  deriving DecidableEq, Repr

namespace Response

def document (status : Nat) (j : Json) : Response :=
  ⟨status, some "application/json", true, j.compact ++ "\n"⟩

/-- A document that may turn out to be impossible to write; then nothing is written. -/
def attempt (status : Nat) (fault : Option Time.WriteFault) (j : Json) : Response :=
  if fault.isSome then { document status j with body := "" } else document status j

def failure (status : Nat) (message : String) : Response :=
  document status (.object [("error", .string message)])

/-- The response to a request outside of the interface. -/
def pageNotFound : Response :=
  ⟨404, some "text/plain; charset=utf-8", false, "404 page not found\n"⟩

def noContent : Response := ⟨200, none, true, ""⟩

/-- The response to a request for the server as a whole. -/
def refused : Response := ⟨400, none, false, ""⟩

def page (html : String) : Response := ⟨200, some "text/html", false, html⟩

end Response

/-- A text inside of a page. -/
def escapeHtml (s : String) : String :=
  String.join (s.toList.map fun c =>
    match c with
    | '&' => "&amp;"
    | '<' => "&lt;"
    | '>' => "&gt;"
    | '"' => "&#34;"
    | '\'' => "&#39;"
    | c => String.singleton c)

/-- The response that sends a request on to the shortest form of its path. -/
def Response.moved (r : Request) : Response :=
  let query := if r.rawQuery = "" then "" else "?" ++ r.rawQuery
  let url := r.cleanPath ++ query
  let isGet := r.method == "GET"
  { status := 307
    contentType := if isGet || r.method == "HEAD" then some "text/html; charset=utf-8" else none
    shared := false
    body := if isGet
      then "<a href=\"" ++ escapeHtml url ++ "\">Temporary Redirect</a>.\n\n" else "" }

end KernelReach.Web
