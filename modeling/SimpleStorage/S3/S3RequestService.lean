import SimpleStorage.Library.PercentCoding
import SimpleStorage.Policies.PoliciesService

/-!
# Reading a request

A request as the HTTP server hands it over, its query string as the router parses it, and
what the handlers take from it: headers, query parameters, and the bucket and the key in
its path.

The router's parser is the form-urlencoded one.  What it makes of a name or a value with a
malformed escape is a parameter; nothing below depends on it.
-/

namespace SimpleStorage

open PoliciesTypes

/-- `decodeURIComponent`, which throws at a malformed escape. -/
def decodeURIComponent (s : Text) : Option Text := PercentCoding.unescape s

/-- The characters `encodeURIComponent` leaves alone. -/
def unescapedInComponents (c : Char) : Bool := c.isAlphanum || c ∈ "-_.!~*'()".toList

def encodeURIComponent (s : Text) : Text := PercentCoding.escape unescapedInComponents s

theorem decodeURIComponent_encodeURIComponent (s : Text) :
    decodeURIComponent (encodeURIComponent s) = some s :=
  PercentCoding.unescape_escape (by decide) s

namespace Express

/-- A request as it arrives.  `url` is the URL the router works on, which differs from the
one the client sent where the bucket stands in the host name.  Header names are in lower
case. -/
structure Request where
  method : Text
  originalUrl : Text
  url : Text := originalUrl
  headers : List (Text × OneOrMany) := []
  deriving DecidableEq, Repr

/-- `url.split('?')[0]`. -/
def pathOf (url : Text) : Text := (Text.split '?' url).headD []

/-- What follows the first question mark. -/
def queryStringOf (url : Text) : Text := (url.dropWhile (· ≠ '?')).tail

/-- The name of a `name=value` pair, and its value: what follows the first `=`. -/
def nameAndValue (pair : Text) : Text × Text :=
  let pieces := Text.split '=' pair
  (pieces.headD [], Text.join '=' pieces.tail)

variable (malformed : Text → Text)

/-- A name or a value of a form-urlencoded query. -/
def formDecode (s : Text) : Text :=
  let spaced := s.map fun c => if c = '+' then ' ' else c
  (decodeURIComponent spaced).getD (malformed spaced)

/-- The parameters of a query string, in order. -/
def parameters (queryString : Text) : List (Text × Text) :=
  ((Text.split '&' queryString).filter (· ≠ [])).map fun pair =>
    (formDecode malformed (nameAndValue pair).1, formDecode malformed (nameAndValue pair).2)

/-- `req.query[name]`: repeated parameters are collected in an array. -/
def Request.query (req : Request) (name : Text) : Option OneOrMany :=
  match ((parameters malformed (queryStringOf req.url)).filter (·.1 = name)).map (·.2) with
  | [] => none
  | [value] => some (.one value)
  | values => some (.many values)

end Express

namespace S3RequestService

open Express

variable (J : Strings) (malformed : Text → Text)

def header (req : Request) (name : Text) : Option Text :=
  ((req.headers.find? (·.1 = J.toLowerCase name)).map (·.2)).map fun
    | .one value => value
    | .many values => Text.join ',' values

/-- A parameter of the query string, its first occurrence. -/
def query (req : Request) (name : Text) : Option Text :=
  match req.query malformed name with
  | none => none
  | some (.one value) => some value
  | some (.many values) => values.head?

/-- A malformed escape is left as it is. -/
def decodeSegment (segment : Text) : Text := (decodeURIComponent segment).getD segment

/-- The bucket and the key a path names. -/
def bucketAndKey (req : Request) : Text × Text :=
  let pieces := Text.split '/' (pathOf req.url)
  let segments := if pieces.headD [] = [] then pieces.tail else pieces
  (decodeSegment (segments.headD []), Text.join '/' (segments.tail.map decodeSegment))

/-- The first parameter of a name is the one that counts. -/
theorem query_eq_find (req : Request) (name : Text) :
    query malformed req name =
      ((parameters malformed (queryStringOf req.url)).find? (·.1 = name)).map (·.2) := by
  rw [query, Request.query, ← List.head?_filter]
  generalize List.filter _ (parameters malformed (queryStringOf req.url)) = found
  rcases found with _ | ⟨x, _ | ⟨y, rest⟩⟩ <;> rfl

end S3RequestService
end SimpleStorage
