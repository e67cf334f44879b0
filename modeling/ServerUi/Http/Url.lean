import ServerUi.Http.Host

/-! # Addresses

The address of a resource on the web.  Reading one is generous: slashes may lean either way, dots in
the path are resolved, and what may not stand in a part is escaped.  An address without a scheme,
or with another scheme than the two of the web, is none.
-/

namespace ServerUi.Http

inductive Scheme where
  | http
  | https
deriving DecidableEq, Repr

def Scheme.defaultPort : Scheme → Nat
  | .http => 80
  | .https => 443

structure Url where
  scheme : Scheme
  host : Host
  port : Nat
  /-- The path, escaped, with its slash in front. -/
  path : String
  /-- What stands behind the question mark, escaped. -/
  query : Option String
deriving DecidableEq, Repr

namespace Url

def isSlash (c : Char) : Bool := c == '/' || c == '\\'

def endsPath (c : Char) : Bool := c == '?' || c == '#'

/-- The characters of an address, without line breaks and tabs and without blanks at the ends. -/
def clean (s : String) : List Char :=
  let isEdge (c : Char) : Bool := c ≤ ' '
  let inner := ((s.toList.dropWhile isEdge).reverse.dropWhile isEdge).reverse
  inner.filter fun c => c != '\t' && c != '\n' && c != '\r'

/-- Splits the scheme off, with its colon. -/
def scheme? (cs : List Char) : Option (Scheme × List Char) :=
  match cs.dropWhile (· != ':') with
  | [] => none
  | _ :: rest =>
    let name := String.ofList ((cs.takeWhile (· != ':')).map Char.toLower)
    if name = "http" then some (.http, rest)
    else if name = "https" then some (.https, rest)
    else none

/-- What stands behind the last sign of a user. -/
def withoutUser (cs : List Char) : List Char := (cs.reverse.takeWhile (· != '@')).reverse

/-- Splits host and port; a colon in brackets belongs to the host. -/
def splitPort : Bool → List Char → List Char × List Char
  | _, [] => ([], [])
  | inBrackets, c :: rest =>
    if c == ':' && !inBrackets then ([], rest)
    else
      let inside := if c == '[' then true else if c == ']' then false else inBrackets
      let (host, port) := splitPort inside rest
      (c :: host, port)

/-- The port that digits write; no digits stand for the port of the scheme. -/
def port? (s : Scheme) (ds : List Char) : Option Nat :=
  if ds.isEmpty then some s.defaultPort
  else (Text.natOf? 10 ds).bind fun n => if n < UInt16.size then some n else none

/-- How a step of a path is to be taken. -/
inductive Step where
  | stay
  | up
  | down (segment : String)

/-- The step of a segment: one dot stays and two dots go up, escaped or not. -/
def step (segment : List Char) : Step :=
  let dots := Percent.decode segment
  if dots = [46] then .stay
  else if dots = [46, 46] then .up
  else .down (String.ofList (Percent.encode Percent.staysInPath segment))

/-- The segments of a path, cut at slashes of either kind. -/
def segments (cs : List Char) : List (List Char) :=
  Host.splitOn '/' (cs.map fun c => if c == '\\' then '/' else c)

/-- The segments that steps lead to, backwards.  A last step that goes nowhere leaves an empty
segment. -/
def walk : List String → List (List Char) → List String
  | taken, [] => taken
  | taken, s :: rest =>
    match step s with
    | .down t => walk (t :: taken) rest
    | .stay => walk (if rest.isEmpty then "" :: taken else taken) rest
    | .up => walk (if rest.isEmpty then "" :: taken.tail else taken.tail) rest

def pathOf (cs : List Char) : String :=
  let inner := match cs with
    | c :: rest => if isSlash c then rest else c :: rest
    | [] => []
  "/" ++ String.intercalate "/" (walk [] (segments inner)).reverse

/-- The query that characters write, if they start with a question mark. -/
def queryOf : List Char → Option String
  | '?' :: rest =>
    some (String.ofList (Percent.encode Percent.staysInQuery (rest.takeWhile (· != '#'))))
  | _ => none

def parse? (s : String) : Option Url := do
  let (scheme, rest) ← scheme? (clean s)
  let rest := rest.dropWhile isSlash
  let ends (c : Char) : Bool := isSlash c || endsPath c
  let (host, port) := splitPort false (withoutUser (rest.takeWhile fun c => !ends c))
  let behind := rest.dropWhile fun c => !ends c
  let host ← Host.parse? host
  let port ← port? scheme port
  pure ⟨scheme, host, port, pathOf (behind.takeWhile fun c => !endsPath c),
    queryOf (behind.dropWhile fun c => !endsPath c)⟩

def withPairs (u : Url) (ps : List (String × String)) : Url :=
  if ps.isEmpty then u
  else
    let form := Percent.formPairs ps
    { u with query := some (match u.query with
      | none | some "" => form
      | some q => q ++ "&" ++ form) }

/-- Path and query, as a request names them. -/
def target (u : Url) : String :=
  match u.query with
  | none => u.path
  | some q => u.path ++ "?" ++ q

end Url

end ServerUi.Http
