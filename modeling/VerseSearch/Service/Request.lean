import VerseSearch.Service.Url

/-! # Requests

* `Request`: a method, an address, parameters and perhaps a JSON body.
* `Resource`: what an address names; `Resource.ofPath`: the resource of a path.
-/

namespace VerseSearch
set_option autoImplicit false

/-! ## Requests -/

structure Request where
  method : Text
  url : Text
  /-- The parameters, if they do not stand in the address. -/
  given : Option (List (Text × Text)) := none
  body : Option Json := none

namespace Request

def parameters (r : Request) : List (Text × Text) := r.given.getD (Url.parameters r.url)

/-- The value of a parameter; of several values the last one counts. -/
def parameter? (r : Request) (name : String) : Option Text :=
  r.parameters.reverse.lookup name.toList

def verb (r : Request) : String := String.ofList (r.method.map Char.toUpper)

end Request

/-! ## Resources -/

/-- What an address names. The parts of the path that vary are kept as they are written. -/
inductive Resource where
  | root
  | about
  | search
  | compile
  | entries
  | entry (tag : Text)
  | books
  | verse (book chapter verse : Text)
  | health
  | ready
  | live
  | metrics
  | detailedMetrics
  deriving Repr, DecidableEq

namespace Resource

/-- The resource of the segments of a path below the root of the versioned resources. -/
def ofVersioned : List Text → Option Resource
  | [a] =>
    match String.ofList a with
    | "search" => some .search
    | "compile" => some .compile
    | "lexicon" => some .entries
    | "books" => some .books
    | "health" => some .health
    | "metrics" => some .metrics
    | _ => none
  | [a, b] =>
    match String.ofList a, String.ofList b with
    | "lexicon", "" => none
    | "lexicon", _ => some (.entry b)
    | "health", "ready" => some .ready
    | "health", "live" => some .live
    | "metrics", "detailed" => some .detailedMetrics
    | _, _ => none
  | [a, b, c, d] =>
    if a = "verses".toList ∧ b ≠ [] ∧ c ≠ [] ∧ d ≠ [] then some (.verse b c d) else none
  | _ => none

def ofSegments : List Text → Option Resource
  | [[]] => some .root
  | [a] => if a = "api".toList then some .about else none
  | a :: b :: rest =>
    if a = "api".toList ∧ b = "v1".toList then ofVersioned rest else none
  | [] => none

/-- The resource of a path that is written as it should be. A line feed after the path does not
count, unless it belongs to a part that varies. -/
def ofExactPath (path : Text) : Option Resource :=
  let segments (t : Text) : List Text := (List.splitOn '/' t).drop 1
  match ofSegments (segments path) with
  | some resource => some resource
  | none => if path.getLast? = some '\n' then ofSegments (segments path.dropLast) else none

/-- The resource of a path. Slashes may follow the path. -/
def ofPath (path : Text) : Option Resource :=
  match ofExactPath path with
  | some resource => some resource
  | none => ofExactPath (Text.dropRightWhile (· = '/') path)

def verbs : Resource → List String
  | .search => ["GET", "POST"]
  | .compile => ["POST"]
  | _ => ["GET"]

end Resource

end VerseSearch
