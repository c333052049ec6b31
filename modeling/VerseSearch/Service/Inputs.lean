import VerseSearch.Service.Frontend
import VerseSearch.Service.Request

/-! # What requests ask for

* `SearchInput.ofParameters`, `SearchInput.ofBody`: what a request for a search asks for.
* `CompileInput.ofBody`: what a request to compile a query asks for.
* `EntriesInput.ofParameters`: what a request for entries of the lexicon asks for.
* `VerseInput.ofPath`: the verse that a path names.
* `Request.route`: where a request leads.
-/

namespace VerseSearch
set_option autoImplicit false

namespace Service

open Form

/-! ## Fields of requests -/

/-- A parameter that must be given. -/
def requiredParameter {α : Type} (r : Request) (name : String) (read : Text → Except Fault α) :
    Checked α :=
  .ofField [.name "query", .name name] <|
    match r.parameter? name with
    | some t => read t
    | none => .error .missing

def parameterOr {α : Type} (default : α) (r : Request) (name : String)
    (read : Text → Except Fault α) : Checked α :=
  .ofField [.name "query", .name name] <|
    match r.parameter? name with
    | some t => read t
    | none => .ok default

def pathPart {α : Type} (name : String) (t : Text) (read : Text → Except Fault α) : Checked α :=
  .ofField [.name "path", .name name] (read t)

/-- A field of the body that must be given. -/
def requiredField {α : Type} (body : Json) (name : String) (read : Json → Except Fault α) :
    Checked α :=
  .ofField [.name "body", .name name] <|
    match body.field? name with
    | some j => read j
    | none => .error .missing

def fieldOr {α : Type} (default : α) (body : Json) (name : String)
    (read : Json → Except Fault α) : Checked α :=
  .ofField [.name "body", .name name] <|
    match body.field? name with
    | some j => read j
    | none => .ok default

/-- What the body of a request holds, where the body is an object. -/
def ofObject {α : Type} (body : Option Json) (read : Json → Checked α) : Checked α :=
  match body with
  | none => .invalid [⟨[.name "body"], .missing⟩]
  | some .null => .invalid [⟨[.name "body"], .missing⟩]
  | some (.obj fields) => read (.obj fields)
  | some _ => .invalid [⟨[.name "body"], .notAnObject⟩]

def greatestMaxResults : Int := 100000

def greatestEntryLimit : Int := 10000

/-- The number of entries that are given if no other number is asked for. -/
def defaultEntryLimit : Int := 100

/-- The greatest length of a query in a body. -/
def maxBodyQueryLength : Nat := 500

def maxResultsOf (n : Int) : Except Fault Int := within 1 greatestMaxResults n

/-- The query of a body: a text that is neither too long nor blank. -/
def queryOf (j : Json) : Except Fault Text := do
  let t ← text j
  let t ← nonempty t
  if maxBodyQueryLength < t.length then .error .tooLong
  else if t.isAllBlank then .error .blank
  else .ok t

end Service

open Service Form

/-! ## Inputs -/

namespace SearchInput

def ofParameters (r : Request) : Checked SearchInput :=
  (Checked.valid SearchInput.mk)
    |>.and (requiredParameter r "q" nonempty)
    |>.and (parameterOr none r "max_results" fun t => do some <$> maxResultsOf (← readInt t))
    |>.and (parameterOr false r "verbs_only" readBool)

def ofBody (r : Request) : Checked SearchInput :=
  ofObject r.body fun body =>
    (Checked.valid SearchInput.mk)
      |>.and (requiredField body "query" queryOf)
      |>.and (fieldOr none body "max_results"
        (nullable fun j => do maxResultsOf (← int j)))
      |>.and (fieldOr false body "verbs_only" bool)

end SearchInput

def CompileInput.ofBody (r : Request) : Checked CompileInput :=
  ofObject r.body fun body =>
    (Checked.valid CompileInput.mk)
      |>.and (requiredField body "query" queryOf)
      |>.and (fieldOr false body "verbs_only" bool)

def EntriesInput.ofParameters (r : Request) : Checked EntriesInput :=
  (Checked.valid EntriesInput.mk)
    |>.and (requiredParameter r "pattern" nonempty)
    |>.and (parameterOr false r "verbs_only" readBool)
    |>.and (parameterOr defaultEntryLimit r "limit" fun t => do
      within 1 greatestEntryLimit (← readInt t))

/-- The verse that the parts of a path name. -/
def VerseInput.ofPath (book chapter verse : Text) : Checked VerseInput :=
  (Checked.valid (VerseInput.mk book))
    |>.and (pathPart "chapter" chapter fun t => do atLeast 1 (← readInt t))
    |>.and (pathPart "verse" verse fun t => do atLeast 1 (← readInt t))

/-- The number of an entry that a part of a path names. -/
def entryTagOf (tag : Text) : Checked Int := pathPart "tag" tag fun t => do atLeast 0 (← readInt t)

/-! ## Routes -/

namespace Request

def call (r : Request) : Resource → Service.Call
  | .root => .root
  | .about => .about
  | .search =>
    if r.verb = "GET" then .search (SearchInput.ofParameters r)
    else .searchBody (SearchInput.ofBody r)
  | .compile => .compile (CompileInput.ofBody r)
  | .entries => .entries (EntriesInput.ofParameters r)
  | .entry tag => .entry (entryTagOf tag)
  | .books => .books
  | .verse book chapter verse => .verse (VerseInput.ofPath book chapter verse)
  | .health => .health
  | .ready => .ready
  | .live => .live
  | .metrics => .metrics
  | .detailedMetrics => .detailedMetrics

def route : Service.Frontend Request := fun r =>
  match Resource.ofPath (Url.path r.url) with
  | none => .notFound
  | some resource => if r.verb ∈ resource.verbs then .call (r.call resource) else .wrongMethod

end Request

end VerseSearch
