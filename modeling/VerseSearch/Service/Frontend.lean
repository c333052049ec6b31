import VerseSearch.Form

/-! # The front end of the service

A front end finds out what a request asks for and checks the fields of what it gives. The service
answers calls; which requests there are, and how they are read, is left to the front end.

* `SearchInput`, `CompileInput`, `EntriesInput`, `VerseInput`: what calls give.
* `Service.Call`: what the service can be asked for.
* `Service.Frontend`: where the requests of some kind lead.
* `Response`: a status with a JSON body, or the problems of the fields of a request.
-/

namespace VerseSearch
set_option autoImplicit false

/-! ## Inputs -/

structure SearchInput where
  query : Text
  maxResults : Option Int
  verbsOnly : Bool
  deriving Repr, DecidableEq

structure CompileInput where
  query : Text
  verbsOnly : Bool
  deriving Repr, DecidableEq

structure EntriesInput where
  pattern : Text
  verbsOnly : Bool
  limit : Int
  deriving Repr, DecidableEq

/-- A verse by its book and the numbers of its chapter and itself, counted from one. -/
structure VerseInput where
  book : Text
  chapter : Int
  verse : Int
  deriving Repr, DecidableEq

/-! ## Calls -/

namespace Service

open Form in
/-- What the service is asked for, with what the fields of the request give. -/
inductive Call where
  | root
  | about
  /-- A search whose fields are parameters. -/
  | search (input : Checked SearchInput)
  /-- A search whose fields stand in a body. -/
  | searchBody (input : Checked SearchInput)
  | compile (input : Checked CompileInput)
  | entries (input : Checked EntriesInput)
  | entry (tag : Checked Int)
  | books
  | verse (input : Checked VerseInput)
  | health
  | ready
  | live
  | metrics
  | detailedMetrics
  deriving Repr, DecidableEq

inductive Route where
  | call (c : Call)
  | notFound
  /-- The address is answered, but not with this method. -/
  | wrongMethod
  deriving Repr, DecidableEq

/-- Where the requests of some kind lead. -/
abbrev Frontend (ρ : Type) := ρ → Route

end Service

/-! ## Answers -/

inductive Response where
  | answer (status : Nat) (body : Json)
  /-- The request has fields that are not as they should be. -/
  | rejected (problems : List Form.Problem)

namespace Response

def status : Response → Nat
  | .answer status _ => status
  | .rejected _ => 422

def body : Response → Json
  | .answer _ body => body
  | .rejected problems => .ofFields [("detail", .ofList Form.Problem.toJson problems)]

/-- An answer that gives what was asked for. -/
def ok (body : Json) : Response := .answer 200 body

/-- An answer that says why nothing is given. -/
def refusal (status : Nat) (detail : String) : Response :=
  .answer status (.ofFields [("detail", .ofString detail)])

end Response

end VerseSearch
