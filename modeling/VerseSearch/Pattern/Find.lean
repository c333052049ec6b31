import VerseSearch.Pattern.Match
import VerseSearch.Pattern.Parser

/-! # Finding matches

* `Pattern.matchAt`: the match that begins at a place.
* `Pattern.findFrom`: the first match from a place on.
* `Pattern.findAll`: all matches in order, none inside another.
* `Pattern.fullMatches`, `Pattern.occursIn`: a match of the whole text, a match somewhere in it.

After an empty match the next one at the same place must not be empty; after any other match an
empty one may follow at once.
-/

namespace VerseSearch.Pattern
set_option autoImplicit false

/-- The end of the match that begins at `start`; with `nonempty` it is not `start`. -/
def matchAt (p : Pattern) (text : Array Char) (start : Nat) (nonempty : Bool) : Option Nat :=
  (p.node.run text (fun s => if nonempty && s.pos = start then none else some s)
    { pos := start }).map (·.pos)

/-- The first match that begins at `start` or at one of the `more` places after it. Only a match
at `start` itself has to be nonempty. -/
def findWithin (p : Pattern) (text : Array Char) (start : Nat) (nonempty : Bool) :
    Nat → Option (Nat × Nat)
  | 0 => (p.matchAt text start nonempty).map (start, ·)
  | more + 1 =>
    match p.matchAt text start nonempty with
    | some stop => some (start, stop)
    | none => p.findWithin text (start + 1) false more

/-- The first match from `start` on. -/
def findFrom (p : Pattern) (text : Array Char) (start : Nat) (nonempty : Bool) :
    Option (Nat × Nat) :=
  if start ≤ text.size then p.findWithin text start nonempty (text.size - start) else none

/-- The matches from `start` on; there are at most two for every place. -/
def findAllFrom (p : Pattern) (text : Array Char) : Nat → Nat → Bool → List (Nat × Nat)
  | 0, _, _ => []
  | fuel + 1, start, nonempty =>
    match p.findFrom text start nonempty with
    | some (a, b) => (a, b) :: p.findAllFrom text fuel b (a = b)
    | none => []

def findAll (p : Pattern) (text : Text) : List (Nat × Nat) :=
  p.findAllFrom text.toArray (2 * text.length + 2) 0 false

def fullMatches (p : Pattern) (text : Text) : Bool :=
  (p.node.run text.toArray (fun s => if s.pos = text.length then some s else none)
    { pos := 0 }).isSome

def occursIn (p : Pattern) (text : Text) : Bool := (p.findFrom text.toArray 0 false).isSome

def slice (text : Text) (start stop : Nat) : Text := (text.drop start).take (stop - start)

end VerseSearch.Pattern
