import VerseSearch.Pattern.Find

/-! # Substitution in pattern texts

What takes the place of a part of a pattern's text depends on whether the part stands inside a
bracket expression: the last bracket before it is an opening one.

* `isInside`: whether the end of a text stands inside a bracket expression.
* `Substitution`: what is replaced, and by what inside and outside of brackets.
* `Substitution.apply`: all replacements of one substitution.
* `replaceMatches`: the same for the matches of a pattern.
-/

namespace VerseSearch.Query
set_option autoImplicit false

/-! ## Brackets -/

/-- Whether the place after a character is inside brackets, given whether the place before it is. -/
def insideAfter (inside : Bool) (c : Char) : Bool :=
  if c = '[' then true else if c = ']' then false else inside

/-- Whether the end of a text stands inside a bracket expression. -/
def isInside (before : Text) : Bool := before.foldl insideAfter false

/-! ## Substitutions -/

structure Substitution where
  target : Text
  /-- A target after this character stays. -/
  notAfter : Option Char := none
  /-- The replacement inside brackets. -/
  inside : Text
  /-- The replacement elsewhere. -/
  outside : Text
  deriving Repr, DecidableEq

/-- Whether the target stands at the start of a text, after the character `previous`. -/
def Substitution.occursAt (r : Substitution) (previous : Option Char) (t : Text) : Bool :=
  r.target.isPrefixOf t && (r.notAfter.isNone || previous ≠ r.notAfter)

def Substitution.replacement (r : Substitution) (inside : Bool) : Text :=
  if inside then r.inside else r.outside

/-- Replaces the targets in a text. The first `skip` characters belong to a target that has been
replaced. -/
def Substitution.applyFrom (r : Substitution) (skip : Nat) (previous : Option Char)
    (inside : Bool) : Text → Text
  | [] => []
  | c :: rest =>
    match skip with
    | skip + 1 => r.applyFrom skip (some c) (insideAfter inside c) rest
    | 0 =>
      if r.occursAt previous (c :: rest) then
        r.replacement inside ++
          r.applyFrom (r.target.length - 1) (some c) (insideAfter inside c) rest
      else c :: r.applyFrom 0 (some c) (insideAfter inside c) rest

/-- Replaces the targets in a text, from left to right. -/
def Substitution.apply (r : Substitution) (t : Text) : Text := r.applyFrom 0 none false t

/-- Replaces the given spans of a text, of which all up to `start` has been dealt with. -/
def replaceSpans (source inside outside : Text) (start : Nat) : List (Nat × Nat) → Text
  | [] => source.drop start
  | (a, b) :: rest =>
    Pattern.slice source start a ++ (if isInside (source.take a) then inside else outside) ++
      replaceSpans source inside outside b rest

def replaceMatches (p : Pattern) (source inside outside : Text) : Text :=
  replaceSpans source inside outside 0 (p.findAll source)

end VerseSearch.Query
