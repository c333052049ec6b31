import VerseSearch.Pattern.Syntax

/-! # Matching

A node is matched from a place of a text towards a continuation, which says how the match goes on
after the node. The first way of matching that the continuation accepts is the match.

* `State`: the place reached and the places of the groups.
* `greedyLoop`, `lazyLoop`, `possessiveLoop`: the rounds of a loop.
* `Node.run`: matches a node towards a continuation.

A loop makes no further optional round from the place at which it began the one before. A loop on
a text of `n` characters therefore makes at most `n + 2` rounds beyond the ones it must make.
-/

namespace VerseSearch.Pattern
set_option autoImplicit false

/-! ## States -/

/-- How far a match has come. -/
structure State where
  pos : Nat
  /-- The places at which numbered groups were last entered. -/
  starts : List (Nat × Nat) := []
  /-- The places at which numbered groups were last left. -/
  ends : List (Nat × Nat) := []
  deriving Repr, DecidableEq

def setKey (key value : Nat) (pairs : List (Nat × Nat)) : List (Nat × Nat) :=
  (key, value) :: pairs.filter (·.1 ≠ key)

def State.advance (s : State) : State := { s with pos := s.pos + 1 }

def State.moveTo (s : State) (pos : Nat) : State := { s with pos := pos }

def State.enter (s : State) (index : Nat) : State :=
  { s with starts := setKey index s.pos s.starts }

def State.leave (s : State) (index : Nat) : State := { s with ends := setKey index s.pos s.ends }

/-- The place of the text that a group holds. -/
def State.group? (s : State) (index : Nat) : Option (Nat × Nat) :=
  match s.starts.lookup index, s.ends.lookup index with
  | some a, some b => if a ≤ b then some (a, b) else none
  | _, _ => none

/-- What follows a node. -/
abbrev Continuation := State → Option State

/-! ## Loops -/

/-- Whether a further round stays within the greatest number of rounds. -/
def admitsRound (most : Option Nat) (count : Nat) : Bool :=
  match most with
  | some most => count < most
  | none => true

/-- The rounds of a loop that prefers one more round. `count` rounds are done and `last` is the
place at which the last optional round began. -/
def greedyLoop (round : Continuation → Continuation) (least : Nat) (most : Option Nat)
    (k : Continuation) : Nat → Nat → Option Nat → Continuation
  | 0, _, _, _ => none
  | fuel + 1, count, last, s =>
    if count < least then round (greedyLoop round least most k fuel (count + 1) last) s
    else if admitsRound most count && last ≠ some s.pos then
      match round (greedyLoop round least most k fuel (count + 1) (some s.pos)) s with
      | some t => some t
      | none => k s
    else k s

/-- The rounds of a loop that prefers to stop. -/
def lazyLoop (round : Continuation → Continuation) (least : Nat) (most : Option Nat)
    (k : Continuation) : Nat → Nat → Option Nat → Continuation
  | 0, _, _, _ => none
  | fuel + 1, count, last, s =>
    if count < least then round (lazyLoop round least most k fuel (count + 1) last) s
    else match k s with
      | some t => some t
      | none =>
        if admitsRound most count && last ≠ some s.pos then
          round (lazyLoop round least most k fuel (count + 1) (some s.pos)) s
        else none

/-- The rounds of a loop that gives none of them back, each with the first match of the body. -/
def possessiveLoop (once : Continuation) (least : Nat) (most : Option Nat) :
    Nat → Nat → Option Nat → Continuation
  | 0, _, _, _ => none
  | fuel + 1, count, last, s =>
    if count < least then
      match once s with
      | some t => possessiveLoop once least most fuel (count + 1) last t
      | none => none
    else if admitsRound most count && last ≠ some s.pos then
      match once s with
      | some t => possessiveLoop once least most fuel (count + 1) (some s.pos) t
      | none => some s
    else some s

/-! ## Nodes -/

/-- Whether the characters from `a` on, `count` of them, occur again from `b` on. -/
def repeatsAt (text : Array Char) (ignoreCase ascii : Bool) (a b : Nat) : Nat → Bool
  | 0 => true
  | count + 1 =>
    let fold (c : Char) : Nat :=
      if ignoreCase then if ascii then Text.asciiLower c.toNat else Text.lower c.toNat else c.toNat
    match text[a]?, text[b]? with
    | some c, some d => fold c = fold d && repeatsAt text ignoreCase ascii (a + 1) (b + 1) count
    | _, _ => false

def Node.run (text : Array Char) : Node → Continuation → Continuation
  | .empty, k, s => k s
  | .one set, k, s =>
    match text[s.pos]? with
    | some c => if set.accepts c then k s.advance else none
    | none => none
  | .anchor place, k, s => if place.holds text s.pos then k s else none
  | .cat first second, k, s => first.run text (second.run text k) s
  | .alt first second, k, s =>
    match first.run text k s with
    | some t => some t
    | none => second.run text k s
  | .group index body, k, s => body.run text (fun t => k (t.leave index)) (s.enter index)
  | .loop appetite least most body, k, s =>
    let fuel := least + text.size + 3
    match appetite with
    | .greedy => greedyLoop (body.run text) least most k fuel 0 none s
    | .lazy => lazyLoop (body.run text) least most k fuel 0 none s
    | .possessive =>
      match possessiveLoop (body.run text some) least most fuel 0 none s with
      | some t => k t
      | none => none
  | .look behind negated body, k, s =>
    let found :=
      match behind with
      | none => body.run text some s
      | some width => if s.pos < width then none else body.run text some (s.moveTo (s.pos - width))
    match negated, found with
    | false, some t => k (t.moveTo s.pos)
    | true, none => k s
    | _, _ => none
  | .atomic body, k, s =>
    match body.run text some s with
    | some t => k t
    | none => none
  | .backref index ignoreCase ascii, k, s =>
    match s.group? index with
    | some (a, b) =>
      if repeatsAt text ignoreCase ascii a s.pos (b - a) then k (s.moveTo (s.pos + (b - a)))
      else none
    | none => none
  | .cond index yes no, k, s =>
    if (s.group? index).isSome then yes.run text k s else no.run text k s

end VerseSearch.Pattern
