import VerseSearch.Pattern.Escape

/-! # Modes of a pattern and the flags that set them

* `Modes`: what is in force at a place of a pattern.
* `Flags`: the letters of a flag group that turn modes on and off.
* `readFlags`: a flag group after its question mark.
-/

namespace VerseSearch.Pattern
set_option autoImplicit false

/-- What is in force at a place of a pattern. -/
structure Modes where
  ignoreCase : Bool := false
  multiline : Bool := false
  dotAll : Bool := false
  /-- White space and comments are skipped. -/
  verbose : Bool := false
  /-- Classes and letter case are those of ASCII. -/
  ascii : Bool := false
  /-- No loops are admitted. -/
  template : Bool := false
  deriving Repr, DecidableEq

/-- The letters that set modes. -/
def isFlag (c : Char) : Bool := c ∈ ['i', 'L', 'm', 's', 'x', 'a', 't', 'u']

/-- The letters that choose between ASCII and all scripts. -/
def isScriptFlag (c : Char) : Bool := c ∈ ['a', 'L', 'u']

/-- What a flag group asks for. -/
structure Flags where
  on : List Char
  off : List Char
  /-- The group has no body and sets modes for the whole pattern. -/
  isGlobal : Bool
  deriving Repr, DecidableEq

/-- The modes after some letters turn modes on and others turn modes off. -/
def Modes.change (modes : Modes) (on off : List Char) : Modes where
  ignoreCase := (modes.ignoreCase || 'i' ∈ on) && 'i' ∉ off
  multiline := (modes.multiline || 'm' ∈ on) && 'm' ∉ off
  dotAll := (modes.dotAll || 's' ∈ on) && 's' ∉ off
  verbose := (modes.verbose || 'x' ∈ on) && 'x' ∉ off
  ascii := if 'a' ∈ on then true else if 'u' ∈ on then false else modes.ascii
  template := modes.template || 't' ∈ on

/-- The letters before a minus sign, colon or closing parenthesis, that character, and the offset
after it. -/
def readFlagsOn (pos : Nat) (on : List Char) : List Char → Except Failure (List Char × Char × Nat)
  | [] => fail .missingFlagEnd pos pos
  | c :: rest =>
    if isFlag c then
      if c = 'L' then fail .localeFlag (pos + 1) (pos + 1)
      else if isScriptFlag c && on.any (fun d => isScriptFlag d && d ≠ c) then
        fail .clashingScriptFlags (pos + 1) (pos + 1)
      else readFlagsOn (pos + 1) (c :: on) rest
    else if c ∈ [')', '-', ':'] then .ok (on, c, pos + 1)
    else fail (if Text.isLetter c then .unknownFlag else .missingFlagEnd) pos
      (pos + (token (c :: rest)).length)

/-- The letters between a minus sign and a colon, and the offset after the colon. -/
def readFlagsOff (pos : Nat) (off : List Char) : List Char → Except Failure (List Char × Nat)
  | [] => fail (if off.isEmpty then .missingFlag else .missingColon) pos pos
  | c :: rest =>
    if isFlag c then
      if isScriptFlag c then fail .scriptFlagOff (pos + 1) (pos + 1)
      else readFlagsOff (pos + 1) (c :: off) rest
    else if c = ':' && !off.isEmpty then .ok (off, pos + 1)
    else
      fail (if Text.isLetter c then .unknownFlag
        else if off.isEmpty then .missingFlag else .missingColon) pos
        (pos + (token (c :: rest)).length)

/-- A flag group whose first character after the question mark is at `pos`, and the offset after
its colon or closing parenthesis. -/
def readFlags (pos : Nat) (cs : List Char) : Except Failure (Flags × Nat) := do
  let (on, delimiter, after) ← readFlagsOn pos [] cs
  if delimiter = ')' then
    return (⟨on, [], true⟩, after)
  if 't' ∈ on then
    fail .globalFlagOn (after - 1) after
  if delimiter = ':' then
    return (⟨on, [], false⟩, after)
  let (off, final) ← readFlagsOff after [] (cs.drop (after - pos))
  if 't' ∈ off then
    fail .globalFlagOff (final - 1) final
  if on.any (· ∈ off) then
    fail .flagOnAndOff (final - 1) final
  return (⟨on, off, false⟩, final)

end VerseSearch.Pattern
