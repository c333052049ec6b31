import VerseSearch.Pattern.Error
import VerseSearch.Pattern.Syntax

/-! # Escapes in patterns

A reader of a part of a pattern takes the offset of the part and the characters that follow. It
gives what it read and the number of characters it read, or a failure.

* `Failure`: a problem, the offset it is reported at and the offset reading had reached.
* `CharNames`: the names of characters.
* `readCodeEscape`: escapes that name a code point, common to brackets and to the open pattern.
* `readSetEscape`: escapes inside brackets.
* `token`: one character, or a backslash with the character after it.
-/

namespace VerseSearch.Pattern
set_option autoImplicit false

/-! ## Failures -/

/-- Why reading stopped. -/
inductive FailureCause where
  /-- A problem, reported at an offset. -/
  | problem (what : Problem) (offset : Nat)
  /-- A limit that is exceeded. -/
  | limit (l : Limit)
  deriving Repr, DecidableEq

/-- A failure, and the offset up to which the pattern had been read when it was noticed. -/
structure Failure where
  cause : FailureCause
  noticed : Nat
  deriving Repr, DecidableEq

/-- A failure with a problem reported at `offset`, noticed after reading up to `noticed`. -/
def fail {α : Type} (problem : Problem) (offset noticed : Nat) : Except Failure α :=
  .error ⟨.problem problem offset, noticed⟩

/-! ## Characters of escapes -/

/-- The first unit of a pattern: a character, or a backslash with the character after it. -/
def token : List Char → Text
  | '\\' :: c :: _ => ['\\', c]
  | c :: _ => [c]
  | [] => []

def isHexDigit (c : Char) : Bool :=
  c.isDigit || 'a' ≤ c && c ≤ 'f' || 'A' ≤ c && c ≤ 'F'

def isOctalDigit (c : Char) : Bool := '0' ≤ c && c ≤ '7'

def hexDigitValue (c : Char) : Nat :=
  if c.isDigit then c.toNat - 48 else if 'a' ≤ c then c.toNat - 87 else c.toNat - 55

def hexValue (digits : Text) : Nat := digits.foldl (fun n c => 16 * n + hexDigitValue c) 0

def octalValue (digits : Text) : Nat := digits.foldl (fun n c => 8 * n + hexDigitValue c) 0

/-- The first characters of a class, at most `count` of them. -/
def takeAtMost (count : Nat) (p : Char → Bool) (cs : List Char) : Text :=
  (cs.take count).takeWhile p

/-! ## Escapes -/

/-- The escapes that stand for a control character or the backslash. -/
def controlEscape? : Char → Option Nat
  | 'a' => some 7
  | 'f' => some 12
  | 'n' => some 10
  | 'r' => some 13
  | 't' => some 9
  | 'v' => some 11
  | '\\' => some 92
  | _ => none

/-- The escapes that stand for a class of characters. -/
def categoryEscape? : Char → Option SetItem
  | 'd' => some (.category .digit false)
  | 'D' => some (.category .digit true)
  | 's' => some (.category .blank false)
  | 'S' => some (.category .blank true)
  | 'w' => some (.category .word false)
  | 'W' => some (.category .word true)
  | _ => none

/-- A code point written with exactly `width` hexadecimal digits after `letter`. -/
def readHexEscape (pos : Nat) (letter : Char) (width : Nat) (rest : List Char) :
    Except Failure (Nat × Nat) :=
  let digits := takeAtMost width isHexDigit rest
  let escape := '\\' :: letter :: digits
  let after := pos + escape.length
  if digits.length < width then fail (.incompleteEscape escape) pos after
  else if hexValue digits > 0x10FFFF then fail (.badEscape escape) pos after
  else .ok (hexValue digits, 1 + width)

/-- The name of a thing up to a terminator, and whether the terminator is there. A backslash and
the character after it belong together. -/
def takeName (terminator : Char) : List Char → Text × Bool
  | [] => ([], false)
  | '\\' :: c :: rest =>
    let (name, found) := takeName terminator rest
    ('\\' :: c :: name, found)
  | c :: rest =>
    if c = terminator then ([], true)
    else
      let (name, found) := takeName terminator rest
      (c :: name, found)

/-- A name that starts at `pos`, without its terminator. -/
def readName (kind : String) (terminator : Char) (pos : Nat) (cs : List Char) :
    Except Failure Text :=
  match takeName terminator cs with
  | ([], false) => fail (.missingName kind) pos pos
  | ([], true) => fail (.missingName kind) pos (pos + 1)
  | (name, false) => fail (.unclosedName terminator) pos (pos + name.length)
  | (name, true) => .ok name

/-- The characters that have names. Which names there are is not part of the notation. -/
class CharNames where
  find? : Text → Option Char

instance CharNames.empty : CharNames := ⟨fun _ => none⟩

variable [CharNames]

/-- The code point of a character whose name stands between braces after `N`. -/
def readNamedEscape (pos : Nat) : List Char → Except Failure (Nat × Nat)
  | '\x7b' :: cs =>
    match readName "character name" '\x7d' (pos + 3) cs with
    | .error e => .error e
    | .ok name =>
      match CharNames.find? name with
      | some c => .ok (c.toNat, 3 + name.length)
      | none => fail (.unknownCharacterName name) pos (pos + 4 + name.length)
  | _ => fail .missingBrace (pos + 2) (pos + 2)

/-- The escapes `x`, `u`, `U` and `N`, which name a code point; `pos` is the backslash. -/
def readCodeEscape (pos : Nat) (letter : Char) (rest : List Char) :
    Option (Except Failure (Nat × Nat)) :=
  match letter with
  | 'x' => some (readHexEscape pos 'x' 2 rest)
  | 'u' => some (readHexEscape pos 'u' 4 rest)
  | 'U' => some (readHexEscape pos 'U' 8 rest)
  | 'N' => some (readNamedEscape pos rest)
  | _ => none

/-- An escape inside brackets: the character after the backslash at `pos` and what follows. -/
def readSetEscape (pos : Nat) (letter : Char) (rest : List Char) :
    Except Failure (SetItem × Nat) :=
  match controlEscape? letter, categoryEscape? letter, readCodeEscape pos letter rest with
  | some n, _, _ => .ok (.code n, 1)
  | none, some item, _ => .ok (item, 1)
  | none, none, some (.error e) => .error e
  | none, none, some (.ok (n, count)) => .ok (.code n, count)
  | none, none, none =>
    if letter = 'b' then .ok (.code 8, 1)
    else if isOctalDigit letter then
      let digits := letter :: takeAtMost 2 isOctalDigit rest
      if octalValue digits > 0o377 then
        fail (.largeOctal ('\\' :: digits)) pos (pos + 1 + digits.length)
      else .ok (.code (octalValue digits), digits.length)
    else if letter.isDigit || letter.isAlpha then fail (.badEscape ['\\', letter]) pos (pos + 2)
    else .ok (.code letter.toNat, 1)

end VerseSearch.Pattern
