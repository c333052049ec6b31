import VerseSearch.Text.Basic

/-! # Decimal digits and integers

* `Text.digitRanges`: the decimal digits of every script, ten consecutive code points each.
* `Text.digitValue?`: the value of a decimal digit.
* `Text.readInt`: an integer written with surrounding white space, a sign, digits of any script
  and single underscores between digits.
-/

namespace VerseSearch.Text
set_option autoImplicit false

/-- The code points of decimal digits; each script has its ten digits in a row. -/
def digitRanges : List (Nat × Nat) :=
  [(0x30, 0x39), (0x660, 0x669), (0x6F0, 0x6F9), (0x7C0, 0x7C9), (0x966, 0x96F), (0x9E6, 0x9EF),
   (0xA66, 0xA6F), (0xAE6, 0xAEF), (0xB66, 0xB6F), (0xBE6, 0xBEF), (0xC66, 0xC6F), (0xCE6, 0xCEF),
   (0xD66, 0xD6F), (0xDE6, 0xDEF), (0xE50, 0xE59), (0xED0, 0xED9), (0xF20, 0xF29),
   (0x1040, 0x1049), (0x1090, 0x1099), (0x17E0, 0x17E9), (0x1810, 0x1819), (0x1946, 0x194F),
   (0x19D0, 0x19D9), (0x1A80, 0x1A89), (0x1A90, 0x1A99), (0x1B50, 0x1B59), (0x1BB0, 0x1BB9),
   (0x1C40, 0x1C49), (0x1C50, 0x1C59), (0xA620, 0xA629), (0xA8D0, 0xA8D9), (0xA900, 0xA909),
   (0xA9D0, 0xA9D9), (0xA9F0, 0xA9F9), (0xAA50, 0xAA59), (0xABF0, 0xABF9), (0xFF10, 0xFF19),
   (0x104A0, 0x104A9), (0x10D30, 0x10D39), (0x11066, 0x1106F), (0x110F0, 0x110F9),
   (0x11136, 0x1113F), (0x111D0, 0x111D9), (0x112F0, 0x112F9), (0x11450, 0x11459),
   (0x114D0, 0x114D9), (0x11650, 0x11659), (0x116C0, 0x116C9), (0x11730, 0x11739),
   (0x118E0, 0x118E9), (0x11950, 0x11959), (0x11C50, 0x11C59), (0x11D50, 0x11D59),
   (0x11DA0, 0x11DA9), (0x16A60, 0x16A69), (0x16AC0, 0x16AC9), (0x16B50, 0x16B59),
   (0x1D7CE, 0x1D7FF), (0x1E140, 0x1E149), (0x1E2F0, 0x1E2F9), (0x1E950, 0x1E959),
   (0x1FBF0, 0x1FBF9)]

/-- Whether a character is a decimal digit of some script. -/
def isDigit (c : Char) : Bool := inRanges digitRanges c.toNat

/-- The range of a table that holds a number. -/
def findRange : List (Nat × Nat) → Nat → Option (Nat × Nat)
  | [], _ => none
  | (lo, hi) :: rest, n =>
    if n < lo then none else if n ≤ hi then some (lo, hi) else findRange rest n

/-- The value of a decimal digit of some script. -/
def digitValue? (c : Char) : Option Nat :=
  (findRange digitRanges c.toNat).map fun (lo, _) => (c.toNat - lo) % 10

inductive IntegerError where
  /-- The text is not written as an integer. -/
  | malformed
  /-- The text has more digits than are converted. -/
  | tooManyDigits (count : Nat)
  deriving Repr, DecidableEq

def maxIntegerDigits : Nat := 4300

def tooManyDigitsMessage (count : Nat) : String :=
  s!"Exceeds the limit ({maxIntegerDigits} digits) for integer string conversion: value has " ++
    s!"{count} digits; use sys.set_int_max_str_digits() to increase the limit"

/-- The values of the digits of a number; an underscore may stand between two digits. -/
def readDigits : Text → Option (List Nat)
  | [] => none
  | [c] => (digitValue? c).map ([·])
  | c :: '_' :: rest =>
    match digitValue? c, readDigits rest with
    | some d, some ds => some (d :: ds)
    | _, _ => none
  | c :: rest =>
    match digitValue? c, readDigits rest with
    | some d, some ds => some (d :: ds)
    | _, _ => none

def digitsToNat (ds : List Nat) : Nat := ds.foldl (fun n d => 10 * n + d) 0

/-- The number with the given digits, unless there are too many of them. -/
def boundedDigits (ds : List Nat) : Except IntegerError Nat :=
  if ds.length ≤ maxIntegerDigits then .ok (digitsToNat ds) else .error (.tooManyDigits ds.length)

/-- An unsigned number. -/
def readNat (t : Text) : Except IntegerError Nat :=
  match readDigits t with
  | none => .error .malformed
  | some ds => boundedDigits ds

/-- An integer with white space around it and at most one sign. -/
def readInt (t : Text) : Except IntegerError Int :=
  match stripNumber t with
  | '-' :: rest => (readNat rest).map fun n => -(n : Int)
  | '+' :: rest => (readNat rest).map Int.ofNat
  | rest => (readNat rest).map Int.ofNat

end VerseSearch.Text
