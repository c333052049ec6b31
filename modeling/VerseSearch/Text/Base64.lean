import VerseSearch.Text.Basic

/-! # Base 64

Three bytes are written as four of 64 characters, and a last group of one or two bytes is filled
with equals signs.

* `Base64.encode`: bytes as text.
* `Base64.decode`: text as bytes; every other character is refused, and padding may stand only
  where it completes the last group.

The bits of the last character that belong to no byte are not looked at.
-/

namespace VerseSearch.Base64
set_option autoImplicit false

/-- The character of a value below 64. -/
def symbol (n : Nat) : Char :=
  if n < 26 then Char.ofNat (65 + n)
  else if n < 52 then Char.ofNat (71 + n)
  else if n < 62 then Char.ofNat (n - 4)
  else if n = 62 then '+' else '/'

def value? (c : Char) : Option Nat :=
  if 'A' ≤ c && c ≤ 'Z' then some (c.toNat - 65)
  else if 'a' ≤ c && c ≤ 'z' then some (c.toNat - 71)
  else if '0' ≤ c && c ≤ '9' then some (c.toNat + 4)
  else if c = '+' then some 62
  else if c = '/' then some 63
  else none

def encode : List UInt8 → Text
  | [] => []
  | [a] => [symbol (a.toNat / 4), symbol (a.toNat % 4 * 16), '=', '=']
  | [a, b] =>
    [symbol (a.toNat / 4), symbol (a.toNat % 4 * 16 + b.toNat / 16), symbol (b.toNat % 16 * 4), '=']
  | a :: b :: c :: rest =>
    symbol (a.toNat / 4) :: symbol (a.toNat % 4 * 16 + b.toNat / 16) ::
      symbol (b.toNat % 16 * 4 + c.toNat / 64) :: symbol (c.toNat % 64) :: encode rest

/-- Why a text stands for no bytes. -/
inductive Error where
  | notAscii
  | leadingPadding
  | foreignCharacter
  | interruptedPadding
  | afterPadding
  /-- A last group of one character, which makes no byte. -/
  | loneCharacter (count : Nat)
  | missingPadding
  deriving Repr, DecidableEq

def Error.message : Error → String
  | .notAscii => "string argument should contain only ASCII characters"
  | .leadingPadding => "Leading padding not allowed"
  | .foreignCharacter => "Only base64 data is allowed"
  | .interruptedPadding => "Discontinuous padding not allowed"
  | .afterPadding => "Excess data after padding"
  | .loneCharacter count =>
    s!"Invalid base64-encoded string: number of data characters ({count}) cannot be 1 more than " ++
      "a multiple of 4"
  | .missingPadding => "Incorrect padding"

/-- What is known in the middle of a text. -/
structure State where
  /-- The place in the group of four characters. -/
  place : Nat := 0
  /-- The bits that wait for the next character. -/
  bits : Nat := 0
  /-- The equals signs since the last other character, at the places where they count. -/
  pads : Nat := 0
  /-- Whether there has been an equals sign. -/
  padded : Bool := false

/-- The state after a character with the given value, and the byte that it completes. -/
def State.accept (s : State) (value : Nat) : State × Option UInt8 :=
  match s.place with
  | 0 => ({ s with place := 1, bits := value, pads := 0 }, none)
  | 1 => ({ s with place := 2, bits := value % 16, pads := 0 },
      some (UInt8.ofNat (s.bits * 4 + value / 16)))
  | 2 => ({ s with place := 3, bits := value % 4, pads := 0 },
      some (UInt8.ofNat (s.bits * 16 + value / 4)))
  | _ => ({ s with place := 0, bits := 0, pads := 0 },
      some (UInt8.ofNat (s.bits * 64 + value)))

/-- The bytes of a text of which the rest is still to be read; `done` are the bytes so far, the
last one first. -/
def decodeFrom (s : State) (done : List UInt8) : Text → Except Error (List UInt8)
  | [] =>
    if s.place = 0 then .ok done.reverse
    else if s.place = 1 then .error (.loneCharacter (done.length / 3 * 4 + 1))
    else .error .missingPadding
  | c :: rest =>
    if c = '=' then
      let pads := if 2 ≤ s.place then s.pads + 1 else s.pads
      if 2 ≤ s.place && 4 ≤ s.place + pads then
        if rest.isEmpty then .ok done.reverse else .error .afterPadding
      else decodeFrom { s with padded := true, pads } done rest
    else match value? c with
      | none => .error .foreignCharacter
      | some value =>
        if s.padded then .error .interruptedPadding
        else match s.accept value with
          | (s, none) => decodeFrom s done rest
          | (s, some byte) => decodeFrom s (byte :: done) rest

def decode (t : Text) : Except Error (List UInt8) :=
  if t.any fun c => 0x80 ≤ c.toNat then .error .notAscii
  else if t.head? = some '=' then .error .leadingPadding
  else decodeFrom {} [] t

end VerseSearch.Base64
