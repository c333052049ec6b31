import VerseSearch.Text.Basic

/-! # Text as bytes

A character is one to four bytes, of which all but the first are between 0x80 and 0xBF.

* `Utf8.encode`: the bytes of a text.
* `Utf8.decode`: the text of bytes, where bytes that make no character become U+FFFD.
-/

namespace VerseSearch.Utf8
set_option autoImplicit false

def encode (t : Text) : List UInt8 := t.flatMap String.utf8EncodeChar

/-- The character that stands for bytes that make none. -/
def replacement : Char := '\ufffd'

def isContinuation (b : UInt8) : Bool := 0x80 ≤ b.toNat && b.toNat ≤ 0xBF

/-- Whether a byte may follow the first byte of a character of two or more bytes. Numbers that have
a shorter form, that are no code points or that are halves of pairs are left out. -/
def canFollow (first second : UInt8) : Bool :=
  isContinuation second &&
    (first.toNat ≠ 0xE0 || 0xA0 ≤ second.toNat) && (first.toNat ≠ 0xED || second.toNat ≤ 0x9F) &&
    (first.toNat ≠ 0xF0 || 0x90 ≤ second.toNat) && (first.toNat ≠ 0xF4 || second.toNat ≤ 0x8F)

/-- The number of bytes of the character that a byte begins, zero if it begins none. -/
def width (first : UInt8) : Nat :=
  let n := first.toNat
  if n < 0x80 then 1
  else if 0xC2 ≤ n && n ≤ 0xDF then 2
  else if 0xE0 ≤ n && n ≤ 0xEF then 3
  else if 0xF0 ≤ n && n ≤ 0xF4 then 4
  else 0

/-- The six low bits of a byte that continues a character, after the bits of the bytes before. -/
def extend (bits : Nat) (b : UInt8) : Nat := bits * 64 + b.toNat % 64

/-- The text of bytes. The bytes of a character that breaks off are replaced together. -/
def decode : List UInt8 → Text
  | [] => []
  | [a] => [if width a = 1 then Char.ofNat a.toNat else replacement]
  | a :: b :: rest =>
    if width a = 1 then Char.ofNat a.toNat :: decode (b :: rest)
    else if width a = 0 || !canFollow a b then replacement :: decode (b :: rest)
    else if width a = 2 then Char.ofNat (extend (a.toNat % 32) b) :: decode rest
    else match rest with
      | [] => [replacement]
      | c :: more =>
        if !isContinuation c then replacement :: decode (c :: more)
        else if width a = 3 then Char.ofNat (extend (extend (a.toNat % 16) b) c) :: decode more
        else match more with
          | [] => [replacement]
          | d :: final =>
            if !isContinuation d then replacement :: decode (d :: final)
            else Char.ofNat (extend (extend (extend (a.toNat % 8) b) c) d) :: decode final

end VerseSearch.Utf8
