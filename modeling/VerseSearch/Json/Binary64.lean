import VerseSearch.Text.Basic

/-! # Numbers with a fraction

Numbers are kept to the precision of the 64-bit binary format: a mantissa below `2 ^ 53` times a
power of two.

* `Binary64`: finite numbers, infinities and the result of no operation.
* `Binary64.ofRat`: the nearest such number, the even one of two.
* `Binary64.ofDecimal`: the number nearest to a decimal one.
* `Binary64.shortest`: the fewest decimal digits that read back as the number.
* `Binary64.toText`: the usual written form, with a point or an exponent.
* `Binary64.places`: a given number of decimal places.
-/

namespace VerseSearch
set_option autoImplicit false

/-- A number of the 64-bit binary format: mantissa times two to the exponent. -/
inductive Binary64 where
  | finite (negative : Bool) (mantissa : Nat) (exponent : Int)
  | infinite (negative : Bool)
  | notANumber
  deriving Repr, DecidableEq

namespace Binary64

def powerOfTwo (n : Nat) : Nat := Nat.pow 2 n

def powerOfTen (n : Nat) : Nat := Nat.pow 10 n

/-! ## Rounding -/

/-- The natural number nearest to a quotient, the even one of two. -/
def divRound (num den : Nat) : Nat :=
  let q := num / den
  let r := num % den
  if 2 * r < den then q else if den < 2 * r then q + 1 else if q % 2 = 0 then q else q + 1

/-- The quotient of `num / den` by two to the exponent, as numerator and denominator. -/
def scale (num den : Nat) (exponent : Int) : Nat × Nat :=
  if 0 ≤ exponent then (num, den * powerOfTwo exponent.toNat)
  else (num * powerOfTwo (-exponent).toNat, den)

/-- The exponent that leaves at most 53 binary digits before the point, and is not below the
smallest one; `tries` are made from a first guess upwards. -/
def fitExponent (num den : Nat) : Nat → Int → Int
  | 0, e => e
  | tries + 1, e =>
    let (n, d) := scale num den e
    if powerOfTwo 53 ≤ n / d then fitExponent num den tries (e + 1) else e

/-- The number nearest to a quotient of natural numbers, the even one of two. -/
def ofQuotient (negative : Bool) (num den : Nat) : Binary64 :=
  if num = 0 then .finite negative 0 (-1074)
  else
    let guess : Int := (num.log2 : Int) - (den.log2 : Int) - 54
    -- the guess is below the exponent that fits, by no more than the tries
    let e := fitExponent num den 4 (max guess (-1074))
    let (n, d) := scale num den e
    let m := divRound n d
    -- rounding up may bring in one more binary digit
    let (m, e) := if m = powerOfTwo 53 then (powerOfTwo 52, e + 1) else (m, e)
    if 971 < e then .infinite negative else .finite negative m e

/-- The number nearest to a rational one. -/
def ofRat (q : Rat) : Binary64 := ofQuotient (q.num < 0) q.num.natAbs q.den

/-- The rational value of a finite number, without its sign. -/
def magnitude (mantissa : Nat) (exponent : Int) : Nat × Nat :=
  if 0 ≤ exponent then (mantissa * powerOfTwo exponent.toNat, 1)
  else (mantissa, powerOfTwo (-exponent).toNat)

/-- The rational value, if there is one. -/
def toRat? : Binary64 → Option Rat
  | .finite negative m e =>
    let (n, d) := magnitude m e
    some (mkRat (if negative then -(n : Int) else n) d)
  | _ => none

/-- The number nearest to `digits` times ten to the exponent. -/
def ofDecimal (negative : Bool) (digits : Nat) (exponent : Int) : Binary64 :=
  if digits = 0 then .finite negative 0 (-1074)
  else
    -- far from the range of finite numbers the powers of ten are not worth computing
    let top : Int := (Nat.toDigits 10 digits).length + exponent
    if 400 < top then .infinite negative
    else if top < -400 then .finite negative 0 (-1074)
    else if 0 ≤ exponent then ofQuotient negative (digits * powerOfTen exponent.toNat) 1
    else ofQuotient negative digits (powerOfTen (-exponent).toNat)

/-! ## Written forms -/

/-- The number of decimal digits before the point of `num / den`, or minus the number of zeros
after it if there are none. -/
def decimalPoint (num den : Nat) : Int :=
  if den ≤ num then (Nat.toDigits 10 (num / den)).length
  else
    let rec zeros : Nat → Nat → Nat → Int
      | 0, _, count => -count
      | fuel + 1, n, count => if den ≤ n * 10 then -count else zeros fuel (n * 10) (count + 1)
    zeros 400 num 0

/-- The neighbours of `num / den` among the numbers with `count` digits, with the power of ten of
their last digit; the nearer one comes first, and of two equally near ones the even one. -/
def neighbours (num den count : Nat) : List (Nat × Int) :=
  let exponent := decimalPoint num den - count
  let (n, d) :=
    if 0 ≤ exponent then (num, den * powerOfTen exponent.toNat)
    else (num * powerOfTen (-exponent).toNat, den)
  let q := n / d
  if divRound n d = q then [(q, exponent), (q + 1, exponent)]
  else [(q + 1, exponent), (q, exponent)]

/-- The fewest digits that read back as a number, with the power of ten of the last one. -/
def shortest (mantissa : Nat) (exponent : Int) : Nat × Int :=
  let (num, den) := magnitude mantissa exponent
  let reads (p : Nat × Int) : Bool := ofDecimal false p.1 p.2 = .finite false mantissa exponent
  let candidates := (List.range 17).flatMap fun i => neighbours num den (i + 1)
  (candidates.find? reads).getD (num, 0)

/-- Digits without the zeros at their end. -/
def trimZeros (digits : Text) : Text := Text.dropRightWhile (· = '0') digits

/-- Digits before and after a point; `point` digits stand before it. -/
def positional (digits : Text) (point : Int) : Text :=
  if point ≤ 0 then '0' :: '.' :: (List.replicate (-point).toNat '0' ++ digits)
  else
    let whole := digits.take point.toNat ++ List.replicate (point.toNat - digits.length) '0'
    let fraction := digits.drop point.toNat
    whole ++ '.' :: (if fraction.isEmpty then ['0'] else fraction)

/-- Digits with a point after the first one, and a power of ten. -/
def scientific (digits : Text) (point : Int) : Text :=
  let exponent := point - 1
  let size := Text.ofNat exponent.natAbs
  let fraction := digits.drop 1
  digits.take 1 ++ (if fraction.isEmpty then [] else '.' :: fraction) ++
    ['e', if exponent < 0 then '-' else '+'] ++
    List.replicate (2 - size.length) '0' ++ size

/-- The usual written form: positional from one ten-thousandth up to `10 ^ 16`. -/
def toText : Binary64 → Text
  | .notANumber => "nan".toList
  | .infinite negative => (if negative then "-inf" else "inf").toList
  | .finite negative m e =>
    let sign := if negative then ['-'] else []
    if m = 0 then sign ++ "0.0".toList
    else
      let (d, k) := shortest m e
      let all := Text.ofNat d
      let point : Int := all.length + k
      let digits := trimZeros all
      sign ++ if -4 < point && point ≤ 16 then positional digits point else scientific digits point

/-- The written form with a given number of decimal places, the last one rounded to nearest and of
two nearest to the even one. -/
def places (count : Nat) : Binary64 → Text
  | .finite negative m e =>
    let (n, d) := magnitude m e
    let digits := Text.ofNat (divRound (n * powerOfTen count) d)
    let filled := List.replicate (count + 1 - digits.length) '0' ++ digits
    let whole := filled.take (filled.length - count)
    (if negative then ['-'] else []) ++ whole ++ '.' :: filled.drop (filled.length - count)
  | other => other.toText

end Binary64

end VerseSearch
