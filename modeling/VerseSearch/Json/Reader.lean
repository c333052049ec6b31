import VerseSearch.Json.Basic
import VerseSearch.Text.Digit

/-! # Reading JSON texts

* `Json.readValue`: a value at the start of a text, and the rest of the text.
* `Json.parse`: the value that a whole text stands for.

Besides the standard's values there are `NaN`, `Infinity` and `-Infinity`. Of two fields with one
name the later value counts, at the place of the earlier one.
-/

namespace VerseSearch.Json
set_option autoImplicit false

/-- Why a text is not read as a JSON value. -/
inductive ReadError where
  | malformed
  /-- A whole number has too many digits. -/
  | tooManyDigits (count : Nat)
  deriving Repr, DecidableEq

def ReadError.message : ReadError → String
  | .malformed => "The text is not well-formed JSON"
  | .tooManyDigits count => Text.tooManyDigitsMessage count

/-- White space between the parts of a JSON text. -/
def isSpace (c : Char) : Bool := c = ' ' || c = '\t' || c = '\n' || c = '\r'

def skipSpace (t : Text) : Text := t.dropWhile isSpace

/-! ## Strings -/

def hexDigit? (c : Char) : Option Nat :=
  if '0' ≤ c && c ≤ '9' then some (c.toNat - 48)
  else if 'a' ≤ c && c ≤ 'f' then some (c.toNat - 87)
  else if 'A' ≤ c && c ≤ 'F' then some (c.toNat - 55)
  else none

def hex4? (a b c d : Char) : Option Nat := do
  let w ← hexDigit? a
  let x ← hexDigit? b
  let y ← hexDigit? c
  let z ← hexDigit? d
  return ((w * 16 + x) * 16 + y) * 16 + z

/-- The characters that one letter stands for after a backslash. -/
def simpleEscape? : Char → Option Char
  | '"' => some '"'
  | '\\' => some '\\'
  | '/' => some '/'
  | 'b' => some '\x08'
  | 'f' => some '\x0c'
  | 'n' => some '\n'
  | 'r' => some '\r'
  | 't' => some '\t'
  | _ => none

/-- The character of a code unit; a half of a pair that stands alone has none of its own. -/
def unitChar (n : Nat) : Char := if 0xD800 ≤ n && n ≤ 0xDFFF then '\ufffd' else Char.ofNat n

/-- The rest of a string after its opening quote and the characters `done`, the last of which
comes first, and the text after its closing quote. Two code units that form a pair are one
character. -/
def readStringAfter (done : Text) : Text → Option (Text × Text)
  | [] => none
  | '"' :: rest => some (done.reverse, rest)
  | '\\' :: 'u' :: a :: b :: c :: d :: '\\' :: 'u' :: e :: f :: g :: h :: rest =>
    match hex4? a b c d, hex4? e f g h with
    | some high, some low =>
      if 0xD800 ≤ high && high ≤ 0xDBFF && 0xDC00 ≤ low && low ≤ 0xDFFF then
        let pair := Char.ofNat (0x10000 + (high - 0xD800) * 0x400 + (low - 0xDC00))
        readStringAfter (pair :: done) rest
      else readStringAfter (unitChar high :: done) ('\\' :: 'u' :: e :: f :: g :: h :: rest)
    | _, _ => none
  | '\\' :: 'u' :: a :: b :: c :: d :: rest =>
    match hex4? a b c d with
    | some n => readStringAfter (unitChar n :: done) rest
    | none => none
  | '\\' :: e :: rest =>
    match simpleEscape? e with
    | some c => readStringAfter (c :: done) rest
    | none => none
  | c :: rest => if c.toNat < 0x20 || c = '\\' then none else readStringAfter (c :: done) rest

/-- The rest of a string after its opening quote, and the text after its closing quote. -/
def readString (t : Text) : Option (Text × Text) := readStringAfter [] t

/-! ## Numbers -/

/-- The exponent part of a number, if there is one, and the rest. -/
def readExponent (t : Text) : Option (Int × Text) :=
  match t with
  | e :: rest =>
    if e = 'e' || e = 'E' then
      let (negative, digits) : Bool × Text :=
        match rest with
        | '-' :: more => (true, more)
        | '+' :: more => (false, more)
        | more => (false, more)
      let ds := digits.takeWhile Char.isDigit
      if ds.isEmpty then none
      else
        let n : Int := Text.digitsToNat (ds.map fun c => c.toNat - 48)
        some (if negative then -n else n, digits.dropWhile Char.isDigit)
    else none
  | [] => none

/-- The fraction part of a number, if there is one, and the rest. -/
def readFraction (t : Text) : Option (Text × Text) :=
  match t with
  | '.' :: rest =>
    let ds := rest.takeWhile Char.isDigit
    if ds.isEmpty then none else some (ds, rest.dropWhile Char.isDigit)
  | _ => none

def readNumber (negative : Bool) (t : Text) : Except ReadError (Json × Text) :=
  let whole :=
    match t with
    | '0' :: _ => ['0']
    | _ => t.takeWhile Char.isDigit
  let value (ds : Text) : Nat := Text.digitsToNat (ds.map fun c => c.toNat - 48)
  if whole.isEmpty then .error .malformed
  else
    let rest := t.drop whole.length
    match readFraction rest, readExponent rest with
    | none, none =>
      if Text.maxIntegerDigits < whole.length then .error (.tooManyDigits whole.length)
      else
        let n : Int := value whole
        .ok (.int (if negative then -n else n), rest)
    | none, some (e, after) => .ok (.real (.ofDecimal negative (value whole) e), after)
    | some (fraction, after), _ =>
      let (e, final) := (readExponent after).getD (0, after)
      .ok (.real (.ofDecimal negative (value (whole ++ fraction)) (e - fraction.length)), final)

/-! ## Values -/

/-- The fixed words and their values. -/
def words : List (String × Json) :=
  [("null", .null), ("true", .bool true), ("false", .bool false), ("NaN", .real .notANumber),
   ("Infinity", .real (.infinite false)), ("-Infinity", .real (.infinite true))]

/-- A fixed word at the start of a text, and the rest. -/
def readWord (t : Text) : Option (Json × Text) :=
  words.findSome? fun (word, value) => (List.isPrefixOf? word.toList t).map (value, ·)

/-- Reports a missing part as a malformed text. -/
def orMalformed {α : Type} (x : Option α) : Except ReadError α :=
  match x with
  | some a => .ok a
  | none => .error .malformed

mutual

/-- A value at the start of a text, and the rest; nesting goes at most `fuel` deep. -/
def readValue : Nat → Text → Except ReadError (Json × Text)
  | 0, _ => .error .malformed
  | fuel + 1, t =>
    match t with
    | '"' :: rest => (orMalformed (readString rest)).map fun (s, after) => (.str s, after)
    | '[' :: rest =>
      match skipSpace rest with
      | ']' :: after => .ok (.arr [], after)
      | start => (readItems fuel start).map fun (items, after) => (.arr items, after)
    | '\x7b' :: rest =>
      match skipSpace rest with
      | '\x7d' :: after => .ok (.obj [], after)
      | start => (readFields fuel [] start).map fun (fields, after) => (.obj fields, after)
    | _ =>
      match readWord t, t with
      | some found, _ => .ok found
      | none, '-' :: rest => readNumber true rest
      | none, _ => readNumber false t

/-- The items of an array up to its closing bracket. -/
def readItems : Nat → Text → Except ReadError (List Json × Text)
  | 0, _ => .error .malformed
  | fuel + 1, t =>
    match readValue fuel t with
    | .error e => .error e
    | .ok (item, rest) =>
      match skipSpace rest with
      | ']' :: after => .ok ([item], after)
      | ',' :: more =>
        (readItems fuel (skipSpace more)).map fun (items, after) => (item :: items, after)
      | _ => .error .malformed

/-- The fields of an object up to its closing brace, after the fields before them. -/
def readFields : Nat → List (Text × Json) → Text → Except ReadError (List (Text × Json) × Text)
  | 0, _, _ => .error .malformed
  | fuel + 1, fields, t =>
    match t with
    | '"' :: rest =>
      match readString rest with
      | none => .error .malformed
      | some (name, afterName) =>
        match skipSpace afterName with
        | ':' :: more =>
          match readValue fuel (skipSpace more) with
          | .error e => .error e
          | .ok (value, afterValue) =>
            let fields := setField name value fields
            match skipSpace afterValue with
            | '\x7d' :: after => .ok (fields, after)
            | ',' :: next => readFields fuel fields (skipSpace next)
            | _ => .error .malformed
        | _ => .error .malformed
    | _ => .error .malformed

end

/-- The value that a whole text stands for. -/
def parse (t : Text) : Except ReadError Json :=
  match readValue (2 * t.length + 2) (skipSpace t) with
  | .error e => .error e
  | .ok (value, rest) => if (skipSpace rest).isEmpty then .ok value else .error .malformed

end VerseSearch.Json
