import VerseSearch.Json.Reader
import VerseSearch.Text.Utf8

/-! # Addresses of requests

An address is a path with perhaps parameters after a question mark.

* `Url.unescape`: a text with its escaped bytes resolved.
* `Url.path`: the path of an address.
* `Url.parameters`: the parameters of an address.
-/

namespace VerseSearch.Url
set_option autoImplicit false

/-! ## Escapes -/

/-- The bytes of a text, where a percent sign with two hexadecimal digits is one byte. -/
def bytes : Text → List UInt8
  | [] => []
  | '%' :: a :: b :: rest =>
    match Json.hexDigit? a, Json.hexDigit? b with
    | some high, some low => UInt8.ofNat (high * 16 + low) :: bytes rest
    | _, _ => Utf8.encode ['%'] ++ bytes (a :: b :: rest)
  | c :: rest => Utf8.encode [c] ++ bytes rest

/-- A text with its escaped bytes resolved. -/
def unescape (t : Text) : Text := Utf8.decode (bytes t)

/-! ## Parts -/

/-- An address without the mark of a place in the answer. -/
def withoutFragment (url : Text) : Text := url.takeWhile (· ≠ '#')

/-- The segments of a path without those that stand for the segment itself or for the one above
it. -/
def dropDots (done : List Text) : List Text → List Text
  | [] => done.reverse
  | ['.'] :: rest => dropDots done rest
  | ['.', '.'] :: rest => dropDots (if done = [[]] then done else done.tail) rest
  | segment :: rest => dropDots (segment :: done) rest

/-- The path of an address, from its first slash on. Escapes are resolved twice, so that a percent
sign may itself be escaped. -/
def path (url : Text) : Text :=
  let written := '/' :: ((withoutFragment url).takeWhile (· ≠ '?')).dropWhile (· = '/')
  unescape (unescape (List.intercalate ['/'] (dropDots [] (List.splitOn '/' written))))

/-- The name and the value of a parameter, where a plus sign stands for a space. -/
def parameter (t : Text) : Text × Text :=
  let resolve (part : Text) : Text := unescape (part.replaceChar '+' ' ')
  (resolve (t.takeWhile (· ≠ '=')), resolve ((t.dropWhile (· ≠ '=')).drop 1))

def parameters (url : Text) : List (Text × Text) :=
  let written := ((withoutFragment url).dropWhile (· ≠ '?')).drop 1
  ((List.splitOn '&' written).filter (!·.isEmpty)).map parameter

end VerseSearch.Url
