import VerseSearch.Json.Basic
import VerseSearch.Text.Digit

/-! # Forms

Settings and requests are forms of named fields. A value may be given as JSON or as text, and a text
may stand for an integer or a truth value. All fields are checked before the first problem is
reported.

* `Form.Fault`: what can be wrong with a value; `Form.Problem`: a fault and its place.
* `Form.readInt`, `Form.readBool`: the integer and the truth value of a text.
* `Form.int`, `Form.bool`, `Form.text`: the same of a JSON value.
* `Form.Checked`: a value, or all problems of the fields it depends on.
-/

namespace VerseSearch.Form
set_option autoImplicit false

/-! ## Problems -/

/-- What can be wrong with a value. -/
inductive Fault where
  | missing
  | notText
  | tooShort
  | tooLong
  | blank
  | notInteger
  | malformedInteger
  | tooManyDigits
  | fractional
  | notFinite
  | belowMinimum
  | aboveMaximum
  | notTruthValue
  | malformedTruthValue
  | notAnObject
  | notAList
  deriving Repr, DecidableEq

/-- The code that stands for a fault in answers. -/
def Fault.code : Fault → String
  | .missing => "missing"
  | .notText => "string_type"
  | .tooShort => "string_too_short"
  | .tooLong => "string_too_long"
  | .blank => "value_error"
  | .notInteger => "int_type"
  | .malformedInteger => "int_parsing"
  | .tooManyDigits => "int_parsing_size"
  | .fractional => "int_from_float"
  | .notFinite => "finite_number"
  | .belowMinimum => "greater_than_equal"
  | .aboveMaximum => "less_than_equal"
  | .notTruthValue => "bool_type"
  | .malformedTruthValue => "bool_parsing"
  | .notAnObject => "model_attributes_type"
  | .notAList => "list_type"

/-- A step from a value to a part of it. -/
inductive Step where
  | name (name : String)
  | index (index : Nat)
  deriving Repr, DecidableEq

structure Problem where
  place : List Step
  fault : Fault
  deriving Repr, DecidableEq

def Step.toJson : Step → Json
  | .name n => .ofString n
  | .index i => .ofNat i

def Problem.toJson (p : Problem) : Json :=
  .ofFields [("loc", .ofList Step.toJson p.place), ("type", .ofString p.fault.code)]

/-! ## Texts of values -/

/-- The digits of a number that may end in a point and zeros. -/
def dropZeroFraction (t : Text) : Text :=
  let fraction := t.dropWhile (· ≠ '.')
  if fraction.tail.all (· = '0') then t.takeWhile (· ≠ '.') else t

/-- An unsigned number with the digits from 0 to 9, single underscores between digits and perhaps a
fraction of zeros. -/
def readNat (t : Text) : Except Fault Nat :=
  let digits := dropZeroFraction t
  if digits.all fun c => c.isDigit || c = '_' then
    match Text.readNat digits with
    | .ok n => .ok n
    | .error .malformed => .error .malformedInteger
    | .error (.tooManyDigits _) => .error .tooManyDigits
  else .error .malformedInteger

/-- An integer with white space around it and at most one sign. -/
def readInt (t : Text) : Except Fault Int :=
  match Text.stripNumber t with
  | '-' :: rest => (readNat rest).map fun n => -(n : Int)
  | '+' :: rest => (readNat rest).map Int.ofNat
  | rest => (readNat rest).map Int.ofNat

def trueWords : List String := ["true", "1", "yes", "on", "t", "y"]

def falseWords : List String := ["false", "0", "no", "off", "f", "n"]

/-- A truth value, with letters of either case. -/
def readBool (t : Text) : Except Fault Bool :=
  let word := String.ofList (t.map Char.toLower)
  if word ∈ trueWords then .ok true
  else if word ∈ falseWords then .ok false
  else .error .malformedTruthValue

/-! ## JSON values -/

/-- The greatest magnitude of an integer that is read from a number with a fraction. -/
def realBound : Int := Binary64.powerOfTwo 63

/-- The integer that a number with a fraction equals. -/
def intOfReal (x : Binary64) : Except Fault Int :=
  match x.toRat? with
  | none => .error .notFinite
  | some q =>
    if q.den ≠ 1 then .error .fractional
    else if -realBound < q.num ∧ q.num < realBound then .ok q.num
    else .error .tooManyDigits

/-- The integer of a value. Truth values count as one and zero. -/
def int : Json → Except Fault Int
  | .int n => .ok n
  | .bool b => .ok (if b then 1 else 0)
  | .str t => readInt t
  | .real x => intOfReal x
  | _ => .error .notInteger

def boolOfInt (n : Int) : Except Fault Bool :=
  if n = 1 then .ok true else if n = 0 then .ok false else .error .malformedTruthValue

/-- The truth value of a value. -/
def bool : Json → Except Fault Bool
  | .bool b => .ok b
  | .str t => readBool t
  | .int n => if -realBound ≤ n ∧ n < realBound then boolOfInt n else .error .notTruthValue
  | .real x =>
    match intOfReal x with
    | .ok n => boolOfInt n
    | .error _ => .error .notTruthValue
  | _ => .error .notTruthValue

def text : Json → Except Fault Text
  | .str t => .ok t
  | _ => .error .notText

/-- Null as nothing, any other value as it is read. -/
def nullable {α : Type} (f : Json → Except Fault α) : Json → Except Fault (Option α)
  | .null => .ok none
  | j => (f j).map some

/-! ## Limits -/

def atLeast (least n : Int) : Except Fault Int :=
  if n < least then .error .belowMinimum else .ok n

def within (least greatest n : Int) : Except Fault Int :=
  match atLeast least n with
  | .error e => .error e
  | .ok n => if greatest < n then .error .aboveMaximum else .ok n

def nonempty (t : Text) : Except Fault Text := if t.isEmpty then .error .tooShort else .ok t

/-! ## Checking fields together -/

/-- A value, or the problems of the fields it depends on. -/
inductive Checked (α : Type) where
  | valid (value : α)
  | invalid (problems : List Problem)
  deriving Repr, DecidableEq

namespace Checked

variable {α β : Type}

def ofField (place : List Step) : Except Fault α → Checked α
  | .ok a => .valid a
  | .error fault => .invalid [⟨place, fault⟩]

/-- Applies a function of earlier fields to a later field; the problems of both are kept in
order. -/
def and (f : Checked (α → β)) (x : Checked α) : Checked β :=
  match f, x with
  | .valid f, .valid a => .valid (f a)
  | .valid _, .invalid ps => .invalid ps
  | .invalid ps, .valid _ => .invalid ps
  | .invalid ps, .invalid qs => .invalid (ps ++ qs)

/-- The items of a list, each at its index. -/
def items (place : List Step) (f : Json → Except Fault α) (index : Nat) :
    List Json → Checked (List α)
  | [] => .valid []
  | j :: rest =>
    ((valid List.cons).and (ofField (place ++ [.index index]) (f j))).and
      (items place f (index + 1) rest)

def list (place : List Step) (f : Json → Except Fault α) : Json → Checked (List α)
  | .arr js => items place f 0 js
  | _ => .invalid [⟨place, .notAList⟩]

end Checked

end VerseSearch.Form
