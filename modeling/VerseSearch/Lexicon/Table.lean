import VerseSearch.Lexicon.Basic
import VerseSearch.Text.Lines

/-! # The lexicon as a Markdown table

A row of the table has four cells: the word with points, the word without them, the category, and
the number as a link to its page. Other lines are skipped.

* `Lexicon.Table.cells`: the ways to read a cell.
* `Lexicon.Table.readLink`: the number of a link that ends a line.
* `Lexicon.Table.readRow`: the word, the category and the number of a row.
* `Lexicon.ofLines`: the lexicon of a table.

A cell is read without the white space around it. It may hold bars if the line is no row otherwise,
so the ways to read a line are tried in order: as much white space as there is before a cell, and
the shortest cell first.
-/

namespace VerseSearch.Lexicon
set_option autoImplicit false

namespace Table

/-! ## Cells -/

/-- A text without white space at its start, then with one more white space character at a time. -/
def leads : Text → List Text
  | [] => [[]]
  | c :: rest => if Text.isBlank c then leads rest ++ [c :: rest] else [c :: rest]

/-- The text after white space and a bar. -/
def afterBar? (t : Text) : Option Text :=
  match t.dropWhile Text.isBlank with
  | '|' :: rest => some rest
  | _ => none

/-- The cells that start with the characters `cell`, of which the last one comes first, the shortest
ones first, with the text after the bar that ends each. -/
def cellsFrom (cell : Text) : Text → List (Text × Text)
  | [] => []
  | c :: rest =>
    if c = '\n' then []
    else
      let longer := cellsFrom (c :: cell) rest
      match afterBar? rest with
      | some after => ((c :: cell).reverse, after) :: longer
      | none => longer

/-- The ways to read the cell at the start of a text, with the text after its bar. -/
def cells (t : Text) : List (Text × Text) := (leads t).flatMap (cellsFrom [])

/-! ## Links -/

/-- The digits at the start of a text, at least one, and the rest. -/
def readDigits? (t : Text) : Option (Text × Text) :=
  let digits := t.takeWhile Text.isDigit
  if digits.isEmpty then none else some (digits, t.dropWhile Text.isDigit)

/-- What stands between the brackets of a link and the number of its page. -/
def linkStart : Text := "](https://biblehub.com/hebrew/".toList

/-- What stands after the number of the page. -/
def linkEnd : Text := ".htm)".toList

/-- The digits of the link that, with a bar after it, is all of a text. -/
def readLink (t : Text) : Option Text := do
  let inner : Text ← List.isPrefixOf? ['['] t.stripLeft
  let (digits, afterDigits) ← readDigits? inner.stripLeft
  let page : Text ← List.isPrefixOf? linkStart afterDigits.stripLeft
  let (_, afterPage) ← readDigits? page
  let final : Text ← List.isPrefixOf? linkEnd afterPage
  if final.stripLeft = ['|'] then some digits else none

/-! ## Rows -/

/-- The word, the category and the digits of a row. -/
def readRow (line : Text) : Option (Text × Text × Text) :=
  match line.dropWhile Text.isBlank with
  | '|' :: start =>
    (cells start).findSome? fun (word, afterWord) =>
      (cells afterWord).findSome? fun (_, afterPlain) =>
        (cells afterPlain).findSome? fun (category, afterCategory) =>
          (readLink afterCategory).map fun digits => (word, category, digits)
  | _ => none

inductive Problem where
  | unknownCategory (name : Text)
  | tagOutOfRange (tag : Nat)
  | invalidCharacter (e : Hebrew.InvalidCharacter)
  | missingWord
  deriving Repr, DecidableEq

def Problem.message : Problem → String
  | .unknownCategory name => "Unknown word type " ++ String.ofList name.quoted
  | .tagOutOfRange tag => s!"Strong number {tag} is out of range"
  | .invalidCharacter e => e.message
  | .missingWord => "Missing Hebrew word"

/-- Why a table is not read. -/
inductive Error where
  | row (e : LineError Problem)
  /-- A number has too many digits to be converted. -/
  | tagTooLong (digits : Nat)
  deriving Repr, DecidableEq

def Error.message : Error → String
  | .row e => e.message Problem.message
  | .tagTooLong digits => Text.tooManyDigitsMessage digits

def maxTag : Nat := 65535

/-- The entry of the row that is read from a line, or what is wrong with it. -/
def entryOf (number : Nat) (line word category digits : Text) : Except Error Entry :=
  let refuse {α : Type} (p : Problem) : Except Error α := .error (.row ⟨number, line, p⟩)
  match Category.ofKnownName? category with
  | none => refuse (.unknownCategory category)
  | some category =>
    match Text.readNat digits with
    | .error (.tooManyDigits count) => .error (.tagTooLong count)
    -- a row has digits alone in this place, so they are not malformed
    | .error .malformed => .error (.tagTooLong 0)
    | .ok tag =>
      if maxTag < tag then refuse (.tagOutOfRange tag)
      else match Hebrew.normalize word with
        | .error e => refuse (.invalidCharacter e)
        | .ok normalized =>
          if normalized.isEmpty then refuse .missingWord
          else match Hebrew.searchable normalized with
            | .error e => refuse (.invalidCharacter e)
            | .ok searchable => .ok ⟨tag, normalized, category, searchable⟩

def readLine (number : Nat) (line : Text) : Except Error (Option Entry) :=
  match readRow line with
  | none => .ok none
  | some (word, category, digits) => (entryOf number line word category digits).map some

/-- The entries of the lines from number `number` on, after the entries `done`, the last of which
comes first. -/
def readLines (number : Nat) (done : List Entry) : List Text → Except Error (List Entry)
  | [] => .ok done.reverse
  | line :: rest =>
    match readLine number (Text.dropLineEnd line) with
    | .error e => .error e
    | .ok none => readLines (number + 1) done rest
    | .ok (some entry) => readLines (number + 1) (entry :: done) rest

end Table

def ofLines (lines : List Text) : Except Table.Error Lexicon :=
  (Table.readLines 1 [] lines).map ofEntries

end VerseSearch.Lexicon
