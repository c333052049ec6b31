import VerseSearch.Json.Basic

/-! # Writing JSON texts

* `Json.write`: a value on one line, with given separators.
* `Json.writeIndented`: a value with one item or field on each line.

Characters beyond ASCII are written as they are; controls, quotes and backslashes are escaped.
-/

namespace VerseSearch.Json
set_option autoImplicit false

/-- What stands between two items, and between a name and its value. -/
structure Separators where
  item : Text
  name : Text

/-- A comma or colon followed by a space. -/
def spaced : Separators := ⟨", ".toList, ": ".toList⟩

def compact : Separators := ⟨",".toList, ":".toList⟩

def writeChar (c : Char) : Text :=
  if c = '"' then ['\\', '"']
  else if c = '\\' then ['\\', '\\']
  else if c = '\n' then ['\\', 'n']
  else if c = '\r' then ['\\', 'r']
  else if c = '\t' then ['\\', 't']
  else if c = '\x08' then ['\\', 'b']
  else if c = '\x0c' then ['\\', 'f']
  else if c.toNat < 0x20 then '\\' :: 'u' :: Text.hex 4 c.toNat
  else [c]

def writeString (t : Text) : Text := '"' :: t.flatMap writeChar ++ ['"']

/-- The written form of a number with a fraction. -/
def writeReal : Binary64 → Text
  | .notANumber => "NaN".toList
  | .infinite negative => (if negative then "-Infinity" else "Infinity").toList
  | x => x.toText

/-- A value that holds no others. -/
def writeScalar : Json → Text
  | .null => "null".toList
  | .bool true => "true".toList
  | .bool false => "false".toList
  | .int n => Text.ofInt n
  | .real x => writeReal x
  | .str t => writeString t
  | .arr _ => "[]".toList
  | .obj _ => "\x7b\x7d".toList

mutual

def write (sep : Separators) : Json → Text
  | .arr items => '[' :: writeItems sep items ++ [']']
  | .obj fields => '\x7b' :: writeFields sep fields ++ ['\x7d']
  | scalar => writeScalar scalar

def writeItems (sep : Separators) : List Json → Text
  | [] => []
  | [item] => item.write sep
  | item :: next :: rest => item.write sep ++ sep.item ++ writeItems sep (next :: rest)

def writeFields (sep : Separators) : List (Text × Json) → Text
  | [] => []
  | [(name, value)] => writeString name ++ sep.name ++ value.write sep
  | (name, value) :: next :: rest =>
    writeString name ++ sep.name ++ value.write sep ++ sep.item ++
      writeFields sep (next :: rest)

end

def newLine (depth : Nat) : Text := '\n' :: List.replicate (2 * depth) ' '

mutual

/-- A value with one item or field on each line, at a depth of nesting. -/
def writeIndented (depth : Nat) : Json → Text
  | .arr (item :: rest) =>
    '[' :: indentedItems (depth + 1) (item :: rest) ++ newLine depth ++ [']']
  | .obj (field :: rest) =>
    '\x7b' :: indentedFields (depth + 1) (field :: rest) ++ newLine depth ++ ['\x7d']
  | scalar => writeScalar scalar

/-- The items of an array, each on a line of its own. -/
def indentedItems (depth : Nat) : List Json → Text
  | [] => []
  | [item] => newLine depth ++ item.writeIndented depth
  | item :: next :: rest =>
    newLine depth ++ item.writeIndented depth ++ ',' :: indentedItems depth (next :: rest)

/-- The fields of an object, each on a line of its own. -/
def indentedFields (depth : Nat) : List (Text × Json) → Text
  | [] => []
  | [(name, value)] =>
    newLine depth ++ writeString name ++ ": ".toList ++ value.writeIndented depth
  | (name, value) :: next :: rest =>
    newLine depth ++ writeString name ++ ": ".toList ++ value.writeIndented depth ++
      ',' :: indentedFields depth (next :: rest)

end

end VerseSearch.Json
