import VerseSearch.Json.Binary64
import VerseSearch.Text.Quoted

/-! # JSON values

* `Json`: values; the fields of an object keep their order and have distinct names.
* `Json.field?`: a field of an object.
* `Json.kindName`: the name of a value's kind in messages.
* `Json.shown`: a value as it stands in a message.
-/

namespace VerseSearch
set_option autoImplicit false

/-- JSON values. Whole numbers and numbers with a fraction are told apart. -/
inductive Json where
  | null
  | bool (value : Bool)
  | int (value : Int)
  | real (value : Binary64)
  | str (value : Text)
  | arr (items : List Json)
  | obj (fields : List (Text × Json))
  deriving Inhabited

namespace Json

def ofString (s : String) : Json := .str s.toList

def ofNat (n : Nat) : Json := .int n

def ofOption {α : Type} (f : α → Json) : Option α → Json
  | some a => f a
  | none => .null

def ofList {α : Type} (f : α → Json) (xs : List α) : Json := .arr (xs.map f)

def ofFields (fields : List (String × Json)) : Json :=
  .obj (fields.map fun (name, value) => (name.toList, value))

def lookup? (name : Text) (fields : List (Text × Json)) : Option Json := fields.lookup name

/-- The value of a field, if the value is an object that has it. -/
def field? (name : String) : Json → Option Json
  | .obj fields => lookup? name.toList fields
  | _ => none

/-- Sets a field: a new one comes last, an old one keeps its place. -/
def setField (name : Text) (value : Json) : List (Text × Json) → List (Text × Json)
  | [] => [(name, value)]
  | (other, old) :: rest =>
    if other = name then (name, value) :: rest else (other, old) :: setField name value rest

/-- The name of a value's kind in messages. -/
def kindName : Json → String
  | .null => "NoneType"
  | .bool _ => "bool"
  | .int _ => "int"
  | .real _ => "float"
  | .str _ => "str"
  | .arr _ => "list"
  | .obj _ => "dict"

mutual

/-- A value as it stands in a message. -/
def shown : Json → Text
  | .null => "None".toList
  | .bool true => "True".toList
  | .bool false => "False".toList
  | .int n => Text.ofInt n
  | .real x => x.toText
  | .str t => t.quoted
  | .arr items => '[' :: shownItems items ++ [']']
  | .obj fields => '\x7b' :: shownFields fields ++ ['\x7d']

def shownItems : List Json → Text
  | [] => []
  | [item] => item.shown
  | item :: next :: rest => item.shown ++ ", ".toList ++ shownItems (next :: rest)

def shownFields : List (Text × Json) → Text
  | [] => []
  | [(name, value)] => name.quoted ++ ": ".toList ++ value.shown
  | (name, value) :: next :: rest =>
    name.quoted ++ ": ".toList ++ value.shown ++ ", ".toList ++ shownFields (next :: rest)

end

end Json

end VerseSearch
