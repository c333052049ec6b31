import VerseSearch.Text.Lines

/-! # Files of variables

A line of such a file gives a variable its value: `NAME=value`, where `export` may stand in front.
The name and the value may be quoted, and a quoted value may go over several lines. Comments begin
with `#`. A line that is not written like this is passed over. A value may name variables in
`${NAME}` or `${NAME:-default}`.

* `EnvironmentFile.bindings`: the names and the values as they are written.
* `EnvironmentFile.expand`: a value with the values of the variables it names.
* `EnvironmentFile.read`: the variables that a file sets.
-/

namespace VerseSearch.EnvironmentFile
set_option autoImplicit false

/-! ## Lines -/

/-- Whether a character is white space within a line. -/
def isLineBlank (c : Char) : Bool := Text.isBlank c && c ≠ '\n'

/-- The text after the white space of the line. -/
def skipBlanks (t : Text) : Text := t.dropWhile isLineBlank

def firstLine (t : Text) : Text := t.takeWhile (· ≠ '\n')

def fromLineEnd (t : Text) : Text := t.dropWhile (· ≠ '\n')

/-- The text after a comment, if there is one. -/
def skipComment (t : Text) : Text :=
  match skipBlanks t with
  | '#' :: rest => fromLineEnd rest
  | _ => t

/-- The text after the end of the line; where something else stands on the line, that is the
error. -/
def endLine (t : Text) : Except Text Text :=
  match skipBlanks (skipComment t) with
  | [] => .ok []
  | '\n' :: rest => .ok rest
  | other => .error other

/-! ## Names -/

/-- The text after the word `export` and white space. -/
def skipExport (t : Text) : Text :=
  match List.isPrefixOf? "export".toList t with
  | some (c :: rest) => if isLineBlank c then skipBlanks rest else t
  | _ => t

/-- Whether a character may stand in a name without quotes. -/
def isNameChar (c : Char) : Bool := c ≠ '=' && c ≠ '#' && !Text.isBlank c

/-- A name at the start of a text, if there is no comment, and the rest. Where a name is not well
written the text from there on is the error. -/
def readName (t : Text) : Except Text (Option Text × Text) :=
  match t with
  | '#' :: _ => .ok (none, t)
  | '\'' :: rest =>
    let name := rest.takeWhile (· ≠ '\'')
    match rest.dropWhile (· ≠ '\'') with
    | _ :: after => if name.isEmpty then .error t else .ok (some name, after)
    | [] => .error t
  | _ =>
    let name := t.takeWhile isNameChar
    if name.isEmpty then .error t else .ok (some name, t.dropWhile isNameChar)

/-! ## Values -/

/-- The text up to a closing quote and the text after it. A quote after a backslash closes only
when no later one does. -/
def splitAtQuote (quote : Char) : Text → Option (Text × Text)
  | [] => none
  | c :: rest =>
    if c = quote then some ([], rest)
    else match rest with
      | d :: more =>
        if c = '\\' ∧ d = quote then
          match splitAtQuote quote more with
          | some (value, after) => some (c :: d :: value, after)
          -- no later quote closes, so this one does, and the backslash before it stays
          | none => some ([c], more)
        else (splitAtQuote quote (d :: more)).map fun (value, after) => (c :: value, after)
      | [] => none

/-- The text with every escape replaced by the character it stands for. -/
def unescape (meaning : Char → Option Char) : Text → Text
  | [] => []
  | [c] => [c]
  | c :: d :: rest =>
    match if c = '\\' then meaning d else none with
    | some e => e :: unescape meaning rest
    | none => c :: unescape meaning (d :: rest)

def singleQuoteEscape : Char → Option Char
  | '\\' => some '\\'
  | '\'' => some '\''
  | _ => none

def doubleQuoteEscape : Char → Option Char
  | '\\' => some '\\'
  | '\'' => some '\''
  | '"' => some '"'
  | 'a' => some '\x07'
  | 'b' => some '\x08'
  | 'f' => some '\x0c'
  | 'n' => some '\n'
  | 'r' => some '\r'
  | 't' => some '\t'
  | 'v' => some '\x0b'
  | _ => none

/-- A line up to the first white space with a comment after it. -/
def dropComment : Text → Text
  | [] => []
  | c :: rest =>
    if Text.isBlank c && (rest.dropWhile Text.isBlank).head? = some '#' then []
    else c :: dropComment rest

/-- A value at the start of a text, and the rest. Where a quote is not closed the text from there on
is the error. -/
def readValue (t : Text) : Except Text (Text × Text) :=
  let quoted (quote : Char) (meaning : Char → Option Char) (rest : Text) :
      Except Text (Text × Text) :=
    match splitAtQuote quote rest with
    | some (value, after) => .ok (unescape meaning value, after)
    | none => .error t
  match t with
  | '\'' :: rest => quoted '\'' singleQuoteEscape rest
  | '"' :: rest => quoted '"' doubleQuoteEscape rest
  | _ => .ok (Text.stripRight (dropComment (firstLine t)), fromLineEnd t)

/-! ## Bindings -/

/-- A name and its value as they are written; the value may be absent. -/
abbrev Binding := Text × Option Text

/-- The binding of a line, if it is no comment, and the text after the line. Where a line is not
well written the text from there on is the error. -/
def readLine (t : Text) : Except Text (Option Binding × Text) := do
  let (name, afterName) ← readName (skipExport t)
  let rest := skipBlanks afterName
  match rest with
  | '=' :: more =>
    let (value, afterValue) ← readValue (skipBlanks more)
    let next ← endLine afterValue
    return (name.map (·, some value), next)
  | _ =>
    let next ← endLine rest
    return (name.map (·, none), next)

/-- The bindings of a text whose lines end with line feeds, of which at most `fuel` lines are
read. -/
def bindingsOf : Nat → Text → List Binding
  | 0, _ => []
  | fuel + 1, t =>
    match Text.stripLeft t with
    | [] => []
    | start =>
      match readLine start with
      | .ok (binding, rest) => binding.toList ++ bindingsOf fuel rest
      -- what is not well written is passed over up to the end of the line it was noticed on
      | .error place => bindingsOf fuel ((fromLineEnd place).drop 1)

def bindings (content : Text) : List Binding :=
  let t := Text.unifyLineEnds content
  bindingsOf (t.length + 1) t

/-! ## Variables in values -/

/-- The rest of a variable after its opening brace: its name, its default and the text after it. -/
def readVariable (t : Text) : Option (Text × Text × Text) :=
  let isInner (c : Char) : Bool := c ≠ '\x7d' && c ≠ ':'
  let name := t.takeWhile isInner
  match t.dropWhile isInner with
  | '\x7d' :: rest => some (name, [], rest)
  | ':' :: '-' :: more =>
    match more.dropWhile (· ≠ '\x7d') with
    | _ :: rest => some (name, more.takeWhile (· ≠ '\x7d'), rest)
    | [] => none
  | _ => none

/-- A value with the values of the variables it names; the first `skip` characters belong to a
variable that has been read. -/
def expandFrom (lookup : Text → Option Text) (skip : Nat) : Text → Text
  | [] => []
  | c :: rest =>
    match skip with
    | skip + 1 => expandFrom lookup skip rest
    | 0 =>
      match c, rest with
      | '$', '\x7b' :: more =>
        match readVariable more with
        | some (name, default, after) =>
          (lookup name).getD default ++ expandFrom lookup (rest.length - after.length) rest
        | none => c :: expandFrom lookup 0 rest
      | _, _ => c :: expandFrom lookup 0 rest

/-- A value with the values of the variables it names. -/
def expand (lookup : Text → Option Text) (value : Text) : Text := expandFrom lookup 0 value

/-- Sets the value of a name: a new one comes last, an old one keeps its place. -/
def setBinding (name : Text) (value : Option Text) : List Binding → List Binding
  | [] => [(name, value)]
  | (other, old) :: rest =>
    if other = name then (name, value) :: rest else (other, old) :: setBinding name value rest

/-- The value of a name in the lines so far, and otherwise outside the file. A name without value
counts as empty. -/
def lookupIn (outside : Text → Option Text) (done : List Binding) (name : Text) : Option Text :=
  match done.lookup name with
  | some value => some (value.getD [])
  | none => outside name

/-- The variables that a file sets, each name once; `outside` gives the variables that are set
already. -/
def read (outside : Text → Option Text) (content : Text) : List Binding :=
  (bindings content).foldl
    (fun done (name, value) => setBinding name (value.map (expand (lookupIn outside done))) done) []

end VerseSearch.EnvironmentFile
