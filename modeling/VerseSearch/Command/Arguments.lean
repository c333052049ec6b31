import VerseSearch.Text.Digit

/-! # Arguments of a command

An argument that begins with a minus sign is an option, unless it is a negative number or holds a
space. A long option may be cut short as long as it stays the only one, and its value follows it or
is attached with `=`. After `--` there are no options.

* `Arguments.Grammar`: the options of a command and whether it has an operand.
* `Arguments.Token`, `Arguments.tokens`: what the arguments are by themselves.
* `Arguments.collect`: the options and the operand of a command.
-/

namespace VerseSearch.Arguments
set_option autoImplicit false

/-- Why no command is made of arguments. -/
inductive Ending where
  /-- Help is asked for. -/
  | help
  /-- The arguments are not those of a command. -/
  | misuse
  deriving Repr, DecidableEq

structure Grammar where
  /-- The names of the options that have a value. -/
  valued : List String
  /-- The names of the options that have none. -/
  flags : List String
  hasOperand : Bool
  /-- Whether an option admits a value. -/
  admits : String → Text → Bool

/-! ## Tokens -/

/-- What an argument is by itself. The option may have a value attached to it. -/
inductive Token where
  | word (t : Text)
  /-- The mark after which there are no options. -/
  | mark
  | option (name : String) (attached : Option Text)
  /-- The short form of the option for help, repeated. -/
  | shortHelp
  /-- An argument in the form of an option that there is not. -/
  | unknown
  /-- An option cut so short that there are several, or a short form with anything attached. -/
  | refused
  deriving Repr, DecidableEq

/-- The name of the option for help, which every command has. -/
def helpName : String := "help"

def Grammar.names (g : Grammar) : List String := helpName :: (g.valued ++ g.flags)

/-- Digits with at most one point among them and a digit after it. -/
def isUnsignedNumber (t : Text) : Bool :=
  let fraction := t.dropWhile Text.isDigit
  match fraction with
  | [] => !t.isEmpty
  | '.' :: digits => !digits.isEmpty && digits.all Text.isDigit
  | _ => false

/-- Whether a text is a negative number; a line feed may follow it. -/
def isNegativeNumber (t : Text) : Bool :=
  match t with
  | '-' :: rest =>
    isUnsignedNumber rest || rest.getLast? = some '\n' && isUnsignedNumber rest.dropLast
  | _ => false

/-- The part of a text before its first `=`, and the part after it. -/
def splitAttached (t : Text) : Text × Option Text :=
  match t.dropWhile (· ≠ '=') with
  | _ :: value => (t.takeWhile (· ≠ '='), some value)
  | [] => (t, none)

/-- The token of an argument in the form of an option that no option is like. -/
def unlike (t : Text) : Token :=
  if isNegativeNumber t || t.contains ' ' then .word t else .unknown

/-- The token of a long option, without its two minus signs. -/
def longToken (g : Grammar) (t : Text) : Token :=
  let (name, attached) := splitAttached t
  match g.names.find? fun n => n.toList = name with
  | some n => .option n attached
  | none =>
    match g.names.filter fun n => name.isPrefixOf n.toList with
    | [] => unlike ('-' :: '-' :: t)
    | [n] => .option n attached
    | _ => .refused

/-- The token of a short option for help with the text after it. -/
def shortToken (rest : Text) : Token :=
  let letters :=
    match rest with
    | '=' :: more => if more.isEmpty then rest else more
    | _ => rest
  if letters.all (· = 'h') then .shortHelp else .refused

/-- The token of an argument before the mark. -/
def token (g : Grammar) (t : Text) : Token :=
  match t with
  | ['-', '-'] => .mark
  | '-' :: '-' :: rest => longToken g rest
  | '-' :: 'h' :: rest => shortToken rest
  | '-' :: _ :: _ => unlike t
  | _ => .word t

def tokens (g : Grammar) : List Text → List Token
  | [] => []
  | t :: rest =>
    if token g t = .mark then .mark :: rest.map .word else token g t :: tokens g rest

/-! ## Options and operands -/

structure Collected where
  operand : Option Text := none
  /-- The options with values, the last one first. -/
  values : List (String × Text) := []
  flags : List String := []
  /-- Whether there are arguments that have no place. -/
  surplus : Bool := false
  deriving Repr, DecidableEq

/-- The value of an option; of several values the last one counts. -/
def Collected.value? (c : Collected) (name : String) : Option Text := c.values.lookup name

/-- Takes up a word that is not the value of an option. -/
def Collected.addWord (g : Grammar) (c : Collected) (t : Text) : Collected :=
  if g.hasOperand ∧ c.operand = none then { c with operand := some t }
  else { c with surplus := true }

/-- Takes up the value of an option. -/
def Collected.addValue (g : Grammar) (c : Collected) (name : String) (value : Text) :
    Except Ending Collected :=
  if g.admits name value then .ok { c with values := (name, value) :: c.values }
  else .error .misuse

/-- Takes up an option that has no value. -/
def Collected.addFlag (c : Collected) (name : String) : Except Ending Collected :=
  if name = helpName then .error .help else .ok { c with flags := name :: c.flags }

/-- Takes up tokens one after the other. The mark goes with the operand beside it. -/
def collectFrom (g : Grammar) (c : Collected) : List Token → Except Ending Collected
  | [] => .ok c
  | .word t :: .mark :: rest => collectFrom g (c.addWord g t) rest
  | .word t :: rest => collectFrom g (c.addWord g t) rest
  | .mark :: .word t :: rest => collectFrom g (c.addWord g t) rest
  | .mark :: rest => collectFrom g { c with surplus := true } rest
  | .unknown :: rest => collectFrom g { c with surplus := true } rest
  | .shortHelp :: _ => .error .help
  | .refused :: _ => .error .misuse
  | .option name (some value) :: rest =>
    if name ∈ g.valued then
      match c.addValue g name value with
      | .error e => .error e
      | .ok c => collectFrom g c rest
    else .error .misuse
  | .option name none :: .word value :: rest =>
    if name ∈ g.valued then
      match c.addValue g name value with
      | .error e => .error e
      | .ok c => collectFrom g c rest
    else match c.addFlag name with
      | .error e => .error e
      | .ok c => collectFrom g c (.word value :: rest)
  | .option name none :: rest =>
    if name ∈ g.valued then .error .misuse
    else match c.addFlag name with
      | .error e => .error e
      | .ok c => collectFrom g c rest

/-- Whether an argument is a long option cut so short that there are several. -/
def isAmbiguous (g : Grammar) (t : Text) : Bool :=
  match t with
  | '-' :: '-' :: _ :: _ => token g t = .refused
  | _ => false

/-- The options and the operand that arguments give. An option that might be several ones ends it
before anything else is looked at. -/
def collect (g : Grammar) (args : List Text) : Except Ending Collected :=
  if (args.takeWhile fun t => t ≠ ['-', '-']).any (isAmbiguous g) then .error .misuse
  else collectFrom g {} (tokens g args)

end VerseSearch.Arguments
