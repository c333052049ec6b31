import VerseSearch.Json.Reader
import VerseSearch.Settings
import VerseSearch.Settings.EnvironmentFile

/-! # Settings from the environment

A setting may be given by an environment variable or in a file of variables; the environment comes
first. Names are compared without regard to case.

* `Settings.EnvironmentError`: why the environment gives no settings.
* `Settings.ofEnvironment`: the settings of variables and a file of variables.
-/

namespace VerseSearch.Settings
set_option autoImplicit false

/-- Where the values of variables come from. -/
inductive Origin where
  | environment
  | file
  deriving Repr, DecidableEq

def Origin.name : Origin → String
  | .environment => "EnvSettingsSource"
  | .file => "DotEnvSettingsSource"

/-- Why the environment gives no settings. -/
inductive EnvironmentError where
  /-- The list of origins is no JSON text. -/
  | unreadableList (origin : Origin)
  | invalid (problems : List Form.Problem)
  deriving Repr, DecidableEq

/-- The words for a list that is no JSON text. -/
def Origin.unreadableMessage (o : Origin) : String :=
  "error parsing value for field \"" ++ originsName ++ "\" from source \"" ++ o.name ++ "\""

/-- The value of the last variable whose name, with its letters in lower case, is `name`. -/
def latest {α : Type} (values : List (Text × α)) (name : String) : Option α :=
  (values.reverse.find? fun (other, _) => other.map Char.toLower = name.toList).map (·.2)

/-- The list of origins that a variable gives as a JSON text; null gives none. -/
def readList (origin : Origin) (value : Option Text) : Except EnvironmentError (Option Json) :=
  match value with
  | none => .ok none
  | some t =>
    match Json.parse t with
    | .error _ => .error (.unreadableList origin)
    | .ok .null => .ok none
    | .ok j => .ok (some j)

/-- The settings of environment variables and of a file of variables. -/
def ofEnvironment (values : List (Text × Text)) (file : Option Text) :
    Except EnvironmentError Settings := do
  let own := file.elim [] (EnvironmentFile.read fun name => values.lookup name)
  let fromFile (name : String) : Option Text := (latest own name).join
  let origins ← readList .environment (latest values originsName)
  let fileOrigins ← readList .file (fromFile originsName)
  let lookup (name : String) : Option Json :=
    if name = originsName then origins <|> fileOrigins
    else (latest values name <|> fromFile name).map .str
  match ofLookup lookup with
  | .valid s => return s
  | .invalid problems => .error (.invalid problems)

end VerseSearch.Settings
