import VerseSearch.Engine
import VerseSearch.Form

/-! # Settings

* `Settings`: the name and version of the service, its address, its data files and its limits.
* `Settings.ofLookup`: the settings of named values; a value that is not given has a default.
* `Settings.ofJson`: the settings of a JSON object.
* `Settings.toJson`: all settings as JSON.
-/

namespace VerseSearch
set_option autoImplicit false

structure Settings where
  appName : Text := "Hebrew Bible Viewer".toList
  appVersion : Text := "1.0.0".toList
  /-- Whether answers tell the cause of an unexpected error. -/
  debug : Bool := false
  host : Text := "0.0.0.0".toList
  /-- The number of the endpoint at the host. -/
  portNumber : Int := 8000
  workers : Int := 1
  bundleFile : Option Text := none
  corpusFile : Option Text := none
  lexiconFile : Option Text := none
  /-- A pattern for the names of the books to load. -/
  bookFilter : Option Text := none
  maxSearchResults : Int := defaultMaxResults
  maxQueryLength : Int := 500
  logLevel : Text := "INFO".toList
  logFormat : Text := "json".toList
  corsOrigins : List Text :=
    ["http://localhost:3000".toList, "http://localhost:8080".toList, "http://localhost:8000".toList]
  deriving Repr, DecidableEq

namespace Settings

def standard : Settings := {}

/-- A setting: the value of a name as it is checked, or the default. -/
def setting {α : Type} (lookup : String → Option Json) (name : String) (default : α)
    (check : Json → Form.Checked α) : Form.Checked α :=
  match lookup name with
  | none => .valid default
  | some value => check value

/-- A setting that is a single value. -/
def plain {α : Type} (lookup : String → Option Json) (name : String) (default : α)
    (read : Json → Except Form.Fault α) : Form.Checked α :=
  setting lookup name default fun value => .ofField [.name name] (read value)

def originsName : String := "cors_origins"

/-- The settings of named values, or the problems of all values. -/
def ofLookup (lookup : String → Option Json) : Form.Checked Settings :=
  (Form.Checked.valid Settings.mk)
    |>.and (plain lookup "app_name" standard.appName Form.text)
    |>.and (plain lookup "app_version" standard.appVersion Form.text)
    |>.and (plain lookup "debug" standard.debug Form.bool)
    |>.and (plain lookup "host" standard.host Form.text)
    |>.and (plain lookup "port" standard.portNumber Form.int)
    |>.and (plain lookup "workers" standard.workers Form.int)
    |>.and (plain lookup "bundle_file" standard.bundleFile (Form.nullable Form.text))
    |>.and (plain lookup "corpus_file" standard.corpusFile (Form.nullable Form.text))
    |>.and (plain lookup "lexicon_file" standard.lexiconFile (Form.nullable Form.text))
    |>.and (plain lookup "book_filter" standard.bookFilter (Form.nullable Form.text))
    |>.and (plain lookup "max_search_results" standard.maxSearchResults Form.int)
    |>.and (plain lookup "max_query_length" standard.maxQueryLength Form.int)
    |>.and (plain lookup "log_level" standard.logLevel Form.text)
    |>.and (plain lookup "log_format" standard.logFormat Form.text)
    |>.and (setting lookup originsName standard.corsOrigins
      (Form.Checked.list [.name originsName] Form.text))

/-- The settings of the fields of a JSON object; fields of other names are passed over. -/
def ofJson (fields : Json) : Form.Checked Settings := ofLookup fun name => fields.field? name

def toJson (s : Settings) : Json :=
  .ofFields [
    ("app_name", .str s.appName), ("app_version", .str s.appVersion), ("debug", .bool s.debug),
    ("host", .str s.host), ("port", .int s.portNumber), ("workers", .int s.workers),
    ("bundle_file", .ofOption .str s.bundleFile), ("corpus_file", .ofOption .str s.corpusFile),
    ("lexicon_file", .ofOption .str s.lexiconFile), ("book_filter", .ofOption .str s.bookFilter),
    ("max_search_results", .int s.maxSearchResults), ("max_query_length", .int s.maxQueryLength),
    ("log_level", .str s.logLevel), ("log_format", .str s.logFormat),
    (originsName, .ofList .str s.corsOrigins)]

end Settings

end VerseSearch
