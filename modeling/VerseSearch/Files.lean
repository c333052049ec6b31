import VerseSearch.Text.Quoted

/-! # Files

* `Files`: the contents of files by name, and the directories that files may be written to.
* `Files.read`: the content of a file, or the name that no file has.
* `Files.write`: the files with the content of one of them set.
-/

namespace VerseSearch
set_option autoImplicit false

structure Files where
  entries : List (Text × Text)
  /-- The directories there are, besides the one that names are relative to. -/
  directories : List Text := []
  deriving Repr, DecidableEq

structure MissingFile where
  name : Text
  deriving Repr, DecidableEq

def MissingFile.message (e : MissingFile) : String :=
  "[Errno 2] No such file or directory: " ++ String.ofList e.name.quoted

namespace Files

/-- A name without the parts that stand for the directory they are in. -/
def normalize (name : Text) : Text :=
  List.intercalate ['/'] ((List.splitOn '/' name).filter (· ≠ ['.']))

/-- The directory of a file; it is empty for the directory that names are relative to. -/
def directoryOf (name : Text) : Text :=
  List.intercalate ['/'] (List.splitOn '/' (normalize name)).dropLast

def content? (fs : Files) (name : Text) : Option Text := fs.entries.lookup (normalize name)

def read (fs : Files) (name : Text) : Except MissingFile Text :=
  match fs.content? name with
  | some content => .ok content
  | none => .error ⟨name⟩

/-- Sets the content of a file: a new one comes last, an old one keeps its place. -/
def setContent (name content : Text) : List (Text × Text) → List (Text × Text)
  | [] => [(name, content)]
  | (other, old) :: rest =>
    if other = name then (name, content) :: rest else (other, old) :: setContent name content rest

/-- Whether a file may have a name: it is not empty and its directory is there. -/
def canHold (fs : Files) (name : Text) : Bool :=
  let directory := directoryOf name
  !(normalize name).isEmpty && (directory.isEmpty || fs.directories.contains directory)

def write (fs : Files) (name content : Text) : Except MissingFile Files :=
  if fs.canHold name then
    .ok { fs with entries := setContent (normalize name) content fs.entries }
  else .error ⟨name⟩

end Files

end VerseSearch
