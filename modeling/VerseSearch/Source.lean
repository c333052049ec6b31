import VerseSearch.Bundle
import VerseSearch.Corpus.Lines
import VerseSearch.Engine
import VerseSearch.Files
import VerseSearch.Lexicon.Table

/-! # Data files

A corpus and a lexicon come from two tables or from one bundle.

* `SourceError`: why a file gives no data, with `SourceError.isReported`.
* `Source.corpus`, `Source.lexicon`, `Source.bundle`: the data of a file.
* `Source.engineOfBundle`, `Source.engineOfTables`: the engine for data files.
-/

namespace VerseSearch
set_option autoImplicit false

/-! ## Errors -/

/-- Why a file gives no data. -/
inductive SourceError where
  | missing (e : MissingFile)
  | corpus (e : Corpus.ReadError)
  | lexicon (e : Lexicon.Table.Error)
  | bundle (e : Bundle.ReadError)
  /-- A word of the corpus has no normalized form. -/
  | word (e : Hebrew.InvalidCharacter)
  deriving Repr, DecidableEq

namespace SourceError

def message : SourceError → String
  | .missing e => e.message
  | .corpus e => e.message
  | .lexicon e => e.message
  | .bundle e => e.message
  | .word e => e.message

/-- Whether an error is about the data of a file. The others are about its name, its outer form or
the pattern for books. -/
def isReported : SourceError → Bool
  | .missing _ => false
  | .corpus (.pattern _) => false
  | .corpus (.row _) => true
  | .lexicon (.row _) => true
  | .lexicon (.tagTooLong _) => false
  | .bundle (.json _) => false
  | .bundle (.load _) => true
  | .word _ => true

end SourceError

namespace Source

variable [Pattern.CharNames]

/-! ## Data -/

def content (fs : Files) (name : Text) : Except SourceError Text :=
  (fs.read name).mapError .missing

def corpus (fs : Files) (name : Text) (bookFilter : Option Text) :
    Except SourceError (Corpus Text) :=
  match content fs name with
  | .error e => .error e
  | .ok t => (Corpus.read bookFilter (Text.fileLines t)).mapError .corpus

def lexicon (fs : Files) (name : Text) : Except SourceError Lexicon :=
  match content fs name with
  | .error e => .error e
  | .ok t => (Lexicon.ofLines (Text.fileLines t)).mapError .lexicon

def bundle (fs : Files) (name : Text) : Except SourceError (Corpus Text × Lexicon) :=
  match content fs name with
  | .error e => .error e
  | .ok t =>
    match Bundle.read t with
    | .error e => .error (.bundle e)
    | .ok (c, l) => .ok (c.mapNames Bundle.nameText, l)

/-! ## Engines -/

def engine (c : Corpus Text) (l : Lexicon) (maxResults : Int) : Except SourceError Engine :=
  (Engine.ofCorpus c l maxResults).mapError .word

def engineOfBundle (fs : Files) (name : Text) (maxResults : Int) : Except SourceError Engine :=
  match bundle fs name with
  | .error e => .error e
  | .ok (c, l) => engine c l maxResults

def engineOfTables (fs : Files) (corpusName lexiconName : Text) (bookFilter : Option Text)
    (maxResults : Int) : Except SourceError Engine := do
  let c ← corpus fs corpusName bookFilter
  let l ← lexicon fs lexiconName
  engine c l maxResults

end Source

end VerseSearch
