import VerseSearch.Lexicon.Basic
import VerseSearch.Query.Letters
import VerseSearch.Text.Similarity

/-! # Compiling queries

A query is a pattern over search strings with blocks in angle brackets. A block stands for the
words whose entries its pattern finds in the lexicon.

* `QueryError`: what is wrong with a query.
* `Piece`, `splitBlocks`: the blocks of a query and what stands around them.
* `resolveBlock`: the entries that a block stands for.
* `suggest`: the searchable forms similar to a block that finds nothing.
* `findEntries`: the entries that a pattern finds by itself.
* `compile`: the pattern of a query.
-/

namespace VerseSearch

/-! ## Errors -/

inductive QueryError where
  | empty
  | invalidBlock (block : Text) (f : Pattern.Fault)
  | invalidPattern (f : Pattern.Fault)
  | invalidLexiconPattern (source : Text) (f : Pattern.Fault)
  | noMatchingEntries (block : Text) (suggestions : List Text)
  deriving Repr, DecidableEq

def QueryError.message : QueryError → String
  | .empty => "Empty search query"
  | .invalidBlock block f =>
    "Invalid RegExp inside <...>: " ++ String.ofList block ++ ": " ++ f.message
  | .invalidPattern f => "Invalid search pattern: " ++ f.message
  | .invalidLexiconPattern source f =>
    "Invalid lexicon pattern: " ++ String.ofList source ++ ": " ++ f.message
  | .noMatchingEntries block _ =>
    "No matching Strong's numbers for: " ++ String.ofList block

inductive CompileError where
  /-- Something is wrong with the query. -/
  | query (e : QueryError)
  /-- The query exceeds a limit of the notation. -/
  | limit (l : Pattern.Limit)
  deriving Repr, DecidableEq

def CompileError.message : CompileError → String
  | .query e => e.message
  | .limit l => l.message

def PatternError.toCompileError (wrap : Pattern.Fault → QueryError) : PatternError → CompileError
  | .fault f => .query (wrap f)
  | .limit l => .limit l

namespace Query
set_option autoImplicit false

variable [Pattern.CharNames] [Text.Ranking]

/-! ## Blocks -/

/-- A part of a query: a character, or the inside of a block. -/
inductive Piece where
  | char (c : Char)
  | block (inner : Text)
  deriving Repr, DecidableEq

/-- The text up to a closing angle bracket on the same line. -/
def blockInner : Text → Option Text
  | [] => none
  | c :: rest =>
    if c = '>' then some []
    else if c = '\n' then none
    else (blockInner rest).map (c :: ·)

/-- The parts of a query of which the first `skip` characters belong to a block. -/
def splitBlocksFrom (skip : Nat) : Text → List Piece
  | [] => []
  | c :: rest =>
    match skip with
    | skip + 1 => splitBlocksFrom skip rest
    | 0 =>
      if c = '<' then
        match blockInner rest with
        | some inner => .block inner :: splitBlocksFrom (inner.length + 1) rest
        | none => .char c :: splitBlocksFrom 0 rest
      else .char c :: splitBlocksFrom 0 rest

def splitBlocks (query : Text) : List Piece := splitBlocksFrom 0 query

/-- The number of suggestions that are made if no other number is asked for. -/
def defaultSuggestions : Nat := 5

def suggestionScore : Rat := 60

/-- The searchable forms similar to the inside of a block. -/
def suggest (l : Lexicon) (inner : Text) (limit : Nat) : List Text :=
  let letters := Hebrew.regularize (Hebrew.compose inner)
  if letters.isAllBlank then []
  else (Text.Ranking.extract Text.Ranking.score letters l.forms suggestionScore limit).map (·.text)

/-- A block, the pattern that takes its place, and the entries it stands for. -/
structure Block where
  text : Text
  replacement : Text
  entries : List Entry
  deriving Repr, DecidableEq

/-- The pattern for a word of one of the given entries. -/
def entriesPattern (entries : List Entry) : Text :=
  "(#+<(".toList ++ List.intercalate ['|'] (entries.map fun e => Text.ofNat e.tag) ++ ")>)".toList

/-- The entries that a block with the given inside stands for. -/
def resolveBlock (l : Lexicon) (inner : Text) (verbsOnly : Bool) (limit : Nat) :
    Except CompileError Block :=
  let text := '<' :: inner ++ ['>']
  match Pattern.parseAnchored (normalizeBlock inner) with
  | .error e => .error (e.toCompileError (.invalidBlock text))
  | .ok p =>
    match l.find p verbsOnly with
    -- suggestions are chosen among the forms of all entries, whatever `verbsOnly` is
    | [] => .error (.query (.noMatchingEntries text (suggest l inner limit)))
    | entries => .ok ⟨text, entriesPattern entries, entries⟩

/-- The entries that a pattern finds by itself. -/
def findEntries (l : Lexicon) (source : Text) (verbsOnly : Bool) :
    Except CompileError (List Entry) :=
  match Pattern.parseAnchored (normalizeBlock source) with
  | .error e => .error (e.toCompileError (.invalidLexiconPattern source))
  | .ok p => .ok (l.find p verbsOnly)

/-- The text of a query with every block replaced, and the blocks. -/
def resolvePieces (l : Lexicon) (verbsOnly : Bool) (limit : Nat) :
    List Piece → Except CompileError (Text × List Block)
  | [] => .ok ([], [])
  | .char c :: rest => (resolvePieces l verbsOnly limit rest).map fun (t, bs) => (c :: t, bs)
  | .block inner :: rest =>
    match resolveBlock l inner verbsOnly limit with
    | .error e => .error e
    | .ok b =>
      (resolvePieces l verbsOnly limit rest).map fun (t, bs) => (b.replacement ++ t, b :: bs)

/-! ## Queries -/

structure Compiled where
  /-- The text of the pattern. -/
  source : Text
  pattern : Pattern
  /-- Whether blocks stand for verbs alone. -/
  verbsOnly : Bool
  blocks : List Block
  deriving Repr, DecidableEq

/-- The pattern of a query. The query for a root asks for verbs alone. -/
def compile (l : Lexicon) (query : Text) (verbsOnly : Bool)
    (limit : Nat := defaultSuggestions) : Except CompileError Compiled :=
  if query.isAllBlank then .error (.query .empty)
  else
    let (expanded, verbsOnly) :=
      match expandRoot query with
      | some block => (block, true)
      | none => (query, verbsOnly)
    match resolvePieces l verbsOnly limit (splitBlocks expanded) with
    | .error e => .error e
    | .ok (resolved, blocks) =>
      let source := normalizeSource resolved
      -- a query of marks alone is not blank, but nothing is left of it
      if source.isAllBlank then .error (.query .empty)
      else match Pattern.parse source with
        | .error e => .error (e.toCompileError .invalidPattern)
        | .ok pattern => .ok { source, pattern, verbsOnly, blocks }

end Query

end VerseSearch
