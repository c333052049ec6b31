import VerseSearch.Main
import VerseSearch.Service
import VerseSearch.Proofs.Wire.Base64Meaning
import VerseSearch.Proofs.Wire.WordBytes
import VerseSearch.Proofs.Wire.UniqueBytes
import VerseSearch.Proofs.Wire.Truncation
import VerseSearch.Proofs.Wire.TextForm
import VerseSearch.Proofs.Lexicon.Entries
import VerseSearch.Proofs.Lexicon.Lookup
import VerseSearch.Proofs.Bundle.Ingestion
import VerseSearch.Proofs.Bundle.RoundTrip
import VerseSearch.Proofs.Bundle.Loading
import VerseSearch.Proofs.Bundle.Letterless
import VerseSearch.Proofs.Lexicon.Forms
import VerseSearch.Proofs.Lexicon.RowPattern
import VerseSearch.Proofs.Lexicon.Rows
import VerseSearch.Proofs.Lexicon.Rejection
import VerseSearch.Proofs.Matching.Meaning
import VerseSearch.Proofs.Matching.Finding
import VerseSearch.Proofs.Matching.Scanning
import VerseSearch.Proofs.Matching.Replacing
import VerseSearch.Proofs.Matching.Running
import VerseSearch.Proofs.Matching.Bounds
import VerseSearch.Proofs.Matching.Denotation
import VerseSearch.Proofs.Matching.SourceText
import VerseSearch.Proofs.Matching.Limits
import VerseSearch.Proofs.Matching.Names
import VerseSearch.Proofs.Matching.Agreement
import VerseSearch.Proofs.Matching.Tails
import VerseSearch.Proofs.Matching.WholeTexts
import VerseSearch.Proofs.Matching.Anchoring
import VerseSearch.Proofs.Matching.AnchoredTexts
import VerseSearch.Proofs.Matching.Ways
import VerseSearch.Proofs.Query.Rewriting
import VerseSearch.Proofs.Query.Resolving
import VerseSearch.Proofs.Query.Languages
import VerseSearch.Proofs.Query.Compilation
import VerseSearch.Proofs.Query.Outcomes
import VerseSearch.Proofs.Query.Vocalization
import VerseSearch.Proofs.Query.Grouping
import VerseSearch.Proofs.Query.Replacements
import VerseSearch.Proofs.Query.SetRewriting
import VerseSearch.Proofs.Query.LetterSets
import VerseSearch.Proofs.Query.Folding
import VerseSearch.Proofs.Query.Forms
import VerseSearch.Proofs.Query.WordBlocks
import VerseSearch.Proofs.Query.Roots
import VerseSearch.Proofs.Query.Suggestions
import VerseSearch.Proofs.Query.Nesting
import VerseSearch.Proofs.Query.BlockValidity
import VerseSearch.Proofs.Query.Brackets
import VerseSearch.Proofs.Query.Places
import VerseSearch.Proofs.Query.BracketContext
import VerseSearch.Proofs.Search.Layout
import VerseSearch.Proofs.Search.Offsets
import VerseSearch.Proofs.Search.Spans
import VerseSearch.Proofs.Search.MarkedWords
import VerseSearch.Proofs.Search.Shorthands
import VerseSearch.Proofs.Search.BlockSearch
import VerseSearch.Proofs.Search.Alignment
import VerseSearch.Proofs.Search.Phrases
import VerseSearch.Proofs.Search.Index
import VerseSearch.Proofs.Search.Places
import VerseSearch.Proofs.Search.Results
import VerseSearch.Proofs.Search.Highlights
import VerseSearch.Proofs.Search.FirstResults
import VerseSearch.Proofs.Search.Answers
import VerseSearch.Proofs.Search.Locations
import VerseSearch.Proofs.Search.Accounting
import VerseSearch.Proofs.Search.WholeWords
import VerseSearch.Proofs.Search.Grouping
import VerseSearch.Proofs.Search.GroupedResults
import VerseSearch.Proofs.Search.Reading
import VerseSearch.Proofs.Service.Forms
import VerseSearch.Proofs.Service.Agreement
import VerseSearch.Proofs.Text.Fields
import VerseSearch.Proofs.Text.Ranking
import VerseSearch.Proofs.Hebrew.Normalization
import VerseSearch.Proofs.Hebrew.Composition
import VerseSearch.Proofs.Hebrew.SearchableForms
import VerseSearch.Proofs.Hebrew.DottedLetters
import VerseSearch.Proofs.Hebrew.Patterns
import VerseSearch.Proofs.Corpus.Rows
import VerseSearch.Proofs.Corpus.Contiguity
import VerseSearch.Proofs.Corpus.Listing
import VerseSearch.Proofs.Corpus.Rereading
import VerseSearch.Proofs.Corpus.Rejection
