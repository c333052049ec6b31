import VerseSearch.Text.Digit
import VerseSearch.Text.Quoted

/-! # What can be wrong with a pattern

* `Problem`: the ways in which a text fails to be a pattern, with `Problem.message`.
* `Location`: the place that a message names.
* `Fault`: a problem and its place.
* `Limit`: the limits of the notation.
* `PatternError`: why a text is not used as a pattern.
-/

namespace VerseSearch.Pattern
set_option autoImplicit false

/-- The ways in which a text fails to be a pattern. -/
inductive Problem where
  | unclosedGroup
  | unclosedComment
  | unopenedGroup
  | unclosedSet
  | nothingToRepeat
  | repeatedRepeat
  | reversedCounts
  | badRange (lo hi : Text)
  | badEscape (escape : Text)
  | finalBackslash
  | incompleteEscape (escape : Text)
  | largeOctal (escape : Text)
  | openGroup
  | groupOfSameLookbehind
  | unknownGroup (index : Nat)
  | unexpectedEnd
  | unknownExtension (extension : Text)
  | missingName (kind : String)
  | unclosedName (terminator : Char)
  | badGroupName (name : Text)
  | unknownGroupName (name : Text)
  | zeroGroup
  | repeatedGroupName (name : Text) (index previous : Nat)
  | lateGlobalFlags
  | missingFlagEnd
  | missingFlag
  | missingColon
  | unknownFlag
  | localeFlag
  | clashingScriptFlags
  | globalFlagOn
  | scriptFlagOff
  | globalFlagOff
  | flagOnAndOff
  | thirdBranch
  | looseLookbehind
  | missingBrace
  | unknownCharacterName (name : Text)
  | templateOperator (name : String)
  deriving Repr, DecidableEq

def Problem.message : Problem → String
  | .unclosedGroup => "missing ), unterminated subpattern"
  | .unclosedComment => "missing ), unterminated comment"
  | .unopenedGroup => "unbalanced parenthesis"
  | .unclosedSet => "unterminated character set"
  | .nothingToRepeat => "nothing to repeat"
  | .repeatedRepeat => "multiple repeat"
  | .reversedCounts => "min repeat greater than max repeat"
  | .badRange lo hi => "bad character range " ++ String.ofList (lo ++ '-' :: hi)
  | .badEscape escape => "bad escape " ++ String.ofList escape
  | .finalBackslash => "bad escape (end of pattern)"
  | .incompleteEscape escape => "incomplete escape " ++ String.ofList escape
  | .largeOctal escape =>
    "octal escape value " ++ String.ofList escape ++ " outside of range 0-0o377"
  | .openGroup => "cannot refer to an open group"
  | .groupOfSameLookbehind => "cannot refer to group defined in the same lookbehind subpattern"
  | .unknownGroup index => s!"invalid group reference {index}"
  | .unexpectedEnd => "unexpected end of pattern"
  | .unknownExtension extension => "unknown extension " ++ String.ofList extension
  | .missingName kind => "missing " ++ kind
  | .unclosedName terminator => "missing " ++ String.ofList [terminator] ++ ", unterminated name"
  | .badGroupName name => "bad character in group name " ++ String.ofList name.quoted
  | .unknownGroupName name => "unknown group name " ++ String.ofList name.quoted
  | .zeroGroup => "bad group number"
  | .repeatedGroupName name index previous =>
    "redefinition of group name " ++ String.ofList name.quoted ++
      s!" as group {index}; was group {previous}"
  | .lateGlobalFlags => "global flags not at the start of the expression"
  | .missingFlagEnd => "missing -, : or )"
  | .missingFlag => "missing flag"
  | .missingColon => "missing :"
  | .unknownFlag => "unknown flag"
  | .localeFlag => "bad inline flags: cannot use 'L' flag with a str pattern"
  | .clashingScriptFlags => "bad inline flags: flags 'a', 'u' and 'L' are incompatible"
  | .globalFlagOn => "bad inline flags: cannot turn on global flag"
  | .scriptFlagOff => "bad inline flags: cannot turn off flags 'a', 'u' and 'L'"
  | .globalFlagOff => "bad inline flags: cannot turn off global flag"
  | .flagOnAndOff => "bad inline flags: flag turned on and off"
  | .thirdBranch => "conditional backref with more than two branches"
  | .looseLookbehind => "look-behind requires fixed-width pattern"
  | .missingBrace => "missing \x7b"
  | .unknownCharacterName name => "undefined character name " ++ String.ofList name.quoted
  | .templateOperator name => "internal: unsupported template operator " ++ name

/-- A place in a pattern: its offset, and its line and column if the pattern has several lines. -/
structure Location where
  offset : Nat
  lineColumn : Option (Nat × Nat)
  deriving Repr, DecidableEq

/-- The place at an offset of a text; lines and columns count from one. -/
def Location.of (source : Text) (offset : Nat) : Location where
  offset := offset
  lineColumn :=
    if '\n' ∈ source then
      let before := source.take offset
      some (before.count '\n' + 1, (before.reverse.takeWhile (· ≠ '\n')).length + 1)
    else none

def Location.message (place : Location) : String :=
  s!" at position {place.offset}" ++
    match place.lineColumn with
    | some (line, column) => s!" (line {line}, column {column})"
    | none => ""

/-- A problem and the place that its message names. -/
structure Fault where
  what : Problem
  place : Option Location
  deriving Repr, DecidableEq

def Fault.message (f : Fault) : String := f.what.message ++ (f.place.map (·.message)).getD ""

/-- Limits of the notation. A text that exceeds one is no pattern although nothing is wrong with
the way it is written. -/
inductive Limit where
  /-- A number of rounds is too large to be counted. -/
  | countTooLarge
  /-- A number of rounds has too many digits. -/
  | countTooLong (digits : Nat)
  /-- The flags for ASCII and for all scripts are both set for the whole pattern. -/
  | asciiAndUnicode
  deriving Repr, DecidableEq

def Limit.message : Limit → String
  | .countTooLarge => "the repetition number is too large"
  | .countTooLong digits => Text.tooManyDigitsMessage digits
  | .asciiAndUnicode => "ASCII and UNICODE flags are incompatible"

end VerseSearch.Pattern

namespace VerseSearch

/-- Why a text is not used as a pattern. -/
inductive PatternError where
  | fault (f : Pattern.Fault)
  | limit (l : Pattern.Limit)
  deriving Repr, DecidableEq

def PatternError.message : PatternError → String
  | .fault f => f.message
  | .limit l => l.message

end VerseSearch
