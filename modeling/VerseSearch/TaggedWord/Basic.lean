import VerseSearch.Hebrew.Alphabet
import VerseSearch.Text.Base64
import VerseSearch.Text.Quoted

/-! # Words with a number

Every word of a verse carries the number of its dictionary entry, its tag.

* `TaggedWord`: a word and its tag.
* `TagField`: the tag of an unchecked row, which may be no number at all.
* `CodeError`: why words have no byte form, or bytes are the form of no words.
-/

namespace VerseSearch
set_option autoImplicit false

/-- A word and the number of its dictionary entry. -/
structure TaggedWord where
  word : Text
  tag : Int
  deriving Repr, DecidableEq

/-- The tag of an unchecked row: a number, or something else with the text it has in messages. -/
inductive TagField where
  | number (n : Int)
  | other (shown : Text)
  deriving Repr, DecidableEq

def TagField.shown : TagField → Text
  | .number n => Text.ofInt n
  | .other shown => shown

/-- Why words have no byte form, or bytes are the form of no words. -/
inductive CodeError where
  | emptyWord
  | tagOutOfRange (tag : Text)
  | unknownSymbol (char : Char) (word : Text)
  | truncatedWord (offset : Nat)
  /-- The bytes end inside a tag. -/
  | truncatedTag (offset : Nat)
  | unknownCode (code offset : Nat)
  | notBase64 (reason : Base64.Error)
  deriving Repr, DecidableEq

def CodeError.message : CodeError → String
  | .emptyWord => "Empty word not supported (can't mark last character)"
  | .tagOutOfRange tag => "Strong number " ++ String.ofList tag ++ " is out of range"
  | .unknownSymbol char word =>
    "Unknown Hebrew character " ++ String.ofList (Text.quoted [char]) ++ " in word " ++
      String.ofList (Text.quoted word)
  | .truncatedWord offset => s!"Unexpected end of data while decoding a word at offset {offset}"
  | .truncatedTag offset =>
    s!"Unexpected end of data while decoding a Strong number at offset {offset}"
  | .unknownCode code offset => s!"Unknown character index {code} at offset {offset}"
  | .notBase64 reason => "Invalid base64 data: " ++ reason.message

end VerseSearch
