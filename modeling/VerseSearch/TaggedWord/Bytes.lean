import VerseSearch.TaggedWord.Basic

/-! # The byte form of tagged words

A word is written with one byte for each symbol, the symbol's code in an alphabet; the byte of its
last symbol is raised by 128. The tag follows in two bytes, the higher one first.

* `encodeWord`, `encodeTag`: the bytes of a word and of a tag.
* `encode`: the bytes of tagged words.
* `decode`: the tagged words of bytes.
* `encodeText`, `decodeText`: the same with the bytes written in base 64.
-/

namespace VerseSearch.TaggedWord
set_option autoImplicit false

/-- The byte of the last symbol of a word is its code plus this. -/
def lastMark : Nat := 128

def tagLimit : Nat := 65536

/-! ## Writing -/

/-- The bytes of the symbols `cs` at the end of `word`. -/
def encodeSymbols (a : Alphabet) (word : Text) : Text → Except CodeError (List UInt8)
  | [] => .ok []
  | c :: rest =>
    match a.indexOf? c with
    | none => .error (.unknownSymbol c word)
    | some code =>
      match rest with
      | [] => .ok [UInt8.ofNat (code + lastMark)]
      | _ :: _ => (encodeSymbols a word rest).map (UInt8.ofNat code :: ·)

def encodeWord (a : Alphabet) (word : Text) : Except CodeError (List UInt8) :=
  if word.isEmpty then .error .emptyWord else encodeSymbols a word word

def encodeTag (tag : Int) : Except CodeError (List UInt8) :=
  if 0 ≤ tag ∧ tag < tagLimit then
    .ok [UInt8.ofNat (tag.toNat / 256), UInt8.ofNat (tag.toNat % 256)]
  else .error (.tagOutOfRange (Text.ofInt tag))

/-- The bytes of the tag of an unchecked row. -/
def encodeTagField : TagField → Except CodeError (List UInt8)
  | .number tag => encodeTag tag
  | .other shown => .error (.tagOutOfRange shown)

/-- The bytes of words, each before its tag. -/
def encodeWith {τ : Type} (tagBytes : τ → Except CodeError (List UInt8)) (a : Alphabet) :
    List (Text × τ) → Except CodeError (List UInt8)
  | [] => .ok []
  | (word, tag) :: rest =>
    match encodeWord a word with
    | .error e => .error e
    | .ok symbols =>
      match tagBytes tag with
      | .error e => .error e
      | .ok tail => (encodeWith tagBytes a rest).map fun more => symbols ++ (tail ++ more)

def encode (a : Alphabet) (ws : List TaggedWord) : Except CodeError (List UInt8) :=
  encodeWith encodeTag a (ws.map fun w => (w.word, w.tag))

/-! ## Reading -/

/-- The tagged words of the bytes from `offset` on, where the symbols of `word` have been read, the
last one first. -/
def decodeFrom (a : Alphabet) (offset : Nat) (word : Text) :
    List UInt8 → Except CodeError (List TaggedWord)
  | [] => if word.isEmpty then .ok [] else .error (.truncatedWord offset)
  | b :: rest =>
    match a.symbolAt? (b.toNat % lastMark) with
    | none => .error (.unknownCode (b.toNat % lastMark) offset)
    | some c =>
      if b.toNat < lastMark then decodeFrom a (offset + 1) (c :: word) rest
      else match rest with
        | high :: low :: more =>
          (decodeFrom a (offset + 3) [] more).map fun ws =>
            ⟨(c :: word).reverse, (high.toNat * 256 + low.toNat : Nat)⟩ :: ws
        | _ => .error (.truncatedTag (offset + 1))

def decode (a : Alphabet) (bytes : List UInt8) : Except CodeError (List TaggedWord) :=
  decodeFrom a 0 [] bytes

/-! ## Text -/

def encodeText (a : Alphabet) (ws : List TaggedWord) : Except CodeError Text :=
  (encode a ws).map Base64.encode

def decodeText (a : Alphabet) (t : Text) : Except CodeError (List TaggedWord) :=
  match Base64.decode t with
  | .error e => .error (.notBase64 e)
  | .ok bytes => decode a bytes

end VerseSearch.TaggedWord
