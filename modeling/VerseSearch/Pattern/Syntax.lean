import VerseSearch.Text.Case
import VerseSearch.Text.Letter

/-! # The syntax of search patterns

A pattern is a tree of nodes. What one character has to satisfy is a `CharSet`; what a place
between two characters has to satisfy is an `Anchor`.

* `CharSet.accepts`: whether a set accepts a character.
* `Node`: the pattern tree, built from `one`, `cat`, `alt`, `loop`, groups and assertions.
* `Node.seq`, `Node.choice`: a sequence and an ordered choice of nodes.
* `Node.width`: the least and the greatest length of a match.
-/

namespace VerseSearch.Pattern
set_option autoImplicit false

/-! ## Sets of characters -/

/-- The classes of characters that have an escape of their own. -/
inductive Category where
  | digit
  | blank
  | word
  deriving Repr, DecidableEq

/-- Whether a character belongs to a class, among all scripts or in ASCII alone. -/
def Category.accepts (ascii : Bool) (c : Char) : Category → Bool
  | .digit => if ascii then c.isDigit else Text.isDigit c
  | .blank => if ascii then c.toNat < 0x80 && Text.isBlank c && !(0x1C ≤ c.toNat && c.toNat ≤ 0x1F)
      else Text.isBlank c
  | .word => if ascii then c.isAlphanum || c = '_' else Text.isWordChar c

/-- One item of a set: a code point, a closed range of code points, or a class. -/
inductive SetItem where
  | code (n : Nat)
  | range (lo hi : Nat)
  | category (category : Category) (negated : Bool)
  deriving Repr, DecidableEq

/-- A set of characters, possibly negated. With `ignoreCase` a code point stands for all the
characters that differ from it in case alone; `ascii` narrows classes and case to ASCII. -/
structure CharSet where
  items : List SetItem
  negated : Bool := false
  ignoreCase : Bool := false
  ascii : Bool := false
  deriving Repr, DecidableEq

/-- The code points that a set takes for one character. -/
def CharSet.variants (set : CharSet) (c : Char) : List Nat :=
  if set.ignoreCase then
    if set.ascii then Text.asciiVariants c.toNat else Text.caseVariants c.toNat
  else [c.toNat]

def CharSet.itemAccepts (set : CharSet) (c : Char) : SetItem → Bool
  | .code n => (set.variants c).contains n
  | .range lo hi => (set.variants c).any fun n => lo ≤ n && n ≤ hi
  | .category category negated => category.accepts set.ascii c != negated

def CharSet.accepts (set : CharSet) (c : Char) : Bool :=
  set.items.any (set.itemAccepts c) != set.negated

/-! ## Anchors -/

/-- Conditions on a place in the text. -/
inductive Anchor where
  | textStart
  | lineStart
  | textEnd
  /-- The end of the text, or the place before a line feed that ends it. -/
  | lastLineEnd
  | lineEnd
  | wordBoundary (ascii negated : Bool)
  deriving Repr, DecidableEq

/-- Whether an anchor holds before the character at `pos`. -/
def Anchor.holds (text : Array Char) (pos : Nat) : Anchor → Bool
  | .textStart => pos = 0
  | .lineStart => pos = 0 || text[pos - 1]? = some '\n'
  | .textEnd => pos = text.size
  | .lastLineEnd => pos = text.size || pos + 1 = text.size && text[pos]? = some '\n'
  | .lineEnd => pos = text.size || text[pos]? = some '\n'
  | .wordBoundary ascii negated =>
    let isWord (c : Option Char) : Bool := c.any fun c => Category.word.accepts ascii c
    let before := if pos = 0 then false else isWord text[pos - 1]?
    let after := isWord text[pos]?
    text.size ≠ 0 && ((before != after) != negated)

/-! ## Nodes -/

/-- How a loop chooses between one more round and the rest of the pattern. -/
inductive Appetite where
  /-- One more round is tried first. -/
  | greedy
  /-- The rest is tried first. -/
  | lazy
  /-- As many rounds as there are, and none is given back. -/
  | possessive
  deriving Repr, DecidableEq

inductive Node where
  /-- Matches the empty text. -/
  | empty
  /-- One character of a set. -/
  | one (set : CharSet)
  | anchor (place : Anchor)
  | cat (first second : Node)
  /-- The second node is tried where the first one leads to no match. -/
  | alt (first second : Node)
  /-- A group whose place is remembered under a number. -/
  | group (index : Nat) (body : Node)
  /-- At least `least` rounds and at most `most`, without bound if there is no `most`. -/
  | loop (appetite : Appetite) (least : Nat) (most : Option Nat) (body : Node)
  /-- The text after the place, or the `behind` characters before it, match without being read. -/
  | look (behind : Option Nat) (negated : Bool) (body : Node)
  /-- The first match of the body is the only one. -/
  | atomic (body : Node)
  /-- The text that a group holds, once more. -/
  | backref (index : Nat) (ignoreCase ascii : Bool)
  /-- One of two nodes, depending on whether a group holds a text. -/
  | cond (index : Nat) (yes no : Node)
  deriving Repr, DecidableEq, Inhabited

/-- The nodes one after the other. -/
def Node.seq (nodes : List Node) : Node := nodes.foldr .cat .empty

/-- The nodes as alternatives, tried in order. -/
def Node.choice : List Node → Node
  | [] => .empty
  | [n] => n
  | n :: m :: rest => .alt n (choice (m :: rest))

/-! ## Widths -/

/-- The least and the greatest length of a match; no greatest one if there is no bound. -/
structure Width where
  least : Nat
  most : Option Nat
  deriving Repr, DecidableEq

def Width.zero : Width := ⟨0, some 0⟩

def Width.add (a b : Width) : Width where
  least := a.least + b.least
  most := match a.most, b.most with
    | some m, some n => some (m + n)
    | _, _ => none

def Width.union (a b : Width) : Width where
  least := min a.least b.least
  most := match a.most, b.most with
    | some m, some n => some (max m n)
    | _, _ => none

/-- The width of a number of rounds of a match. -/
def Width.times (least : Nat) (most : Option Nat) (w : Width) : Width where
  least := w.least * least
  most := match w.most, most with
    | some 0, _ => some 0
    | some m, some n => some (m * n)
    | none, some 0 => some 0
    | _, _ => none

/-- The length of every match, if all have the same. -/
def Width.fixed? (w : Width) : Option Nat := if w.most = some w.least then some w.least else none

/-- The width of a node, given the widths of the groups it refers to. -/
def Node.width (groupWidth : Nat → Width) : Node → Width
  | .empty => .zero
  | .one _ => ⟨1, some 1⟩
  | .anchor _ => .zero
  | .cat a b => (a.width groupWidth).add (b.width groupWidth)
  | .alt a b => (a.width groupWidth).union (b.width groupWidth)
  | .group _ body => body.width groupWidth
  | .loop _ least most body => (body.width groupWidth).times least most
  | .look _ _ _ => .zero
  | .atomic body => body.width groupWidth
  | .backref index _ _ => groupWidth index
  | .cond _ yes no => (yes.width groupWidth).union (no.width groupWidth)

end VerseSearch.Pattern
