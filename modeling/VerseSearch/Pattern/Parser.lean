import VerseSearch.Pattern.Bracket
import VerseSearch.Pattern.Modes

/-! # Reading a pattern

A pattern is read from left to right by one machine. Its state holds the group that is open
innermost and, outside it, the groups around it; a step reads one character together with what
belongs to it, and the pattern is done when the text is.

* `Piece`: a part of the current branch, with what a repetition may do to it.
* `Frame`: an open group.
* `Reading`: the state of the machine.
* `Reading.step`: one step, which says how many further characters it read.
* `Reading.run`: all steps.
* `Pattern.parse`: a pattern or the error that comes first.

A backslash at the very end of a pattern is noticed as soon as all before it has been read, so
`Pattern.parse` reads what stands before it and compares how far reading went.
-/

namespace VerseSearch.Pattern
set_option autoImplicit false

/-! ## States -/

/-- What a repetition may do to a part of a branch. -/
inductive PieceKind where
  /-- An anchor is not repeated. -/
  | anchor
  /-- A loop is not repeated once more. -/
  | loop
  | other
  deriving Repr, DecidableEq

structure Piece where
  node : Node
  kind : PieceKind
  deriving Repr, DecidableEq

/-- What an opening parenthesis has begun. -/
inductive Opener where
  /-- The pattern itself. -/
  | pattern
  | capture (index : Nat)
  | plain
  | atomic
  /-- A look ahead or behind, and the limit on group references that holds outside it. -/
  | look (behind negated : Bool) (outerLimit : Option Nat)
  /-- A choice by a group, with its first branch once that is read. -/
  | cond (index : Nat) (yes : Option Node)
  deriving Repr, DecidableEq

structure Frame where
  opener : Opener
  /-- The offset of the opening parenthesis. -/
  start : Nat := 0
  /-- The modes to return to after the group. -/
  outerModes : Modes := {}
  /-- The finished branches, the last one first. -/
  branches : List Node := []
  /-- The parts of the current branch, the last one first. -/
  pieces : List Piece := []
  deriving Repr, DecidableEq

def Frame.branch (frame : Frame) : Node := .seq (frame.pieces.reverse.map (·.node))

def Frame.node (frame : Frame) : Node := .choice (frame.branch :: frame.branches).reverse

/-- What is known after reading a part of a pattern. -/
structure Reading where
  /-- The innermost open group. -/
  frame : Frame := { opener := .pattern }
  /-- The groups around it, from the inside out. -/
  outer : List Frame := []
  modes : Modes := {}
  /-- The number of numbered groups opened so far. -/
  groupCount : Nat := 0
  /-- The widths of the numbered groups that are closed. -/
  widths : List (Nat × Width) := []
  names : List (Text × Nat) := []
  /-- Inside a look behind: the first group number that it may not refer to. -/
  limit : Option Nat := none
  /-- The group numbers that choices ask for, with their offsets, in order. -/
  wanted : List (Nat × Nat) := []
  /-- Whether a look behind has matches of several lengths. -/
  loose : Bool := false
  /-- The operator of the first loop of the pattern. -/
  firstLoop : Option Appetite := none
  /-- Whether ASCII and all scripts were chosen for the whole pattern. -/
  asciiFlag : Bool := false
  unicodeFlag : Bool := false
  deriving Repr, DecidableEq

/-- The width of a group, as far as it is known. -/
def Reading.groupWidth (r : Reading) (index : Nat) : Width := (r.widths.lookup index).getD .zero

def Reading.isClosed (r : Reading) (index : Nat) : Bool := (r.widths.lookup index).isSome

def Reading.push (r : Reading) (node : Node) (kind : PieceKind := .other) : Reading :=
  { r with frame := { r.frame with pieces := ⟨node, kind⟩ :: r.frame.pieces } }

/-- The node for one character of a set under the modes in force. -/
def Reading.setNode (r : Reading) (negated : Bool) (items : List SetItem) : Node :=
  .one ⟨items, negated, r.modes.ignoreCase, r.modes.ascii⟩

def Reading.pushSet (r : Reading) (negated : Bool) (items : List SetItem) : Reading :=
  r.push (r.setNode negated items)

def Reading.pushChar (r : Reading) (c : Char) : Reading := r.pushSet false [.code c.toNat]

/-- Opens a group at an offset; `modes` are in force inside it. -/
def Reading.openFrame (r : Reading) (opener : Opener) (start : Nat) (modes : Modes) : Reading :=
  { r with
    frame := { opener, start, outerModes := r.modes }
    outer := r.frame :: r.outer
    modes }

/-! ## References to groups -/

/-- Refuses a reference that a look behind does not admit; reading has reached `after`. -/
def Reading.checkLimit (r : Reading) (index after : Nat) : Except Failure Unit :=
  match r.limit with
  | none => .ok ()
  | some limit =>
    if !r.isClosed index then fail .openGroup after after
    else if limit ≤ index then fail .groupOfSameLookbehind after after
    else .ok ()

def Reading.pushBackref (r : Reading) (index : Nat) : Reading :=
  r.push (.backref index r.modes.ignoreCase r.modes.ascii)

/-- Adds a reference by number, written from `pos` to `after`. -/
def Reading.backref (r : Reading) (index pos after : Nat) : Except Failure Reading :=
  if index ≤ r.groupCount then
    if !r.isClosed index then fail .openGroup pos after
    else (r.checkLimit index after).map fun _ => r.pushBackref index
  else fail (.unknownGroup index) (pos + 1) after

/-! ## Escapes -/

def anchorEscape? (ascii : Bool) : Char → Option Anchor
  | 'A' => some .textStart
  | 'Z' => some .textEnd
  | 'b' => some (.wordBoundary ascii false)
  | 'B' => some (.wordBoundary ascii true)
  | _ => none

/-- A backslash at `pos` and a digit from one to nine: a code point of three octal digits, or a
reference to a group of one or two digits. -/
def Reading.stepNumber (r : Reading) (pos : Nat) (first : Char) (rest : List Char) :
    Except Failure (Reading × Nat) :=
  match rest with
  | second :: more =>
    if second.isDigit then
      match more with
      | third :: _ =>
        -- three octal digits are a code point even if there is a group of the first two
        if isOctalDigit first && isOctalDigit second && isOctalDigit third then
          let digits := [first, second, third]
          if octalValue digits > 0o377 then
            fail (.largeOctal ('\\' :: digits)) pos (pos + 4)
          else .ok (r.pushSet false [.code (octalValue digits)], 3)
        else (r.backref (Text.digitsToNat ([first, second].map hexDigitValue)) pos (pos + 3)).map
          (·, 2)
      | [] => (r.backref (Text.digitsToNat ([first, second].map hexDigitValue)) pos (pos + 3)).map
          (·, 2)
    else (r.backref (hexDigitValue first) pos (pos + 2)).map (·, 1)
  | [] => (r.backref (hexDigitValue first) pos (pos + 2)).map (·, 1)

/-- A backslash at `pos` and the character after it. -/
def Reading.stepEscape [CharNames] (r : Reading) (pos : Nat) (letter : Char) (rest : List Char) :
    Except Failure (Reading × Nat) :=
  match categoryEscape? letter, anchorEscape? r.modes.ascii letter, controlEscape? letter,
      readCodeEscape pos letter rest with
  | some item, _, _, _ => .ok (r.pushSet false [item], 1)
  | none, some anchor, _, _ => .ok (r.push (.anchor anchor) .anchor, 1)
  | none, none, some n, _ => .ok (r.pushSet false [.code n], 1)
  | none, none, none, some (.error e) => .error e
  | none, none, none, some (.ok (n, count)) => .ok (r.pushSet false [.code n], count)
  | none, none, none, none =>
    if letter = '0' then
      let digits := takeAtMost 2 isOctalDigit rest
      .ok (r.pushSet false [.code (octalValue digits)], 1 + digits.length)
    else if letter.isDigit then r.stepNumber pos letter rest
    else if letter.isAlpha then fail (.badEscape ['\\', letter]) pos (pos + 2)
    else .ok (r.pushChar letter, 1)

/-! ## Repetitions -/

/-- The numbers of rounds are below this bound. -/
def roundLimit : Nat := 4294967295

/-- A number of rounds; no digits stand for no bound. -/
def readRounds (digits : Text) (noticed : Nat) : Except Failure (Option Nat) :=
  if digits.isEmpty then .ok none
  else match Text.readNat digits with
    | .ok n => if roundLimit ≤ n then .error ⟨.limit .countTooLarge, noticed⟩ else .ok (some n)
    | .error _ => .error ⟨.limit (.countTooLong digits.length), noticed⟩

/-- The rounds between braces after the opening one at `pos`, and the number of characters read;
nothing if the brace stands for itself. -/
def readCounts (pos : Nat) (rest : List Char) :
    Except Failure (Option (Nat × Option Nat × Nat)) :=
  let low := rest.takeWhile Char.isDigit
  let (high, written, after) :=
    match rest.dropWhile Char.isDigit with
    | ',' :: more =>
      let high := more.takeWhile Char.isDigit
      (high, low.length + 1 + high.length, more.dropWhile Char.isDigit)
    | more => (low, low.length, more)
  match after with
  | '\x7d' :: _ =>
    -- braces with nothing between them stand for themselves
    if written = 0 then .ok none
    else do
      let noticed := pos + 2 + written
      let least ← readRounds low noticed
      let most ← readRounds high noticed
      match most with
      | some most =>
        if most < least.getD 0 then fail .reversedCounts (pos + 1) noticed
      | none => pure ()
      return some (least.getD 0, most, written + 1)
  | _ => .ok none

/-- Repeats the last part of the current branch. The operator starts at `pos` and reading has
reached `after`; `rest` may go on with a sign of the appetite. -/
def Reading.repeatLast (r : Reading) (pos after : Nat) (least : Nat) (most : Option Nat)
    (rest : List Char) : Except Failure (Reading × Nat) :=
  match r.frame.pieces with
  | [] => fail .nothingToRepeat pos after
  | piece :: pieces =>
    match piece.kind with
    | .anchor => fail .nothingToRepeat pos after
    | .loop => fail .repeatedRepeat pos after
    | .other =>
      let (appetite, count) : Appetite × Nat :=
        match rest with
        | '?' :: _ => (.lazy, 1)
        | '+' :: _ => (.possessive, 1)
        | _ => (.greedy, 0)
      let node := Node.loop appetite least most piece.node
      .ok ({ r with
        frame := { r.frame with pieces := ⟨node, .loop⟩ :: pieces }
        firstLoop := some (r.firstLoop.getD appetite) }, count)

/-! ## Opening parentheses -/

/-- Opens a numbered group, which may have a name that starts at `namePos`. -/
def Reading.openCapture (r : Reading) (pos : Nat) (name : Option (Text × Nat)) :
    Except Failure Reading :=
  let index := r.groupCount + 1
  let r := { r with groupCount := index }
  match name with
  | none => .ok (r.openFrame (.capture index) pos r.modes)
  | some (name, namePos) =>
    match r.names.lookup name with
    | some previous =>
      fail (.repeatedGroupName name index previous) namePos (namePos + name.length + 1)
    | none =>
      .ok ({ r with names := (name, index) :: r.names }.openFrame (.capture index) pos r.modes)

/-- A name of a group that starts at `pos` and ends with a terminator. -/
def readGroupName (terminator : Char) (pos : Nat) (cs : List Char) : Except Failure Text := do
  let name ← readName "group name" terminator pos cs
  if Text.isIdentifier name then return name
  fail (.badGroupName name) pos (pos + name.length + 1)

/-- The group that a choice asks for, whose name starts at `pos`, and the length of the name. -/
def Reading.readCondition (r : Reading) (pos : Nat) (cs : List Char) :
    Except Failure (Reading × Nat × Nat) := do
  let name ← readName "group name" ')' pos cs
  let after := pos + name.length + 1
  if Text.isIdentifier name then
    match r.names.lookup name with
    | none => fail (.unknownGroupName name) pos after
    | some index =>
      r.checkLimit index after
      return (r, index, name.length)
  else
    match Text.readInt name with
    | .ok (.ofNat index) =>
      if index = 0 then
        fail .zeroGroup pos after
      -- no pattern has that many groups; others may still be opened and are looked for in the end
      if 1073741823 ≤ index then
        fail (.unknownGroup index) pos after
      let r := if (r.wanted.lookup index).isSome then r
        else { r with wanted := r.wanted ++ [(index, pos)] }
      r.checkLimit index after
      return (r, index, name.length)
    | _ => fail (.badGroupName name) pos after

/-- The length of a comment up to and with its closing parenthesis. -/
def commentLength : List Char → Option Nat
  | [] => none
  | '\\' :: _ :: rest => (commentLength rest).map (· + 2)
  | c :: rest => if c = ')' then some 1 else (commentLength rest).map (· + 1)

def Reading.openLook (r : Reading) (pos : Nat) (behind negated : Bool) : Reading :=
  let opened := r.openFrame (.look behind negated r.limit) pos r.modes
  if behind then { opened with limit := some (r.limit.getD (r.groupCount + 1)) } else opened

/-- What follows `(?P` at `pos`. -/
def Reading.stepNamed (r : Reading) (pos : Nat) (rest : List Char) :
    Except Failure (Reading × Nat) :=
  match rest with
  | '<' :: cs => do
    let name ← readGroupName '>' (pos + 4) cs
    let r ← r.openCapture pos (some (name, pos + 4))
    return (r, name.length + 4)
  | '=' :: cs => do
    let name ← readGroupName ')' (pos + 4) cs
    let after := pos + 5 + name.length
    match r.names.lookup name with
    | none => fail (.unknownGroupName name) (pos + 4) after
    | some index =>
      if !r.isClosed index then
        fail .openGroup (pos + 4) after
      r.checkLimit index after
      return (r.pushBackref index, name.length + 4)
  | [] => fail .unexpectedEnd (pos + 3) (pos + 3)
  | _ => fail (.unknownExtension ('?' :: 'P' :: token rest)) (pos + 1)
      (pos + 3 + (token rest).length)

def Reading.stepFlags (r : Reading) (pos : Nat) (cs : List Char) :
    Except Failure (Reading × Nat) := do
  let (flags, after) ← readFlags (pos + 2) cs
  let modes := r.modes.change flags.on flags.off
  if flags.isGlobal then
    if r.frame.opener ≠ .pattern || !r.frame.branches.isEmpty || !r.frame.pieces.isEmpty then
      fail .lateGlobalFlags pos after
    return ({ r with
      modes
      asciiFlag := r.asciiFlag || 'a' ∈ flags.on
      unicodeFlag := r.unicodeFlag || 'u' ∈ flags.on }, after - pos - 1)
  return (r.openFrame .plain pos modes, after - pos - 1)

/-- What follows `(?` at `pos`; the count is that of the characters after the parenthesis. -/
def Reading.stepExtension (r : Reading) (pos : Nat) (rest : List Char) :
    Except Failure (Reading × Nat) :=
  match rest with
  | [] => fail .unexpectedEnd (pos + 2) (pos + 2)
  | 'P' :: cs => r.stepNamed pos cs
  | ':' :: _ => .ok (r.openFrame .plain pos r.modes, 2)
  | '#' :: cs =>
    match commentLength cs with
    | some count => .ok (r, count + 2)
    | none => fail .unclosedComment pos (pos + 3 + cs.length)
  | '=' :: _ => .ok (r.openLook pos false false, 2)
  | '!' :: _ => .ok (r.openLook pos false true, 2)
  | '<' :: '=' :: _ => .ok (r.openLook pos true false, 3)
  | '<' :: '!' :: _ => .ok (r.openLook pos true true, 3)
  | '<' :: [] => fail .unexpectedEnd (pos + 3) (pos + 3)
  | '<' :: cs => fail (.unknownExtension ('?' :: '<' :: token cs)) (pos + 1)
      (pos + 3 + (token cs).length)
  | '(' :: cs => do
    let (r, index, length) ← r.readCondition (pos + 3) cs
    return (r.openFrame (.cond index none) pos r.modes, length + 3)
  | '>' :: _ => .ok (r.openFrame .atomic pos r.modes, 2)
  | c :: cs =>
    if isFlag c || c = '-' then r.stepFlags pos (c :: cs)
    else fail (.unknownExtension ('?' :: token rest)) (pos + 1) (pos + 2 + (token rest).length)

/-! ## Branches and closing parentheses -/

/-- A bar at `pos` ends a branch. -/
def Reading.nextBranch (r : Reading) (pos : Nat) : Except Failure Reading :=
  match r.frame.opener with
  | .cond index none =>
    .ok { r with
      frame := { r.frame with opener := .cond index (some r.frame.branch), pieces := [] } }
  | .cond _ (some _) => fail .thirdBranch pos pos
  | _ =>
    .ok { r with
      frame := { r.frame with branches := r.frame.branch :: r.frame.branches, pieces := [] } }

/-- Leaves the innermost group and adds its node to the group around it. -/
def Reading.leave (r : Reading) (frame : Frame) (outer : List Frame) (node : Node) : Reading :=
  { r with
    frame := { frame with pieces := ⟨node, .other⟩ :: frame.pieces }
    outer
    modes := r.frame.outerModes }

def Reading.close (r : Reading) (pos : Nat) : Except Failure Reading :=
  match r.outer with
  | [] =>
    if r.asciiFlag && r.unicodeFlag then .error ⟨.limit .asciiAndUnicode, pos⟩
    else fail .unopenedGroup pos pos
  | frame :: outer =>
    match r.frame.opener with
    | .pattern => fail .unopenedGroup pos pos
    | .plain => .ok (r.leave frame outer r.frame.node)
    | .atomic => .ok (r.leave frame outer (.atomic r.frame.node))
    | .capture index =>
      let width := r.frame.node.width r.groupWidth
      .ok ({ r with widths := (index, width) :: r.widths }.leave frame outer
        (.group index r.frame.node))
    | .look false negated _ => .ok (r.leave frame outer (.look none negated r.frame.node))
    | .look true negated outerLimit =>
      let fixed := (r.frame.node.width r.groupWidth).fixed?
      .ok ({ r with limit := outerLimit, loose := r.loose || fixed.isNone }.leave frame outer
        (.look (some (fixed.getD 0)) negated r.frame.node))
    -- without a bar, nothing is matched if the group was not entered
    | .cond index none => .ok (r.leave frame outer (.cond index r.frame.branch .empty))
    | .cond index (some yes) => .ok (r.leave frame outer (.cond index yes r.frame.branch))

/-! ## Steps -/

/-- The length of the rest of a comment that ends with its line. -/
def lineCommentLength : List Char → Nat
  | [] => 0
  | '\\' :: _ :: rest => lineCommentLength rest + 2
  | c :: rest => if c = '\n' then 1 else lineCommentLength rest + 1

/-- Reads the character `c` at `pos` and, of the characters after it, as many as it says. -/
def Reading.step [CharNames] (r : Reading) (pos : Nat) (c : Char) (rest : List Char) :
    Except Failure (Reading × Nat) :=
  if r.modes.verbose && c ∈ [' ', '\t', '\n', '\r', '\x0b', '\x0c'] then .ok (r, 0)
  else if r.modes.verbose && c = '#' then .ok (r, lineCommentLength rest)
  else match c with
  | '|' => (r.nextBranch pos).map (·, 0)
  | ')' => (r.close pos).map (·, 0)
  | '(' =>
    match rest with
    | '?' :: cs => r.stepExtension pos cs
    | _ => (r.openCapture pos none).map (·, 0)
  | '[' =>
    (readBracket pos rest).map fun (negated, items, count) => (r.pushSet negated items, count)
  | '\\' =>
    match rest with
    | letter :: cs => r.stepEscape pos letter cs
    | [] => fail .finalBackslash pos (pos + 1)
  | '.' => .ok (r.pushSet true (if r.modes.dotAll then [] else [.code 10]), 0)
  | '^' => .ok (r.push (.anchor (if r.modes.multiline then .lineStart else .textStart)) .anchor, 0)
  | '$' =>
    .ok (r.push (.anchor (if r.modes.multiline then .lineEnd else .lastLineEnd)) .anchor, 0)
  | '*' => r.repeatLast pos (pos + 1) 0 none rest
  | '+' => r.repeatLast pos (pos + 1) 1 none rest
  | '?' => r.repeatLast pos (pos + 1) 0 (some 1) rest
  | '\x7b' =>
    match readCounts pos rest with
    | .error e => .error e
    | .ok none => .ok (r.pushChar c, 0)
    | .ok (some (least, most, count)) =>
      (r.repeatLast pos (pos + 1 + count) least most (rest.drop count)).map
        fun (r, more) => (r, count + more)
  | _ => .ok (r.pushChar c, 0)

def Reading.run [CharNames] (r : Reading) (pos : Nat) (cs : List Char) : Except Failure Reading :=
  match cs with
  | [] => .ok r
  | c :: rest =>
    match r.step pos c rest with
    | .error e => .error e
    | .ok (next, count) => next.run (pos + 1 + count) (rest.drop count)
termination_by cs.length
decreasing_by simp only [List.length_drop, List.length_cons]; omega

/-- The text without a backslash that ends it and begins no escape, and whether there was one. -/
def splitFinalBackslash : List Char → List Char × Bool
  | [] => ([], false)
  | ['\\'] => ([], true)
  | '\\' :: c :: rest =>
    let (cs, found) := splitFinalBackslash rest
    ('\\' :: c :: cs, found)
  | c :: rest =>
    let (cs, found) := splitFinalBackslash rest
    (c :: cs, found)

/-- What the checks after reading find. -/
def Reading.finish (r : Reading) (length : Nat) : Except Failure Node :=
  if !r.outer.isEmpty then fail .unclosedGroup r.frame.start length
  else if r.asciiFlag && r.unicodeFlag then .error ⟨.limit .asciiAndUnicode, length⟩
  else match r.wanted.find? fun (index, _) => r.groupCount < index with
    | some (index, offset) => fail (.unknownGroup index) offset length
    | none => .ok r.frame.node

end VerseSearch.Pattern

namespace VerseSearch

structure Pattern where
  node : Pattern.Node
  deriving Repr, DecidableEq

end VerseSearch

namespace VerseSearch.Pattern

/-- The name that a message gives to the operator of a loop. -/
def Appetite.operatorName : Appetite → String
  | .greedy => "MAX_REPEAT"
  | .lazy => "MIN_REPEAT"
  | .possessive => "POSSESSIVE_REPEAT"

def FailureCause.toError (source : Text) : FailureCause → PatternError
  | .problem what offset => .fault ⟨what, some (.of source offset)⟩
  | .limit l => .limit l

/-- The pattern that a text without a final backslash stands for. -/
def parseBody [CharNames] (body : Text) : Except Failure (Reading × Node) := do
  let r ← ({} : Reading).run 0 body
  let node ← r.finish body.length
  return (r, node)

/-- The pattern that a text stands for, or the error that comes first in it. -/
def parse [CharNames] (source : Text) : Except PatternError Pattern :=
  let (body, backslash) := splitFinalBackslash source
  let final := FailureCause.problem .finalBackslash body.length
  match parseBody body with
  | .error e =>
    .error ((if backslash && e.noticed = body.length then final else e.cause).toError source)
  | .ok (r, node) =>
    if backslash then .error (final.toError source)
    else match r.modes.template, r.firstLoop with
      | true, some appetite => .error (.fault ⟨.templateOperator appetite.operatorName, none⟩)
      | _, _ => if r.loose then .error (.fault ⟨.looseLookbehind, none⟩) else .ok ⟨node⟩

end VerseSearch.Pattern
