import VerseSearch.Pattern.Escape

/-! # Bracket expressions

* `readSetItem`: one character or escape inside brackets.
* `rangeOf`: the range between two items, if they can be its ends.
* `readItems`: the items up to the closing bracket.
* `readBracket`: a whole bracket expression after its opening bracket.
-/

namespace VerseSearch.Pattern
set_option autoImplicit false

variable [CharNames]

/-- One character or escape inside brackets, at `pos`; the count is never zero. -/
def readSetItem (pos : Nat) : List Char → Except Failure (SetItem × Nat)
  | '\\' :: c :: rest => (readSetEscape pos c rest).map fun (item, count) => (item, 1 + count)
  | c :: _ => .ok (.code c.toNat, 1)
  | [] => .ok (.code 0, 1)

/-- The range between two items written as `lo` and `hi`; reading has reached `after`. -/
def rangeOf (lo hi : Text) (after : Nat) : SetItem → SetItem → Except Failure SetItem
  | .code a, .code b =>
    if b < a then fail (.badRange lo hi) (after - (lo.length + 1 + hi.length)) after
    else .ok (.range a b)
  | _, _ => fail (.badRange lo hi) (after - (lo.length + 1 + hi.length)) after

/-- The items from `pos` to the closing bracket of the expression that was opened at `start`, and
the offset after that bracket. A bracket that would close an empty expression is an item. -/
def readItems (start pos : Nat) (items : List SetItem) (cs : List Char) :
    Except Failure (List SetItem × Nat) :=
  match cs with
  | [] => fail .unclosedSet start pos
  | c :: rest =>
    if c = ']' && !items.isEmpty then .ok (items.reverse, pos + 1)
    else
      match readSetItem pos (c :: rest) with
      | .error e => .error e
      | .ok (lo, count) =>
        match rest.drop (count - 1) with
        | '-' :: [] => fail .unclosedSet start (pos + count + 1)
        | '-' :: ']' :: _ => .ok ((.code '-'.toNat :: lo :: items).reverse, pos + count + 2)
        | '-' :: that =>
          match readSetItem (pos + count + 1) that with
          | .error e => .error e
          | .ok (hi, more) =>
            let after := pos + count + 1 + more
            match rangeOf (token (c :: rest)) (token that) after lo hi with
            | .error e => .error e
            | .ok range => readItems start after (range :: items) (rest.drop (count + more))
        | _ => readItems start (pos + count) (lo :: items) (rest.drop (count - 1))
termination_by cs.length
decreasing_by all_goals (simp only [List.length_drop, List.length_cons]; omega)

/-- A bracket expression after its opening bracket at `start`: whether it is negated, its items and
the number of characters read. -/
def readBracket (start : Nat) (cs : List Char) : Except Failure (Bool × List SetItem × Nat) :=
  match cs with
  | '^' :: rest =>
    (readItems start (start + 2) [] rest).map fun (items, after) => (true, items, after - start - 1)
  | _ =>
    (readItems start (start + 1) [] cs).map fun (items, after) => (false, items, after - start - 1)

end VerseSearch.Pattern
