import VerseSearch.Text.Basic

/-! # Similarity of texts

A ranking scores candidates by their likeness to a text and finds the best of them.

* `Text.Match`: a candidate that was found.
* `Text.Ranking`: a score of two texts, and the best matches under a score.
* `Text.ratio`: twice the length of the longest common subsequence over the sum of the lengths, in
  percent.
* `Text.bestMatches`: the best matches by sorting all candidates.
-/

namespace VerseSearch.Text
set_option autoImplicit false

/-! ## Rankings -/

/-- A candidate with its score in percent and its place among the candidates. -/
structure Match where
  text : Text
  score : Rat
  place : Nat
  deriving Repr, DecidableEq

/-- How two texts are scored, and how the best candidates for a text are found: those of at least a
score, no more than a number of them. -/
class Ranking where
  score : Text → Text → Rat
  extract : (Text → Text → Rat) → Text → List Text → Rat → Nat → List Match

/-! ## Common subsequences -/

/-- One row of the table of common lengths. `diagonal` is the entry before `row` in the row above,
`left` the last entry of the new row. -/
def nextRow (a : Char) (diagonal left : Nat) : Text → List Nat → List Nat
  | b :: bs, above :: row =>
    let here := if a = b then diagonal + 1 else max left above
    here :: nextRow a above here bs row
  | _, _ => []

/-- The row of the table after reading a text. -/
def lastRow (bs : Text) (row : List Nat) : Text → List Nat
  | [] => row
  | a :: as => lastRow bs (nextRow a 0 0 bs row) as

def commonLength (as bs : Text) : Nat :=
  ((lastRow bs (List.replicate bs.length 0) as).getLast?).getD 0

/-- The score of two texts; empty texts are alike. -/
def ratio (as bs : Text) : Rat :=
  let total := as.length + bs.length
  if total = 0 then 100 else mkRat (200 * commonLength as bs) total

/-! ## Best matches -/

/-- The candidates with their scores and places. -/
def scored (score : Text → Text → Rat) (t : Text) (candidates : List Text) : List Match :=
  candidates.zipIdx.map fun (u, i) => ⟨u, score t u, i⟩

/-- The matches of at least a score, the best first and equal ones in their order, no more than
`limit` of them. -/
def bestMatches (score : Text → Text → Rat) (t : Text) (candidates : List Text) (least : Rat)
    (limit : Nat) : List Match :=
  let found := (scored score t candidates).filter (least ≤ ·.score)
  (found.mergeSort fun m n => n.score ≤ m.score).take limit

/-- The ranking that sorts all candidates. -/
instance Ranking.bySorting : Ranking := ⟨ratio, bestMatches⟩

end VerseSearch.Text
