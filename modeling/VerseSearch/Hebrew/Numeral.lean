import VerseSearch.Text.Basic

/-! # Hebrew numerals

* `Numeral.ofIndex`: the numeral of the place with a given index, counted from zero.

The numerals of 15 and 16 are written as nine and six and as nine and seven.
-/

namespace VerseSearch.Numeral
set_option autoImplicit false

def units : Text := ['א', 'ב', 'ג', 'ד', 'ה', 'ו', 'ז', 'ח', 'ט', 'י']

def tens : Text := ['י', 'כ', 'ל', 'מ', 'נ', 'ס', 'ע', 'פ', 'צ', 'ק']

def hundreds : Text := ['ק', 'ר', 'ש', 'ת']

structure RangeError where
  index : Int
  deriving Repr, DecidableEq

def RangeError.message (e : RangeError) : String :=
  s!"number_to_hebrew({e.index}) - base-0 number is out of range"

def digit (row : Text) (d : Nat) : Text := if d = 0 then [] else (row[d - 1]?).toList

def ofNat (n : Nat) : Text :=
  if n = 15 then ['ט', 'ו']
  else if n = 16 then ['ט', 'ז']
  else digit hundreds (n / 100) ++ digit tens (n / 10 % 10) ++ digit units (n % 10)

/-- The indices below this one have numerals. -/
def limit : Nat := 499

/-- The numeral of the place with a given index. -/
def ofIndex (index : Int) : Except RangeError Text :=
  match index with
  | .ofNat n => if n < limit then .ok (ofNat (n + 1)) else .error ⟨index⟩
  | .negSucc _ => .error ⟨index⟩

end VerseSearch.Numeral
