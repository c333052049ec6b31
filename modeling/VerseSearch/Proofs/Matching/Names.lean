import Mathlib.Data.List.Infix
import VerseSearch.Proofs.Matching.Limits

/-! # Patterns that name no characters

The names of characters are asked for by one escape alone. A text without it is read in the same way
whatever names there are.

* `NamesNone`: the escape does not occur in a text.
* `Reading.run_names`, `parse_names`: a text without it is read in the same way.
-/

namespace VerseSearch.Pattern
set_option autoImplicit false

/-- The escape for a named character does not occur in a text. -/
def NamesNone (t : Text) : Prop := ¬ ['\\', 'N'] <:+: t

instance (t : Text) : Decidable (NamesNone t) := inferInstanceAs (Decidable (¬ _))

theorem NamesNone.of_infix {s t : Text} (h : NamesNone t) (hs : s <:+: t) : NamesNone s :=
  fun hn => h (hn.trans hs)

theorem NamesNone.tail {c : Char} {rest : Text} (h : NamesNone (c :: rest)) : NamesNone rest :=
  h.of_infix (List.suffix_cons c rest).isInfix

theorem NamesNone.drop {c : Char} {rest : Text} (h : NamesNone (c :: rest)) (n : ℕ) :
    NamesNone (rest.drop n) :=
  h.tail.of_infix (List.drop_suffix n rest).isInfix

theorem NamesNone.after {c d : Char} {rest that : Text} {n : ℕ} (h : NamesNone (c :: rest))
    (hrest : rest.drop n = d :: that) : NamesNone that :=
  NamesNone.tail (hrest ▸ h.drop n)

theorem NamesNone.letter_ne {letter : Char} {rest : Text} (h : NamesNone ('\\' :: letter :: rest)) :
    letter ≠ 'N' := by
  rintro rfl
  exact h (List.IsPrefix.isInfix ⟨rest, rfl⟩)

section
variable (names names' : CharNames)

theorem readCodeEscape_names (pos : ℕ) {letter : Char} (rest : List Char) (h : letter ≠ 'N') :
    @readCodeEscape names pos letter rest = @readCodeEscape names' pos letter rest := by
  unfold readCodeEscape
  split <;> first | rfl | exact absurd rfl h

theorem readSetItem_names (pos : ℕ) {cs : List Char} (h : NamesNone cs) :
    @readSetItem names pos cs = @readSetItem names' pos cs := by
  unfold readSetItem
  split
  · next c rest =>
    simp only [readSetEscape, readCodeEscape_names names names' pos rest h.letter_ne]
  · rfl
  · rfl

theorem readItems_names (start pos : ℕ) (items : List SetItem) {cs : List Char} (h : NamesNone cs) :
    @readItems names start pos items cs = @readItems names' start pos items cs := by
  fun_induction @readItems names start pos items cs with
  | case1 => rw [readItems]
  | case2 pos items c rest hclose => rw [readItems, if_pos hclose]
  | case3 pos items c rest hclose e hlo =>
    rw [readItems, if_neg hclose, ← readSetItem_names names names' pos h, hlo]
  | case4 pos items c rest hclose lo count hlo hrest
  | case5 pos items c rest hclose lo count hlo tail hrest =>
    rw [readItems, if_neg hclose, ← readSetItem_names names names' pos h, hlo]
    simp only [hrest]
  | case6 pos items c rest hclose lo count hlo that hnil hbracket hrest e hhi =>
    rw [readItems, if_neg hclose, ← readSetItem_names names names' pos h, hlo]
    simp only [hrest]
    rw [← readSetItem_names names names' _ (h.after hrest), hhi]
  | case7 pos items c rest hclose lo count hlo that hnil hbracket hrest hi more hhi after e hrange =>
    rw [readItems, if_neg hclose, ← readSetItem_names names names' pos h, hlo]
    simp only [hrest]
    rw [← readSetItem_names names names' _ (h.after hrest), hhi]
    simp only [show rangeOf _ _ (pos + count + 1 + more) lo hi = _ from hrange]
  | case8 pos items c rest hclose lo count hlo that hnil hbracket hrest hi more hhi after range
      hrange ih =>
    rw [readItems, if_neg hclose, ← readSetItem_names names names' pos h, hlo]
    simp only [hrest]
    rw [← readSetItem_names names names' _ (h.after hrest), hhi]
    simp only [show rangeOf _ _ (pos + count + 1 + more) lo hi = _ from hrange]
    exact ih (h.drop _)
  | case9 pos items c rest hclose lo count hlo hsingle hbracket hrange ih =>
    rw [readItems, if_neg hclose, ← readSetItem_names names names' pos h, hlo]
    simp only [ih (h.drop _)]

theorem readBracket_names (start : ℕ) {cs : List Char} (h : NamesNone cs) :
    @readBracket names start cs = @readBracket names' start cs := by
  unfold readBracket
  split
  · rw [readItems_names names names' _ _ _ h.tail]
  · rw [readItems_names names names' _ _ _ h]

/-! ## Steps -/

theorem Reading.stepEscape_names (r : Reading) (pos : ℕ) {letter : Char} (rest : List Char)
    (h : letter ≠ 'N') : @stepEscape names r pos letter rest = @stepEscape names' r pos letter rest := by
  simp only [stepEscape, readCodeEscape_names names names' pos rest h]

theorem Reading.step_names (r : Reading) (pos : ℕ) {c : Char} {rest : List Char}
    (h : NamesNone (c :: rest)) : @step names r pos c rest = @step names' r pos c rest := by
  unfold step
  split
  · rfl
  · split
    · rfl
    · split
      case h_4 => rw [readBracket_names names names' pos h.tail]
      case h_5 =>
        split
        · exact r.stepEscape_names names names' pos _ h.letter_ne
        · rfl
      all_goals rfl

theorem Reading.run_names (r : Reading) (pos : ℕ) {cs : List Char} (h : NamesNone cs) :
    @run names r pos cs = @run names' r pos cs := by
  fun_induction @run names r pos cs with
  | case1 => rw [run]
  | case2 r pos c rest e hstep => rw [run, ← r.step_names names names' pos h, hstep]
  | case3 r pos c rest next count hstep ih =>
    rw [run, ← r.step_names names names' pos h, hstep]
    exact ih (h.drop _)

/-- A text that names no characters is read in the same way whatever names there are. -/
theorem parse_names {t : Text} (h : NamesNone t) : @parse names t = @parse names' t := by
  have hbody : NamesNone (splitFinalBackslash t).1 := by
    obtain ⟨rest, hrest⟩ := splitFinalBackslash_prefix t
    exact h.of_infix ⟨[], rest, by rw [List.nil_append, hrest]⟩
  have hrun := Reading.run_names names names' {} 0 hbody
  simp only [parse, parseBody, hrun]

end

theorem parse_of_namesNone [names : CharNames] {t : Text} {x : Except PatternError Pattern}
    (h : NamesNone t) (heq : @parse .empty t = x) : parse t = x := by
  rw [parse_names names .empty h, heq]

end VerseSearch.Pattern
