import VerseSearch.Proofs.Hebrew.Patterns
import VerseSearch.Query.Letters

/-! # Brackets in the source of a pattern

Whether a place is inside of brackets is one bit, which only brackets change.

* `isBracket`, `insideAfter_of_not_isBracket`: the characters that change it.
* `isInside_iff`, `isInside_iff_getLast?`: inside means that the last bracket is an opening one.
* `occursIn_unclosed`: the pattern for an unclosed bracket occurs in the texts that end inside.
-/

namespace VerseSearch.Query
set_option autoImplicit false

open Pattern (Node CharSet)

/-! ## One bit -/

def isBracket (c : Char) : Bool := c = '[' || c = ']'

theorem isBracket_iff {c : Char} : isBracket c = true ↔ c = '[' ∨ c = ']' := by simp [isBracket]

theorem isBracket_eq_false {P : Char → Bool} (hopen : P '[' = false) (hclose : P ']' = false) {c : Char}
    (hc : P c = true) : isBracket c = false := by
  rw [← Bool.not_eq_true, isBracket_iff]
  rintro (rfl | rfl)
  · exact absurd hc (by simp [hopen])
  · exact absurd hc (by simp [hclose])

theorem insideAfter_of_not_isBracket {c : Char} (hc : isBracket c = false) (inside : Bool) :
    insideAfter inside c = inside := by
  simp only [isBracket, Bool.or_eq_false_iff, decide_eq_false_iff_not] at hc
  simp [insideAfter, hc.1, hc.2]

theorem foldl_insideAfter_filter (t : Text) (inside : Bool) :
    t.foldl insideAfter inside = (t.filter isBracket).foldl insideAfter inside := by
  induction t generalizing inside with
  | nil => rfl
  | cons c t ih =>
    cases hc : isBracket c with
    | true => rw [List.filter_cons_of_pos hc, List.foldl_cons, List.foldl_cons, ih]
    | false =>
      rw [List.filter_cons_of_neg (by simp [hc]), List.foldl_cons, insideAfter_of_not_isBracket hc, ih]

theorem isInside_concat (t : Text) (c : Char) : isInside (t ++ [c]) = insideAfter (isInside t) c :=
  List.foldl_concat ..

/-- Inside means that a bracket is open and not closed after it. -/
theorem isInside_iff {t : Text} :
    isInside t = true ↔ ∃ before after, t = before ++ '[' :: after ∧ ']' ∉ after := by
  induction t using List.reverseRecOn with
  | nil => simp [isInside]
  | append_singleton t c ih =>
    rw [isInside_concat]
    by_cases hopen : c = '['
    · subst hopen
      exact iff_of_true rfl ⟨t, [], rfl, List.not_mem_nil⟩
    -- the text after the bracket that is open ends with the last character
    have hlast : (∃ before after, t ++ [c] = before ++ '[' :: after ∧ ']' ∉ after) ↔
        (∃ before after, t = before ++ '[' :: after ∧ ']' ∉ after) ∧ c ≠ ']' := by
      constructor
      · rintro ⟨before, after, heq, hafter⟩
        cases after using List.reverseRecOn with
        | nil => exact absurd (List.append_inj_right' heq rfl) (by simpa using hopen)
        | append_singleton after d =>
          rw [← List.cons_append, ← List.append_assoc] at heq
          obtain ⟨rfl, hd⟩ := List.append_inj' heq rfl
          obtain rfl : c = d := List.singleton_inj.mp hd
          simp only [List.mem_append, List.mem_singleton, not_or] at hafter
          exact ⟨⟨before, after, rfl, hafter.1⟩, Ne.symm hafter.2⟩
      · rintro ⟨⟨before, after, rfl, hafter⟩, hc⟩
        exact ⟨before, after ++ [c], by simp, by simp [hafter, Ne.symm hc]⟩
    rw [hlast, ← ih]
    by_cases hclose : c = ']'
    · simp [insideAfter, hclose]
    · simp [insideAfter, hopen, hclose]

/-- Inside means that the last bracket is an opening one. -/
theorem isInside_iff_getLast? {t : Text} :
    isInside t = true ↔ (t.filter isBracket).getLast? = some '[' := by
  induction t using List.reverseRecOn with
  | nil => simp [isInside]
  | append_singleton t c ih =>
    rw [isInside_concat, List.filter_append, List.filter_singleton]
    cases hc : isBracket c with
    | false => rw [insideAfter_of_not_isBracket hc, ih, cond_false, List.append_nil]
    | true =>
      rw [cond_true, List.getLast?_concat, Option.some_inj]
      obtain rfl | rfl := isBracket_iff.mp hc <;> simp [insideAfter]

/-! ## The pattern for an unclosed bracket -/

def notClosing : CharSet := { items := [.code ']'.toNat], negated := true }

@[simp] theorem accepts_notClosing (c : Char) : notClosing.accepts c = true ↔ c ≠ ']' := by
  have hset : notClosing.accepts c = !(CharSet.single ']').accepts c := by
    rw [CharSet.accepts, CharSet.accepts, notClosing, CharSet.single, Bool.bne_true, Bool.bne_false]
    rfl
  have hsingle : (CharSet.single ']').accepts c = true ↔ c ∈ [']'] := CharSet.accepts_codes [']'] c
  rw [hset, Bool.not_eq_true', ← Bool.not_eq_true, hsingle, List.mem_singleton]

/-- An opening bracket and no closing one up to the end. -/
def unclosed : Node :=
  .cat (.one (.single '[')) (.cat (.loop .greedy 0 none (.one notClosing))
    (.cat (.anchor .lastLineEnd) .empty))

theorem parse_unclosed [Pattern.CharNames] : Pattern.parse "\\[[^\\]]*$".toList = .ok ⟨unclosed⟩ :=
  Pattern.parse_of_namesNone (by decide) (by decide +kernel)

theorem matches_notClosing (before u after : Text) :
    (Node.loop .greedy 0 none (.one notClosing)).Matches before u after ↔ ']' ∉ u := by
  rw [(Node.Denotes.one notClosing).star.2, CharSet.language, Pattern.mem_star_oneWith]
  simp only [accepts_notClosing]
  exact ⟨fun h hmem => h _ hmem rfl, fun h c hc heq => h (heq ▸ hc)⟩

/-- A line feed at the end does not matter, because it is no bracket. -/
theorem occursIn_unclosed (t : Text) : (Pattern.mk unclosed).occursIn t = isInside t := by
  have hplain : unclosed.IsPlain := ⟨trivial, ⟨rfl, nofun, trivial⟩, trivial, trivial⟩
  have hopens : ∀ c, (CharSet.single '[').accepts c = true ↔ c ∈ ['['] := CharSet.accepts_codes ['[']
  rw [Bool.eq_iff_iff, Pattern.occursIn_iff (p := ⟨unclosed⟩) hplain, isInside_iff]
  constructor
  · rintro ⟨_, _, before, u, after, rfl, rfl, rfl, v, w, rfl, ⟨c, hc, rfl⟩, x, y, rfl, hx, z, z', rfl,
      ⟨rfl, hend⟩, rfl⟩
    obtain rfl := List.mem_singleton.mp ((hopens c).mp hc)
    rw [List.nil_append] at hend
    have hafter := (Hebrew.holds_lastLineEnd_iff _ _).mp hend
    have hclosing := (matches_notClosing ..).mp hx
    refine ⟨before, x ++ after, by simp, ?_⟩
    obtain rfl | rfl := hafter <;> simp [hclosing]
  · rintro ⟨before, after, rfl, hafter⟩
    refine ⟨_, _, before, '[' :: after, [], by simp, rfl, rfl, ['['], after, rfl,
      ⟨'[', (hopens _).mpr (by simp), rfl⟩, after, [], by simp, (matches_notClosing ..).mpr hafter, [], [],
      rfl, ⟨rfl, ?_⟩, rfl⟩
    exact (Hebrew.holds_lastLineEnd_iff _ _).mpr (.inl rfl)

end VerseSearch.Query
