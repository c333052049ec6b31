import VerseSearch.Proofs.Matching.Scanning

/-! # Replacing matches

What a replacement of all matches makes of a text depends on what the first way of matching is at each
place, also where a pattern can match texts of several lengths.

* `Pattern.replaceAll`: a text with every match replaced.
* `replaceAll_eq`: a function that keeps the characters at which nothing begins and replaces what is
  taken at the others.
* `filter_eq_replaceAll`: a pattern for single characters, all of which are dropped.
-/

namespace VerseSearch.Pattern
set_option autoImplicit false

/-! ## Replacements -/

/-- A text from `start` on with the given spans replaced. What takes the place of a span depends on the
text before it and on the text in it. -/
def replaceSpans (replace : Text → Text → Text) (t : Text) (start : ℕ) : List (ℕ × ℕ) → Text
  | [] => t.drop start
  | (i, j) :: spans =>
    slice t start i ++ (replace (t.take i) (slice t i j) ++ replaceSpans replace t j spans)

/-- A text with every match of a pattern replaced. -/
def replaceAll (p : Pattern) (replace : Text → Text → Text) (t : Text) : Text :=
  replaceSpans replace t 0 (p.findAll t)

/-! ## Functions that replace -/

section
variable {M : ℕ → ℕ → Prop} {t : Text} {g : ℕ → Text}
  (hskip : ∀ i c, t[i]? = some c → (∀ j, ¬M i j) → g i = c :: g (i + 1))
include hskip

/-- What keeps the characters at which nothing begins keeps a row of them. -/
theorem skip_eq {start i : ℕ} (hle : start ≤ i) (hi : i ≤ t.length)
    (hnone : ∀ i' j, start ≤ i' → i' < i → ¬M i' j) : g start = slice t start i ++ g i := by
  obtain ⟨n, rfl⟩ := Nat.exists_eq_add_of_le hle
  induction n generalizing start with
  | zero => simp [slice]
  | succ n ih =>
    have hlt : start < t.length := by omega
    have hrest := ih (Nat.le_add_right (start + 1) n) (by omega) fun i' j h₁ h₂ =>
      hnone i' j (by omega) (by omega)
    have hslice : slice t start (start + (n + 1)) =
        t[start] :: slice t (start + 1) (start + 1 + n) := by
      rw [slice, List.drop_eq_getElem_cons hlt, slice, Nat.add_sub_cancel_left, Nat.add_sub_cancel_left,
        List.take_succ_cons]
    have hfirst := hskip start t[start] (List.getElem?_eq_getElem hlt) fun j =>
      hnone start j (Nat.le_refl _) (by omega)
    rw [hfirst, hrest, hslice, List.cons_append, Nat.add_right_comm start 1 n, Nat.add_assoc]

theorem Scan.replaceSpans_eq {replace : Text → Text → Text} (hend : g t.length = [])
    (hfound : ∀ i j, M i j → i ≤ j ∧ j ≤ t.length ∧ g i = replace (t.take i) (slice t i j) ++ g j)
    {start : ℕ} {spans : List (ℕ × ℕ)} (h : Scan M start spans) (hstart : start ≤ t.length) :
    replaceSpans replace t start spans = g start := by
  induction h with
  | @done start hnone =>
    have hall := skip_eq hskip hstart (Nat.le_refl _) fun i' j hi' _ => hnone i' j hi'
    rw [hall, hend, List.append_nil, replaceSpans, slice, List.take_of_length_le]
    rw [List.length_drop]
  | @found start i j spans hle hspan hfirst _ ih =>
    obtain ⟨hij, hj, heq⟩ := hfound i j hspan
    rw [skip_eq hskip hle (hij.trans hj) hfirst, heq, ← ih hj, replaceSpans]

end

/-- A pattern that takes at least one character wherever it matches, and a function that is told the
text before the one it is applied to. -/
theorem replaceAll_eq {p : Pattern} {replace f : Text → Text → Text} {t : Text} (hnil : f t [] = [])
    (hskip : ∀ before c rest, t = before ++ c :: rest →
      p.matchAt t.toArray before.length false = none →
      f before (c :: rest) = c :: f (before ++ [c]) rest)
    (hfound : ∀ before rest j, t = before ++ rest → p.matchAt t.toArray before.length false = some j →
      ∃ u after, rest = u ++ after ∧ u ≠ [] ∧ j = (before ++ u).length ∧
        f before rest = replace before u ++ f (before ++ u) after) :
    p.replaceAll replace t = f [] t := by
  have hat : ∀ i j, p.FirstAt t i j → ∃ u after, t.drop i = u ++ after ∧ u ≠ [] ∧
      j = (t.take i ++ u).length ∧
      f (t.take i) (t.drop i) = replace (t.take i) u ++ f (t.take i ++ u) after := by
    intro i j h
    have hmatch := h.2
    rw [← List.length_take_of_le h.1] at hmatch
    exact hfound _ _ j (List.take_append_drop i t).symm hmatch
  have hscan : Scan (p.FirstAt t) 0 (p.findAll t) := scan_firstAt fun i j h => by
    obtain ⟨u, after, -, hne, rfl, -⟩ := hat i j h
    have hlength := List.length_pos_iff.mpr hne
    rw [List.length_append, List.length_take_of_le h.1]
    omega
  refine hscan.replaceSpans_eq (g := fun i => f (t.take i) (t.drop i)) ?_ ?_ ?_ (Nat.zero_le _)
  · intro i c hc hnone
    obtain ⟨hi, rfl⟩ := List.getElem?_eq_some_iff.mp hc
    have hsplit : t = t.take i ++ t[i] :: t.drop (i + 1) := by
      rw [← List.drop_eq_getElem_cons hi, List.take_append_drop]
    have hkeep := hskip (t.take i) t[i] (t.drop (i + 1)) hsplit (by
      rw [List.length_take_of_le hi.le, Option.eq_none_iff_forall_ne_some]
      exact fun j hj => hnone j ⟨hi.le, hj⟩)
    simp only [List.drop_eq_getElem_cons hi, hkeep, List.take_append_getElem]
  · simp only [List.take_length, List.drop_length, hnil]
  · intro i j h
    obtain ⟨u, after, hdrop, -, hj, heq⟩ := hat i j h
    rw [List.length_append, List.length_take_of_le h.1] at hj
    have hlength := congrArg List.length hdrop
    rw [List.length_drop, List.length_append] at hlength
    have hi := h.1
    have hslice : slice t i j = u := by rw [slice, hdrop, hj, Nat.add_sub_cancel_left, List.take_left]
    have htake : t.take j = t.take i ++ u := by
      rw [hj, List.take_add, hdrop, List.take_left]
    have hafter : t.drop j = after := by rw [hj, ← List.drop_drop, hdrop, List.drop_left]
    refine ⟨by omega, by omega, ?_⟩
    simp only [heq, hslice, htake, hafter]

/-! ## Characters that are dropped -/

/-- One character of a set. -/
def Node.char (set : CharSet) : Node := .cat (.one set) .empty

theorem filter_eq_replaceAll (set : CharSet) (t : Text) :
    t.filter (fun c => !set.accepts c) = replaceAll ⟨Node.char set⟩ (fun _ _ => []) t := by
  have hmatch : ∀ {before : Text} {c : Char} {rest : Text}, t = before ++ c :: rest →
      (mk (Node.char set)).matchAt t.toArray before.length false =
        if set.accepts c then some (before.length + 1) else none := by
    intro before c rest ht
    rw [matchAt, Node.char, Node.run, Node.run, ht, getElem?_after]
    simp only [List.head?_cons]
    split <;> rfl
  refine (replaceAll_eq (f := fun _ => List.filter fun c => !set.accepts c) rfl
    (fun before c rest ht hnone => ?_) fun before rest j ht hsome => ?_).symm
  · cases hc : set.accepts c with
    | true => simp [hmatch ht, hc] at hnone
    | false => simp [hc]
  · cases rest with
    | nil => simp [matchAt, Node.char, Node.run, ht] at hsome
    | cons c rest =>
      cases hc : set.accepts c with
      | true =>
        refine ⟨[c], rest, rfl, List.cons_ne_nil _ _, ?_, by simp [hc]⟩
        simpa [hmatch ht, hc, eq_comm] using hsome
      | false => simp [hmatch ht, hc] at hsome

end VerseSearch.Pattern
