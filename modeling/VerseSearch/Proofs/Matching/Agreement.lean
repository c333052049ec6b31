import VerseSearch.Proofs.Matching.Limits

/-! # Readings of a text with and without a tail

A text that stands between `^(?:` and `)$` is read with a tail after it. The reader of a part agrees with
itself before the tail if it takes no notice of the tail.

* `Whole`: texts in which each backslash has the character that belongs to it.
* `Ends`: numbers of characters after which a whole text goes on.
* `SamePlace`: the offsets that two readings reach after one number of characters.
* `IsTail`: what stands after a text between the ends.
* `Agrees`: a reading that ends as another one does, or goes on where that one has a problem.
-/

namespace VerseSearch.Pattern
set_option autoImplicit false

/-! ## Whole texts -/

/-- Each backslash has a character after it that belongs to it. -/
inductive Whole : List Char → Prop
  | nil : Whole []
  | escape (c : Char) {cs : List Char} (h : Whole cs) : Whole ('\\' :: c :: cs)
  | char {c : Char} {cs : List Char} (hc : c ≠ '\\') (h : Whole cs) : Whole (c :: cs)

theorem Whole.of_cons {c : Char} {cs : List Char} (h : Whole (c :: cs)) (hc : c ≠ '\\') : Whole cs := by
  cases h with
  | escape _ h => exact absurd rfl hc
  | char _ h => exact h

theorem Whole.exists_escape {cs : List Char} (h : Whole ('\\' :: cs)) :
    ∃ c rest, cs = c :: rest ∧ Whole rest := by
  cases h with
  | escape c h => exact ⟨c, _, rfl, h⟩
  | char hc h => exact absurd rfl hc

/-- A number of characters after which a whole text goes on. -/
def Ends (cs : List Char) (count : ℕ) : Prop := count ≤ cs.length ∧ Whole (cs.drop count)

namespace Ends

variable {c : Char} {cs : List Char} {count : ℕ}

theorem zero (h : Whole cs) : Ends cs 0 := ⟨Nat.zero_le _, h⟩

theorem cons (h : Ends cs count) : Ends (c :: cs) (count + 1) := ⟨Nat.succ_le_succ h.1, h.2⟩

theorem drop_append (h : Ends cs count) (tail : List Char) :
    (cs ++ tail).drop count = cs.drop count ++ tail := List.drop_append_of_le_length h.1

/-- One number of characters after another. -/
theorem add (h : Ends cs count) {more : ℕ} (hmore : Ends (cs.drop count) more) : Ends cs (count + more) := by
  obtain ⟨hle, hwhole⟩ := hmore
  rw [List.length_drop] at hle
  rw [List.drop_drop] at hwhole
  exact ⟨by have := h.1; omega, hwhole⟩

/-- A number of characters and the character after them. -/
theorem succ (h : Ends cs count) {rest : List Char} (hrest : cs.drop count = c :: rest) (hc : c ≠ '\\') :
    Ends cs (count + 1) ∧ cs.drop (count + 1) = rest := by
  have hone : Ends (cs.drop count) 1 := hrest ▸ .cons (.zero ((hrest ▸ h.2).of_cons hc))
  refine ⟨h.add hone, ?_⟩
  rw [← List.drop_drop, hrest]
  rfl

theorem append {s rest : List Char} (h : Whole (s ++ rest)) (hs : '\\' ∉ s) :
    Ends (s ++ rest) s.length := by
  induction s with
  | nil => exact .zero h
  | cons c s ih =>
    obtain ⟨hc, hs⟩ := List.ne_and_not_mem_of_not_mem_cons hs
    exact .cons (ih (h.of_cons hc.symm) hs)

/-- Characters of a class without the backslash. -/
theorem of_class {p : Char → Bool} (hp : p '\\' = false) (h : Whole cs) {s : List Char} (hs : s <+: cs)
    (hclass : ∀ c ∈ s, p c = true) : Ends cs s.length := by
  obtain ⟨rest, rfl⟩ := hs
  refine append h fun hmem => ?_
  rw [hclass _ hmem] at hp
  cases hp

end Ends

/-- The offsets that two readings reach after one number of characters, from `pos` and from `pos'`. -/
def SamePlace (cs : List Char) (pos pos' after after' : ℕ) : Prop :=
  ∃ count, Ends cs count ∧ after = pos + count ∧ after' = pos' + count

namespace SamePlace

variable {c : Char} {cs : List Char} {count pos pos' after after' : ℕ}

theorem of_ends (h : Ends cs count) : SamePlace cs pos pos' (pos + count) (pos' + count) := ⟨count, h, rfl, rfl⟩

theorem add (h : Ends cs count) (hafter : SamePlace (cs.drop count) (pos + count) (pos' + count) after after') :
    SamePlace cs pos pos' after after' := by
  obtain ⟨more, hmore, rfl, rfl⟩ := hafter
  exact ⟨count + more, h.add hmore, Nat.add_assoc .., Nat.add_assoc ..⟩

theorem cons (h : SamePlace cs (pos + 1) (pos' + 1) after after') :
    SamePlace (c :: cs) pos pos' after after' := by
  obtain ⟨count, hends, rfl, rfl⟩ := h
  exact ⟨count + 1, hends.cons, Nat.add_right_comm .., Nat.add_right_comm ..⟩

end SamePlace

/-! ## Tails -/

/-- What stands after a text between `^(?:` and `)$`; a backslash that ends the text escapes the
parenthesis. -/
inductive IsTail : List Char → Prop
  | closing : IsTail [')', '$']
  | escaped : IsTail ['\\', ')', '$']

theorem IsTail.exists_cons {tail : List Char} (h : IsTail tail) :
    ∃ d more, tail = d :: more ∧ d ∈ [')', '\\'] := by
  cases h with
  | closing => exact ⟨_, _, rfl, by simp⟩
  | escaped => exact ⟨_, _, rfl, by simp⟩

/-- A character that does not begin the tail. -/
theorem IsTail.head?_append_ne {tail : List Char} (ht : IsTail tail) {c : Char} (hc : c ∉ [')', '\\'])
    {cs : List Char} (h : cs.head? ≠ some c) : (cs ++ tail).head? ≠ some c := by
  cases cs with
  | nil =>
    obtain ⟨d, more, rfl, hd⟩ := ht.exists_cons
    rw [List.nil_append, List.head?_cons]
    rintro ⟨⟩
    exact hc hd
  | cons d cs => exact h

section
variable {tail : List Char} (ht : IsTail tail) {p : Char → Bool} (hp : ∀ d ∈ [')', '\\'], p d = false)
include ht hp

theorem takeWhile_tail (cs : List Char) : (cs ++ tail).takeWhile p = cs.takeWhile p := by
  obtain ⟨d, more, rfl, hd⟩ := ht.exists_cons
  induction cs with
  | nil => exact List.takeWhile_cons_of_neg (by simp [hp d hd])
  | cons c cs ih => simp only [List.cons_append, List.takeWhile_cons, ih]

theorem dropWhile_tail (cs : List Char) : (cs ++ tail).dropWhile p = cs.dropWhile p ++ tail := by
  obtain ⟨d, more, rfl, hd⟩ := ht.exists_cons
  induction cs with
  | nil => exact List.dropWhile_cons_of_neg (by simp [hp d hd])
  | cons c cs ih =>
    simp only [List.cons_append, List.dropWhile_cons, ih]
    split <;> rfl

theorem takeAtMost_tail (count : ℕ) (cs : List Char) :
    takeAtMost count p (cs ++ tail) = takeAtMost count p cs := by
  obtain ⟨d, more, rfl, hd⟩ := ht.exists_cons
  unfold takeAtMost
  induction cs generalizing count with
  | nil =>
    cases count with
    | zero => rfl
    | succ count => exact List.takeWhile_cons_of_neg (by simp [hp d hd])
  | cons c cs ih =>
    cases count with
    | zero => rfl
    | succ count => simp only [List.cons_append, List.take_succ_cons, List.takeWhile_cons, ih]

end

section
variable {p : Char → Bool} (hp : p '\\' = false) {cs : List Char} (h : Whole cs)
include hp h

theorem ends_takeAtMost (count : ℕ) : Ends cs (takeAtMost count p cs).length :=
  .of_class hp h ((List.takeWhile_prefix _).trans (List.take_prefix _ _)) fun _ => List.mem_takeWhile_imp

theorem ends_takeWhile :
    Ends cs (cs.takeWhile p).length ∧ cs.drop (cs.takeWhile p).length = cs.dropWhile p := by
  refine ⟨.of_class hp h (List.takeWhile_prefix _) fun _ => List.mem_takeWhile_imp, ?_⟩
  nth_rewrite 2 [← List.takeWhile_append_dropWhile (p := p) (l := cs)]
  exact List.drop_left

end

/-! ## Agreement -/

/-- Another reading ends with a related result where one ends with a result, and with the same limit. Where
that one has a problem, the other has one too, or its result has a property. -/
inductive Agrees {α β : Type} (R : α → β → Prop) (D : β → Prop) : Except Failure α → Except Failure β → Prop
  | ok {a : α} {b : β} (h : R a b) : Agrees R D (.ok a) (.ok b)
  | problem {what : Problem} {offset noticed : ℕ} {y : Except Failure β} (h : Meets D (fun _ => False) y) :
      Agrees R D (.error ⟨.problem what offset, noticed⟩) y
  | limit {lim : Limit} {noticed noticed' : ℕ} :
      Agrees R D (.error ⟨.limit lim, noticed⟩) (.error ⟨.limit lim, noticed'⟩)

namespace Agrees

variable {α β γ δ : Type} {R : α → β → Prop} {D : β → Prop} {S : γ → δ → Prop} {E : δ → Prop}

theorem fail {what what' : Problem} {offset noticed offset' noticed' : ℕ} :
    Agrees R D (fail what offset noticed) (fail what' offset' noticed') := .problem .fail

theorem bind {x : Except Failure α} {y : Except Failure β} {f : α → Except Failure γ}
    {g : β → Except Failure δ} (hxy : Agrees R D x y) (hfg : ∀ a b, R a b → Agrees S E (f a) (g b))
    (hD : ∀ b, D b → Meets E (fun _ => False) (g b)) : Agrees S E (x >>= f) (y >>= g) := by
  cases hxy with
  | ok h => exact hfg _ _ h
  | problem h => exact .problem (h.bind hD)
  | limit => exact .limit

theorem map {x : Except Failure α} {y : Except Failure β} {f : α → γ} {g : β → δ}
    (h : Agrees (fun a b => S (f a) (g b)) (fun b => E (g b)) x y) : Agrees S E (x.map f) (y.map g) := by
  cases h with
  | ok h => exact .ok h
  | problem h => exact .problem h.map
  | limit => exact .limit

/-- A check that refuses the same cases in both readings. -/
theorem guard {c c' : Prop} [Decidable c] [Decidable c'] (hc : c ↔ c') {what what' : Problem}
    {offset noticed offset' noticed' : ℕ} {ζ : Type} {f : ζ → Except Failure α} {g : ζ → Except Failure β}
    {x : Except Failure α} {y : Except Failure β} (h : ¬c → Agrees R D x y) :
    Agrees R D (if c then Pattern.fail what offset noticed >>= f else x)
      (if c' then Pattern.fail what' offset' noticed' >>= g else y) := by
  by_cases hx : c
  · rw [if_pos hx, if_pos (hc.mp hx)]
    exact fail
  · rw [if_neg hx, if_neg (mt hc.mpr hx)]
    exact h hx

theorem mono {R' : α → β → Prop} {D' : β → Prop} {x : Except Failure α} {y : Except Failure β}
    (h : Agrees R D x y) (hR : ∀ a b, R a b → R' a b) (hD : ∀ b, D b → D' b) : Agrees R' D' x y := by
  cases h with
  | ok h => exact .ok (hR _ _ h)
  | problem h => exact .problem (h.mono hD fun _ => id)
  | limit => exact .limit

/-- What holds of every result of the one reading. -/
theorem and_left {P : α → Prop} {Q : Limit → Prop} {x : Except Failure α} {y : Except Failure β}
    (h : Agrees R D x y) (hx : Meets P Q x) : Agrees (fun a b => R a b ∧ P a) D x y := by
  cases h with
  | ok h => exact .ok ⟨h, hx⟩
  | problem h => exact .problem h
  | limit => exact .limit

/-- What holds of every result of the other reading. -/
theorem meets {x : Except Failure α} {y : Except Failure β} (h : Agrees R (fun _ => False) x y) :
    Meets (fun b => ∃ a, R a b) (fun _ => True) y := by
  cases h with
  | ok h => exact .ok ⟨_, h⟩
  | problem h => exact h.mono (fun _ => False.elim) fun _ => False.elim
  | limit => exact trivial

theorem ok_left {a : α} {y : Except Failure β} (h : Agrees R D (.ok a) y) : ∃ b, y = .ok b ∧ R a b := by
  cases h with
  | ok h => exact ⟨_, rfl, h⟩

/-- The other reading ends with an error where the one does. -/
theorem error {e : Failure} {y : Except Failure β} (h : Agrees R (fun _ => False) (.error e) y) :
    ∃ e', y = .error e' ∧ Agrees S E (.error e) (.error e') := by
  cases h with
  | problem h =>
    match y, h with
    | .error ⟨.problem .., _⟩, _ => exact ⟨_, rfl, fail⟩
  | limit => exact ⟨_, rfl, .limit⟩

end Agrees

end VerseSearch.Pattern
