import VerseSearch.Proofs.Matching.Meaning

/-! # Which matches are found

* `Pattern.MatchesAt`: the spans of a text that a pattern matches.
* `Pattern.Progressive`: the patterns that match no empty text.
* `findFrom_some`, `findFrom_none`: the match found is leftmost, and none is missed.
* `occursIn_iff`: whether a pattern matches somewhere.
* `mem_findAll`, `findAll_pairwise`, `findAll_covers`: all that is found matches, each match begins
  where the one before ends or later, and wherever a match begins one of those found lies.
-/

namespace VerseSearch.Pattern
set_option autoImplicit false

/-! ## Spans that match -/

/-- The pattern matches the text from `i` to `j`. -/
def MatchesAt (p : Pattern) (s : Text) (i j : ℕ) : Prop :=
  ∃ before u after, s = before ++ (u ++ after) ∧ i = before.length ∧ j = (before ++ u).length ∧
    p.node.Matches before u after

/-- The pattern matches no empty text. -/
def Progressive (p : Pattern) : Prop := ∀ before u after, p.node.Matches before u after → u ≠ []

theorem MatchesAt.le_length {p : Pattern} {s : Text} {i j : ℕ} (h : p.MatchesAt s i j) :
    i ≤ j ∧ j ≤ s.length := by
  obtain ⟨before, u, after, rfl, rfl, rfl, -⟩ := h
  simp only [List.length_append]
  omega

theorem MatchesAt.lt {p : Pattern} (hp : p.Progressive) {s : Text} {i j : ℕ}
    (h : p.MatchesAt s i j) : i < j := by
  obtain ⟨before, u, after, rfl, rfl, rfl, hu⟩ := h
  have := List.length_pos_iff.mpr (hp before u after hu)
  rw [List.length_append]
  omega

/-! ## One match -/

theorem matchAt_sound {p : Pattern} (hp : p.node.IsPlain) {s : Text} {i j : ℕ}
    (hi : i ≤ s.length) (h : p.matchAt s.toArray i false = some j) : p.MatchesAt s i j := by
  rw [matchAt, Option.map_eq_some_iff] at h
  obtain ⟨t, ht, rfl⟩ := h
  rw [← List.take_append_drop i s] at ht
  have hlen : (s.take i).length = i := List.length_take_of_le hi
  obtain ⟨u, after, s', hu, hmatch, hs', hk⟩ := p.node.run_sound hp _ _ _ _ _ hlen.symm ht
  simp only [Bool.false_and, Bool.false_eq_true, if_false, Option.some.injEq] at hk
  refine ⟨s.take i, u, after, ?_, hlen.symm, ?_, hmatch⟩
  · rw [← hu, List.take_append_drop]
  · rw [← hk, hs']

theorem matchAt_complete {p : Pattern} (hp : p.node.IsPlain) {s : Text} {i j : ℕ}
    (h : p.MatchesAt s i j) : (p.matchAt s.toArray i false).isSome := by
  obtain ⟨before, u, after, rfl, rfl, rfl, hu⟩ := h
  rw [matchAt, Option.isSome_map]
  exact p.node.run_complete hp before u after _ _ rfl hu fun _ _ => rfl

/-! ## The first match from a place on -/

section
variable {p : Pattern} {text : Array Char} {start a b : ℕ}

theorem findWithin_eq_some {more : ℕ} (h : p.findWithin text start false more = some (a, b)) :
    start ≤ a ∧ a ≤ start + more ∧ p.matchAt text a false = some b ∧
      ∀ i, start ≤ i → i < a → p.matchAt text i false = none := by
  induction more generalizing start with
  | zero =>
    rw [findWithin, Option.map_eq_some_iff] at h
    obtain ⟨stop, hstop, heq⟩ := h
    obtain ⟨rfl, rfl⟩ := Prod.mk.inj heq
    exact ⟨Nat.le_refl _, Nat.le_refl _, hstop, fun i h₁ h₂ => by omega⟩
  | succ more ih =>
    rw [findWithin] at h
    cases hm : p.matchAt text start false with
    | some stop =>
      rw [hm] at h
      obtain ⟨rfl, rfl⟩ := Prod.mk.inj (Option.some.inj h)
      exact ⟨Nat.le_refl _, by omega, hm, fun i h₁ h₂ => by omega⟩
    | none =>
      rw [hm] at h
      obtain ⟨hle, hmost, hmatch, hleft⟩ := ih h
      refine ⟨by omega, by omega, hmatch, fun i h₁ h₂ => ?_⟩
      obtain rfl | hlt := Nat.eq_or_lt_of_le h₁
      · exact hm
      · exact hleft i hlt h₂

theorem findWithin_eq_none {more : ℕ} (h : p.findWithin text start false more = none) :
    ∀ i, start ≤ i → i ≤ start + more → p.matchAt text i false = none := by
  induction more generalizing start with
  | zero =>
    intro i h₁ h₂
    obtain rfl : i = start := by omega
    rwa [findWithin, Option.map_eq_none_iff] at h
  | succ more ih =>
    intro i h₁ h₂
    rw [findWithin] at h
    cases hm : p.matchAt text start false with
    | some stop => rw [hm] at h; cases h
    | none =>
      rw [hm] at h
      obtain rfl | hlt := Nat.eq_or_lt_of_le h₁
      · exact hm
      · exact ih h i hlt (by omega)

end

section
variable {p : Pattern} {s : Text} {start a b : ℕ}

theorem findFrom_eq_some (h : p.findFrom s.toArray start false = some (a, b)) :
    start ≤ a ∧ a ≤ s.length ∧ p.matchAt s.toArray a false = some b ∧
      ∀ i, start ≤ i → i < a → p.matchAt s.toArray i false = none := by
  rw [findFrom, List.size_toArray] at h
  split at h
  · obtain ⟨hle, hmost, hmatch⟩ := findWithin_eq_some h
    exact ⟨hle, by omega, hmatch⟩
  · cases h

theorem findFrom_eq_none (h : p.findFrom s.toArray start false = none) :
    ∀ i, start ≤ i → i ≤ s.length → p.matchAt s.toArray i false = none := by
  intro i hi hlen
  rw [findFrom, List.size_toArray, if_pos (by omega)] at h
  exact findWithin_eq_none h i hi (by omega)

theorem not_matchesAt (hp : p.node.IsPlain) {i : ℕ} (h : p.matchAt s.toArray i false = none) (j : ℕ) :
    ¬ p.MatchesAt s i j := fun hij => by
  have := matchAt_complete hp hij
  rw [h] at this
  cases this

theorem findFrom_some (hp : p.node.IsPlain) (h : p.findFrom s.toArray start false = some (a, b)) :
    start ≤ a ∧ p.MatchesAt s a b ∧ ∀ i j, start ≤ i → i < a → ¬ p.MatchesAt s i j := by
  obtain ⟨hle, hmost, hmatch, hleft⟩ := findFrom_eq_some h
  exact ⟨hle, matchAt_sound hp hmost hmatch, fun i j h₁ h₂ => not_matchesAt hp (hleft i h₁ h₂) j⟩

theorem findFrom_none (hp : p.node.IsPlain) (h : p.findFrom s.toArray start false = none) :
    ∀ i j, start ≤ i → ¬ p.MatchesAt s i j := fun i j hi hij =>
  have hlen := hij.le_length
  not_matchesAt hp (findFrom_eq_none h i hi (by omega)) j hij

theorem occursIn_iff (hp : p.node.IsPlain) : p.occursIn s = true ↔ ∃ i j, p.MatchesAt s i j := by
  unfold occursIn
  cases h : p.findFrom s.toArray 0 false with
  | none =>
    refine iff_of_false (by simp) ?_
    rintro ⟨i, j, hij⟩
    exact findFrom_none hp h i j (Nat.zero_le i) hij
  | some span => exact iff_of_true rfl ⟨_, _, (findFrom_some hp h).2.1⟩

end

/-! ## All matches -/

section
variable {p : Pattern} (hp : p.node.IsPlain) (hprog : p.Progressive) {s : Text}
include hp hprog

/-- What is found from a place on matches and comes in order. -/
theorem findAllFrom_spec (fuel start : ℕ) :
    (∀ x ∈ p.findAllFrom s.toArray fuel start false, start ≤ x.1 ∧ p.MatchesAt s x.1 x.2) ∧
      (p.findAllFrom s.toArray fuel start false).Pairwise fun x y => x.2 ≤ y.1 := by
  induction fuel generalizing start with
  | zero => exact ⟨by simp [findAllFrom], .nil⟩
  | succ fuel ih =>
    rw [findAllFrom]
    cases hf : p.findFrom s.toArray start false with
    | none => exact ⟨by simp, .nil⟩
    | some found =>
      obtain ⟨a, b⟩ := found
      obtain ⟨hle, hmatch, -⟩ := findFrom_some hp hf
      have hlt := hmatch.lt hprog
      simp only [decide_eq_false (Nat.ne_of_lt hlt)]
      obtain ⟨hmem, hpair⟩ := ih b
      refine ⟨List.forall_mem_cons.mpr ⟨⟨hle, hmatch⟩, fun x hx => ?_⟩,
        List.pairwise_cons.mpr ⟨fun x hx => (hmem x hx).1, hpair⟩⟩
      have := hmem x hx
      exact ⟨by omega, this.2⟩

/-- Every match that begins at or after a place begins inside one that is found. -/
theorem findAllFrom_covers (fuel start : ℕ) {i j : ℕ} (hfuel : s.length < fuel + start)
    (hi : start ≤ i) (hij : p.MatchesAt s i j) :
    ∃ x ∈ p.findAllFrom s.toArray fuel start false, x.1 ≤ i ∧ i < x.2 := by
  induction fuel generalizing start with
  | zero =>
    have := hij.le_length
    omega
  | succ fuel ih =>
    rw [findAllFrom]
    cases hf : p.findFrom s.toArray start false with
    | none => exact absurd hij (findFrom_none hp hf i j hi)
    | some found =>
      obtain ⟨a, b⟩ := found
      obtain ⟨hle, hmatch, hleft⟩ := findFrom_some hp hf
      have hlt := hmatch.lt hprog
      have hai : a ≤ i := Nat.not_lt.mp fun h => hleft i j hi h hij
      simp only [decide_eq_false (Nat.ne_of_lt hlt)]
      by_cases hib : i < b
      · exact ⟨(a, b), List.mem_cons_self .., hai, hib⟩
      · obtain ⟨x, hx, hcover⟩ := ih b (by omega) (by omega)
        exact ⟨x, List.mem_cons_of_mem _ hx, hcover⟩

theorem mem_findAll {x : ℕ × ℕ} (hx : x ∈ p.findAll s) : p.MatchesAt s x.1 x.2 :=
  ((findAllFrom_spec hp hprog _ 0).1 x hx).2

theorem findAll_pairwise : (p.findAll s).Pairwise fun x y => x.2 ≤ y.1 :=
  (findAllFrom_spec hp hprog _ 0).2

theorem findAll_covers {i j : ℕ} (h : p.MatchesAt s i j) : ∃ x ∈ p.findAll s, x.1 ≤ i ∧ i < x.2 :=
  findAllFrom_covers hp hprog _ 0 (by omega) (Nat.zero_le i) h

/-- Of two matches that are found one ends before the other begins. -/
theorem findAll_apart {x y : ℕ × ℕ} (hx : x ∈ p.findAll s) (hy : y ∈ p.findAll s) :
    x = y ∨ x.2 ≤ y.1 ∨ y.2 ≤ x.1 := by
  have hpairs := List.pairwise_iff_getElem.mp (findAll_pairwise hp hprog (s := s))
  obtain ⟨i, hi, rfl⟩ := List.getElem_of_mem hx
  obtain ⟨j, hj, rfl⟩ := List.getElem_of_mem hy
  obtain hij | rfl | hji := Nat.lt_trichotomy i j
  · exact .inr (.inl (hpairs i j hi hj hij))
  · exact .inl rfl
  · exact .inr (.inr (hpairs j i hj hi hji))

end

end VerseSearch.Pattern
