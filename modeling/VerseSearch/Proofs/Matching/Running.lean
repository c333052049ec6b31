import VerseSearch.Proofs.Matching.Denotation

/-! # Runs of simple nodes

What the runner does at a place, for the nodes of which a pattern for a fixed text or for a row of
characters is made.

* `run_single`, `run_text`: one character, and a text.
* `run_notBehind`: the character before the place.
* `farthest`: the last place of a row at which a continuation succeeds.
* `greedyLoop_one`: a loop over characters of a set goes on from the farthest place.
-/

namespace VerseSearch.Pattern
set_option autoImplicit false

/-! ## Texts -/

@[simp] theorem CharSet.accepts_single {c d : Char} : (single c).accepts d = true ↔ d = c :=
  (accepts_codes [c] d).trans List.mem_singleton

/-- The nodes for the characters of a text. -/
def Node.text (u : Text) : Node := seq (u.map fun c => .one (.single c))

section
variable {text before after : Text} (htext : text = before ++ after) {s : State}
  (hs : s.pos = before.length)
include htext hs

theorem run_single (c : Char) (k : Continuation) : (Node.one (.single c)).run text.toArray k s =
    if after.head? = some c then k s.advance else none := by
  rw [Node.run, htext, hs, getElem?_after]
  cases after with
  | nil => rfl
  | cons d after => simp

theorem run_text (u : Text) (k : Continuation) : (Node.text u).run text.toArray k s =
    if u <+: after then k (s.moveTo (before.length + u.length)) else none := by
  induction u generalizing before after s with
  | nil =>
    rw [if_pos (List.nil_prefix ..), ← hs]
    rfl
  | cons c u ih =>
    change (Node.one (.single c)).run text.toArray ((Node.text u).run text.toArray k) s = _
    rw [run_single htext hs]
    cases after with
    | nil => simp
    | cons d after =>
      by_cases hd : d = c
      · subst hd
        have htext' : text = before ++ [d] ++ after := by rw [htext]; simp
        have hs' : s.advance.pos = (before ++ [d]).length := by simp [State.advance, hs]
        rw [if_pos List.head?_cons, ih htext' hs']
        simp only [List.cons_prefix_cons, true_and, List.length_append, List.length_cons,
          List.length_nil, Nat.add_assoc, Nat.add_comm 1 u.length]
        rfl
      · rw [if_neg (by simpa using hd), if_neg fun h => hd (List.cons_prefix_cons.mp h).1.symm]

/-- A condition on the character before the place. -/
theorem run_notBehind (c : Char) (k : Continuation) :
    (Node.look (some 1) true (.text [c])).run text.toArray k s =
      if before.getLast? = some c then none else k s := by
  cases before using List.reverseRecOn with
  | nil => simp [Node.run, hs]
  | append_singleton before d =>
    have htext' : text = before ++ d :: after := by rw [htext]; simp
    have hs' : (s.moveTo (s.pos - 1)).pos = before.length := by simp [State.moveTo, hs]
    have hpos : ¬s.pos < 1 := by simp [hs]
    simp only [Node.run, hpos, if_false]
    rw [run_text htext' hs']
    by_cases hd : d = c
    · simp [hd]
    · simp [hd, Ne.symm hd]

end

/-! ## Loops -/

/-- What a function gives at the last of the places from `i` to `i + n` at which it gives something. -/
def farthest (g : ℕ → Option ℕ) (i : ℕ) : ℕ → Option ℕ
  | 0 => g i
  | n + 1 => (farthest g (i + 1) n).or (g i)

@[simp] theorem farthest_some (i n : ℕ) : farthest some i n = some (i + n) := by
  induction n generalizing i with
  | zero => rfl
  | succ n ih => rw [farthest, ih, Option.some_or, Nat.add_assoc, Nat.add_comm 1]

/-- A loop that is not at the place at which its last round began. -/
theorem greedyLoop_succ {round : Continuation → Continuation} {k : Continuation} (fuel : ℕ)
    {least count : ℕ} (hleast : least ≤ count) {last : Option ℕ} {s : State}
    (hlast : last ≠ some s.pos) : greedyLoop round least none k (fuel + 1) count last s =
      (round (greedyLoop round least none k fuel (count + 1) (some s.pos)) s).or (k s) := by
  rw [greedyLoop, if_neg (Nat.not_lt.mpr hleast), if_pos (by simpa [admitsRound] using hlast)]
  cases round (greedyLoop round least none k fuel (count + 1) (some s.pos)) s <;> rfl

/-- All characters of the row are taken first, and given back one by one. -/
theorem greedyLoop_one {set : CharSet} {row after : Text} (hrow : ∀ c ∈ row, set.accepts c = true)
    (hafter : ∀ c ∈ after.head?, set.accepts c = false) {k : Continuation} {g : ℕ → Option ℕ}
    (hk : ∀ s, (k s).map (·.pos) = g s.pos) {text before : Text}
    (htext : text = before ++ (row ++ after)) {fuel : ℕ} (hfuel : row.length < fuel)
    {least count : ℕ} (hleast : least ≤ count) {last : Option ℕ} {s : State}
    (hs : s.pos = before.length) (hlast : last ≠ some s.pos) :
    (greedyLoop ((Node.one set).run text.toArray) least none k fuel count last s).map (·.pos) =
      farthest g before.length row.length := by
  induction row generalizing before fuel count last s with
  | nil =>
    obtain ⟨fuel, rfl⟩ := Nat.exists_eq_succ_of_ne_zero (Nat.ne_of_gt hfuel)
    have hhere : text[s.pos]? = after.head? := by
      rw [htext, hs, List.getElem?_append_right (Nat.le_refl _), Nat.sub_self, List.nil_append,
        List.head?_eq_getElem?]
    have hround : ∀ k, (Node.one set).run text.toArray k s = none := by
      intro k
      rw [Node.run, List.getElem?_toArray, hhere]
      cases hhead : after.head? with
      | none => rfl
      | some c => simp [hafter c hhead]
    rw [greedyLoop_succ fuel hleast hlast, hround, Option.none_or, hk, hs]
    rfl
  | cons c row ih =>
    obtain ⟨fuel, rfl⟩ := Nat.exists_eq_succ_of_ne_zero (Nat.ne_of_gt (Nat.zero_lt_of_lt hfuel))
    obtain ⟨hc, hrow⟩ := List.forall_mem_cons.mp hrow
    have hhere : text[s.pos]? = some c := by
      rw [htext, hs, List.getElem?_append_right (Nat.le_refl _), Nat.sub_self]
      rfl
    have hround : ∀ k, (Node.one set).run text.toArray k s = k s.advance := by
      intro k
      rw [Node.run, List.getElem?_toArray, hhere]
      simp only [hc, if_true]
    have htext' : text = before ++ [c] ++ (row ++ after) := by rw [htext]; simp
    have hs' : s.advance.pos = (before ++ [c]).length := by simp [State.advance, hs]
    have hlast' : some s.pos ≠ some s.advance.pos := by simp [State.advance]
    have hrest := ih hrow htext' (Nat.lt_of_succ_lt_succ hfuel) (Nat.le_succ_of_le hleast) hs' hlast'
    rw [List.length_append, List.length_singleton] at hrest
    rw [greedyLoop_succ fuel hleast hlast, hround, Option.map_or, hrest, hk, hs]
    rfl

end VerseSearch.Pattern
