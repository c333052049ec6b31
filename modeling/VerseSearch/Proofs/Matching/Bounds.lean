import Mathlib.Data.Nat.Notation
import VerseSearch.Pattern.Find

/-! # Matches stay inside the text

This holds for all patterns: whatever is looked at, a match goes on from where it is or from a later
place.

* `Advances`: runs that go on from no place before their own and none behind the text.
* `Node.run_advances`: every node runs so, its loops included.
* `findFrom_bounds`: the first match from a place on begins there or later, and ends in the text.
* `findAllFrom_bounds`: all matches do so, and each begins where the one before ends or later.
-/

namespace VerseSearch.Pattern
set_option autoImplicit false

/-! ## Runs that go on -/

/-- The continuation gives `t` at a place between that of `s` and the end of a text of `size`
characters. -/
def GoesOn (size : ℕ) (k : Continuation) (s t : State) : Prop :=
  ∃ s', s.pos ≤ s'.pos ∧ s'.pos ≤ size ∧ k s' = some t

theorem GoesOn.here {size : ℕ} {k : Continuation} {s t : State} (hs : s.pos ≤ size)
    (h : k s = some t) : GoesOn size k s t := ⟨s, Nat.le_refl _, hs, h⟩

/-- A run that gives only what its continuation gives at such a place. -/
def Advances (size : ℕ) (run : Continuation → Continuation) : Prop :=
  ∀ (k : Continuation) (s t : State), s.pos ≤ size → run k s = some t → GoesOn size k s t

namespace Advances

variable {size : ℕ} {run run' : Continuation → Continuation}

theorem comp (h : Advances size run) (h' : Advances size run') :
    Advances size fun k => run (run' k) := by
  intro k s t hs ht
  obtain ⟨s₁, hle₁, hs₁, ht⟩ := h _ s t hs ht
  obtain ⟨s₂, hle₂, hs₂, ht⟩ := h' k s₁ t hs₁ ht
  exact ⟨s₂, Nat.le_trans hle₁ hle₂, hs₂, ht⟩

theorem pos_le (h : Advances size run) {s t : State} (hs : s.pos ≤ size)
    (ht : run some s = some t) : s.pos ≤ t.pos ∧ t.pos ≤ size := by
  obtain ⟨s', hle, hsize, heq⟩ := h some s t hs ht
  obtain rfl := Option.some.inj heq
  exact ⟨hle, hsize⟩

end Advances

section Loops
variable {size : ℕ} {round : Continuation → Continuation} (hround : Advances size round)
  (least : ℕ) (most : Option ℕ)
include hround

theorem greedyLoop_advances (fuel count : ℕ) (last : Option ℕ) :
    Advances size fun k => greedyLoop round least most k fuel count last := by
  induction fuel generalizing count last with
  | zero => intro k s t _ h; cases h
  | succ fuel ih =>
    intro k s t hs h
    simp only [greedyLoop] at h
    split at h
    · exact hround.comp (ih (count + 1) last) k s t hs h
    · split at h
      · split at h
        · next hmore => exact hround.comp (ih (count + 1) (some s.pos)) k s t hs (hmore.trans h)
        · exact .here hs h
      · exact .here hs h

theorem lazyLoop_advances (fuel count : ℕ) (last : Option ℕ) :
    Advances size fun k => lazyLoop round least most k fuel count last := by
  induction fuel generalizing count last with
  | zero => intro k s t _ h; cases h
  | succ fuel ih =>
    intro k s t hs h
    simp only [lazyLoop] at h
    split at h
    · exact hround.comp (ih (count + 1) last) k s t hs h
    · split at h
      · next hstop => exact .here hs (hstop.trans h)
      · split at h
        · exact hround.comp (ih (count + 1) (some s.pos)) k s t hs h
        · cases h

end Loops

theorem possessiveLoop_advances {size : ℕ} {once : Continuation}
    (honce : ∀ s t, s.pos ≤ size → once s = some t → s.pos ≤ t.pos ∧ t.pos ≤ size) (least : ℕ)
    (most : Option ℕ) (fuel count : ℕ) (last : Option ℕ) {s t : State} (hs : s.pos ≤ size)
    (h : possessiveLoop once least most fuel count last s = some t) :
    s.pos ≤ t.pos ∧ t.pos ≤ size := by
  induction fuel generalizing count last s with
  | zero => cases h
  | succ fuel ih =>
    have more : ∀ last' s', once s = some s' →
        possessiveLoop once least most fuel (count + 1) last' s' = some t →
        s.pos ≤ t.pos ∧ t.pos ≤ size := by
      intro last' s' hs' h
      obtain ⟨hle, hsize⟩ := honce s s' hs hs'
      obtain ⟨hle', hsize'⟩ := ih (count + 1) last' hsize h
      exact ⟨Nat.le_trans hle hle', hsize'⟩
    have stop : some s = some t → s.pos ≤ t.pos ∧ t.pos ≤ size := by
      rintro ⟨⟩
      exact ⟨Nat.le_refl _, hs⟩
    rw [possessiveLoop] at h
    split at h
    · split at h
      · next s' hs' => exact more last s' hs' h
      · cases h
    · split at h
      · split at h
        · next s' hs' => exact more (some s.pos) s' hs' h
        · exact stop h
      · exact stop h

/-! ## Nodes -/

theorem repeatsAt_le {text : Array Char} {ignoreCase ascii : Bool} {a b count : ℕ}
    (hb : b ≤ text.size) (h : repeatsAt text ignoreCase ascii a b count = true) :
    b + count ≤ text.size := by
  induction count generalizing a b with
  | zero => exact hb
  | succ count ih =>
    rw [repeatsAt] at h
    split at h
    · next hd =>
      obtain ⟨hlt, -⟩ := Array.getElem?_eq_some_iff.mp hd
      have hrest := ih hlt (Bool.and_eq_true_iff.mp h).2
      omega
    · cases h

/-- No node goes back and none leaves the text, whatever else it looks at. -/
theorem Node.run_advances (text : Array Char) (n : Node) : Advances text.size (n.run text) := by
  induction n with
  | empty => exact fun k s t hs h => .here hs h
  | one set =>
    intro k s t hs h
    simp only [Node.run] at h
    split at h
    · next hc =>
      obtain ⟨hlt, -⟩ := Array.getElem?_eq_some_iff.mp hc
      split at h
      · exact ⟨s.advance, Nat.le_succ _, hlt, h⟩
      · cases h
    · cases h
  | anchor place =>
    intro k s t hs h
    simp only [Node.run] at h
    split at h
    · exact .here hs h
    · cases h
  | cat first second ih₁ ih₂ => exact ih₁.comp ih₂
  | alt first second ih₁ ih₂ =>
    intro k s t hs h
    simp only [Node.run] at h
    split at h
    · next hfirst => exact ih₁ k s t hs (hfirst.trans h)
    · exact ih₂ k s t hs h
  | group index body ih =>
    intro k s t hs h
    obtain ⟨s', hle, hs', h⟩ := ih _ (s.enter index) t hs h
    exact ⟨s'.leave index, hle, hs', h⟩
  | loop appetite least most body ih =>
    intro k s t hs h
    cases appetite with
    | greedy => exact greedyLoop_advances ih least most _ 0 none k s t hs h
    | lazy => exact lazyLoop_advances ih least most _ 0 none k s t hs h
    | possessive =>
      simp only [Node.run] at h
      split at h
      · next s' hs' =>
        obtain ⟨hle, hsize⟩ :=
          possessiveLoop_advances (fun _ _ => ih.pos_le) least most _ 0 none hs hs'
        exact ⟨s', hle, hsize, h⟩
      · cases h
  | look behind negated body =>
    -- the match goes on from the place of the state, wherever the body has been
    intro k s t hs h
    simp only [Node.run] at h
    split at h
    · next s' _ => exact ⟨s'.moveTo s.pos, Nat.le_refl _, hs, h⟩
    · exact .here hs h
    · cases h
  | atomic body ih =>
    intro k s t hs h
    simp only [Node.run] at h
    split at h
    · next s' hs' =>
      obtain ⟨hle, hsize⟩ := ih.pos_le hs hs'
      exact ⟨s', hle, hsize, h⟩
    · cases h
  | backref index ignoreCase ascii =>
    intro k s t hs h
    simp only [Node.run] at h
    split at h
    · split at h
      · next hrepeats =>
        exact ⟨_, Nat.le_add_right _ _, repeatsAt_le hs hrepeats, h⟩
      · cases h
    · cases h
  | cond index yes no ih₁ ih₂ =>
    intro k s t hs h
    simp only [Node.run] at h
    split at h
    · exact ih₁ k s t hs h
    · exact ih₂ k s t hs h

/-! ## Matches -/

section
variable {p : Pattern} {text : Array Char} {start : ℕ} {nonempty : Bool}

theorem matchAt_bounds {stop : ℕ} (hstart : start ≤ text.size)
    (h : p.matchAt text start nonempty = some stop) : start ≤ stop ∧ stop ≤ text.size := by
  rw [matchAt, Option.map_eq_some_iff] at h
  obtain ⟨t, ht, rfl⟩ := h
  obtain ⟨s, hle, hsize, hk⟩ := p.node.run_advances text _ _ t hstart ht
  simp only at hk
  split at hk
  · cases hk
  · obtain rfl := Option.some.inj hk
    exact ⟨hle, hsize⟩

theorem findWithin_bounds {more a b : ℕ} (hmore : start + more ≤ text.size)
    (h : p.findWithin text start nonempty more = some (a, b)) :
    start ≤ a ∧ a ≤ b ∧ b ≤ text.size := by
  induction more generalizing start nonempty with
  | zero =>
    rw [findWithin, Option.map_eq_some_iff] at h
    obtain ⟨stop, hstop, heq⟩ := h
    obtain ⟨rfl, rfl⟩ := Prod.mk.inj heq
    exact ⟨Nat.le_refl _, matchAt_bounds hmore hstop⟩
  | succ more ih =>
    rw [findWithin] at h
    split at h
    · next hstop =>
      obtain ⟨rfl, rfl⟩ := Prod.mk.inj (Option.some.inj h)
      exact ⟨Nat.le_refl _, matchAt_bounds (by omega) hstop⟩
    · obtain ⟨hle, hbounds⟩ := ih (by omega) h
      exact ⟨by omega, hbounds⟩

theorem findFrom_bounds {a b : ℕ} (h : p.findFrom text start nonempty = some (a, b)) :
    start ≤ a ∧ a ≤ b ∧ b ≤ text.size := by
  rw [findFrom] at h
  split at h
  · next hle => exact findWithin_bounds (by omega) h
  · cases h

end

theorem findAllFrom_bounds (p : Pattern) (text : Array Char) (fuel start : ℕ) (nonempty : Bool) :
    (∀ x ∈ p.findAllFrom text fuel start nonempty, start ≤ x.1 ∧ x.1 ≤ x.2 ∧ x.2 ≤ text.size) ∧
      (p.findAllFrom text fuel start nonempty).Pairwise fun x y => x.2 ≤ y.1 := by
  induction fuel generalizing start nonempty with
  | zero => exact ⟨nofun, .nil⟩
  | succ fuel ih =>
    rw [findAllFrom]
    split
    · next a b hfind =>
      obtain ⟨hle, hbounds⟩ := findFrom_bounds hfind
      obtain ⟨hmem, hpairs⟩ := ih b (a = b)
      refine ⟨List.forall_mem_cons.mpr ⟨⟨hle, hbounds⟩, fun x hx => ?_⟩,
        List.pairwise_cons.mpr ⟨fun x hx => (hmem x hx).1, hpairs⟩⟩
      obtain ⟨hx₁, hx₂⟩ := hmem x hx
      exact ⟨by omega, hx₂⟩
    · exact ⟨nofun, .nil⟩

theorem findAll_bounds (p : Pattern) (s : Text) :
    (∀ x ∈ p.findAll s, x.1 ≤ x.2 ∧ x.2 ≤ s.length) ∧
      (p.findAll s).Pairwise fun x y => x.2 ≤ y.1 := by
  obtain ⟨hmem, hpairs⟩ := findAllFrom_bounds p s.toArray (2 * s.length + 2) 0 false
  rw [List.size_toArray] at hmem
  exact ⟨fun x hx => (hmem x hx).2, hpairs⟩

end VerseSearch.Pattern
