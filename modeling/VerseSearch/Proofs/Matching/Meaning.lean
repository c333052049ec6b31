import Mathlib.Data.Nat.Notation
import VerseSearch.Pattern.Find

/-! # What a pattern matches

The runner tries ways of matching in order and hands each to a continuation. Here the same is said
without order: which texts a node may take between a text before it and a text after it.

* `Rounds`: a number of rounds, one after the other.
* `Node.Matches`: the texts that a node takes in a context.
* `Node.IsPlain`: the nodes made of characters, anchors, groups, choices and greedy loops.
* `Node.run_sound`, `Node.run_complete`: the runner reaches its continuation only with a text that
  the node takes, and it succeeds if there is such a text with which the continuation succeeds.

The second needs that the bound on the rounds of a loop is never what ends it. A round that takes
nothing can be left out, and the others each take a character (`Rounds.split_nonempty`).
-/

namespace VerseSearch.Pattern
set_option autoImplicit false

/-! ## Meanings -/

/-- `n` rounds in a row. The context of each holds what the others take. -/
def Rounds (round : Text → Text → Text → Prop) : ℕ → Text → Text → Text → Prop
  | 0, _, u, _ => u = []
  | n + 1, before, u, after =>
    ∃ v w, u = v ++ w ∧ round before v (w ++ after) ∧ Rounds round n (before ++ v) w after

/-- The texts that a node takes between the texts `before` and `after`. -/
def Node.Matches : Node → Text → Text → Text → Prop
  | .empty, _, u, _ => u = []
  | .one set, _, u, _ => ∃ c, set.accepts c = true ∧ u = [c]
  | .anchor place, before, u, after =>
    u = [] ∧ place.holds (before ++ after).toArray before.length = true
  | .cat first second, before, u, after =>
    ∃ v w, u = v ++ w ∧ first.Matches before v (w ++ after) ∧ second.Matches (before ++ v) w after
  | .alt first second, before, u, after => first.Matches before u after ∨ second.Matches before u after
  | .group _ body, before, u, after => body.Matches before u after
  | .loop _ least most body, before, u, after =>
    ∃ n, least ≤ n ∧ (∀ m ∈ most, n ≤ m) ∧ Rounds body.Matches n before u after
  | .look .., _, _, _ => False
  | .atomic _, _, _, _ => False
  | .backref .., _, _, _ => False
  | .cond .., _, _, _ => False

/-- Nodes that decide by what they take alone: no lookaround, no reference to a group, and no loop
or group that gives nothing back. -/
def Node.IsPlain : Node → Prop
  | .empty => True
  | .one _ => True
  | .anchor _ => True
  | .cat first second => first.IsPlain ∧ second.IsPlain
  | .alt first second => first.IsPlain ∧ second.IsPlain
  | .group _ body => body.IsPlain
  | .loop appetite least most body => appetite = .greedy ∧ (∀ m ∈ most, least ≤ m) ∧ body.IsPlain
  | .look .. => False
  | .atomic _ => False
  | .backref .. => False
  | .cond .. => False

/-! ## Rounds -/

section Rounds
variable {round : Text → Text → Text → Prop}

/-- A round that takes at least one character. -/
def Nonempty (round : Text → Text → Text → Prop) (before u after : Text) : Prop :=
  round before u after ∧ u ≠ []

/-- Rounds that take nothing can be left out. -/
theorem Rounds.nonempty {n : ℕ} {before u after : Text} (h : Rounds round n before u after) :
    ∃ m ≤ n, Rounds (Nonempty round) m before u after := by
  induction n generalizing before u with
  | zero => exact ⟨0, Nat.le_refl 0, h⟩
  | succ n ih =>
    obtain ⟨v, w, rfl, hv, hw⟩ := h
    obtain ⟨m, hm, hrest⟩ := ih hw
    by_cases hnil : v = []
    · subst hnil
      exact ⟨m, by omega, by simpa using hrest⟩
    · exact ⟨m + 1, by omega, v, w, rfl, ⟨hv, hnil⟩, hrest⟩

theorem Rounds.le_length {n : ℕ} {before u after : Text}
    (h : Rounds (Nonempty round) n before u after) : n ≤ u.length := by
  induction n generalizing before u with
  | zero => exact Nat.zero_le _
  | succ n ih =>
    obtain ⟨v, w, rfl, hv, hw⟩ := h
    have hpos := List.length_pos_iff.mpr hv.2
    have := ih hw
    rw [List.length_append]
    omega

/-- The rounds a loop must make, and then as many nonempty ones as are needed. -/
theorem Rounds.split_nonempty {least n : ℕ} {before u after : Text} (hle : least ≤ n)
    (h : Rounds round n before u after) :
    ∃ v w m, u = v ++ w ∧ least + m ≤ n ∧ Rounds round least before v (w ++ after) ∧
      Rounds (Nonempty round) m (before ++ v) w after := by
  induction least generalizing n before u with
  | zero =>
    obtain ⟨m, hm, hrest⟩ := h.nonempty
    exact ⟨[], u, m, rfl, by omega, rfl, by simpa using hrest⟩
  | succ least ih =>
    cases n with
    | zero => omega
    | succ n =>
      obtain ⟨x, y, rfl, hx, hy⟩ := h
      obtain ⟨v, w, m, rfl, hm, hv, hw⟩ := ih (by omega) hy
      refine ⟨x ++ v, w, m, by rw [List.append_assoc], by omega, ?_, ?_⟩
      · exact ⟨x, v, rfl, by simpa [List.append_assoc] using hx, hv⟩
      · simpa [List.append_assoc] using hw

end Rounds

/-! ## Soundness -/

/-- The continuation gives `t` after a text that `takes` allows in front of what is left of `rest`. -/
def Reaches (takes : Text → Text → Prop) (before rest : Text) (k : Continuation) (t : State) : Prop :=
  ∃ u after s, rest = u ++ after ∧ takes u after ∧ s.pos = (before ++ u).length ∧ k s = some t

/-- The continuation is reached only after a text that a relation allows. -/
def Sound (round : Text → Text → Text → Prop) (run : Text → Continuation → Continuation) : Prop :=
  ∀ (before rest : Text) (k : Continuation) (s t : State), s.pos = before.length →
    run (before ++ rest) k s = some t → Reaches (round before) before rest k t

/-- The rounds that a loop of at least `least` and at most `most` rounds makes after `count` ones. -/
def RoundsAfter (round : Text → Text → Text → Prop) (least : ℕ) (most : Option ℕ) (count : ℕ)
    (before u after : Text) : Prop :=
  ∃ n, least ≤ count + n ∧ (∀ m ∈ most, count + n ≤ m) ∧ Rounds round n before u after

theorem greedyLoop_sound {round : Text → Text → Text → Prop}
    {run : Text → Continuation → Continuation} (hrun : Sound round run) (least : ℕ)
    (most : Option ℕ) (hmost : ∀ m ∈ most, least ≤ m) (k : Continuation) (fuel : ℕ) :
    ∀ (count : ℕ) (last : Option ℕ) (before rest : Text) (s t : State), s.pos = before.length →
      (∀ m ∈ most, count ≤ m) →
      greedyLoop (run (before ++ rest)) least most k fuel count last s = some t →
      Reaches (RoundsAfter round least most count before) before rest k t := by
  induction fuel with
  | zero => intro _ _ _ _ _ _ _ _ h; cases h
  | succ fuel ih =>
    intro count last before rest s t hs hcount h
    -- one more round, after which the loop goes on behind the text that the round has taken
    have more : ∀ last', (∀ m ∈ most, count + 1 ≤ m) →
        run (before ++ rest)
          (greedyLoop (run (before ++ rest)) least most k fuel (count + 1) last') s = some t →
        Reaches (RoundsAfter round least most count before) before rest k t := by
      intro last' hle hround
      obtain ⟨v, after', s', rfl, hv, hs', hloop⟩ := hrun before rest _ s t hs hround
      rw [← List.append_assoc] at hloop
      obtain ⟨w, after, s'', rfl, ⟨n, hleast, hn, hw⟩, hs'', hk⟩ :=
        ih (count + 1) last' (before ++ v) after' s' t hs' hle hloop
      refine ⟨v ++ w, after, s'', by rw [List.append_assoc], ?_,
        by rw [hs'', List.append_assoc], hk⟩
      refine ⟨n + 1, by omega, fun m hm => ?_, v, w, rfl, hv, hw⟩
      have := hn m hm
      omega
    have stop : least ≤ count → k s = some t →
        Reaches (RoundsAfter round least most count before) before rest k t :=
      fun hleast hk => ⟨[], rest, s, rfl, ⟨0, hleast, hcount, rfl⟩, by simpa using hs, hk⟩
    rw [greedyLoop] at h
    by_cases hmust : count < least
    · rw [if_pos hmust] at h
      exact more last (fun m hm => by have := hmost m hm; omega) h
    · rw [if_neg hmust] at h
      split at h
      · next hadmits =>
        split at h
        · next t' hround =>
          rw [h] at hround
          refine more (some s.pos) (fun m hm => ?_) hround
          obtain rfl := Option.mem_def.mp hm
          have hlt : count < m := by simpa [admitsRound] using (Bool.and_eq_true_iff.mp hadmits).1
          exact hlt
        · exact stop (by omega) h
      · exact stop (by omega) h

@[simp] theorem getElem?_after (before rest : Text) :
    (before ++ rest).toArray[before.length]? = rest.head? := by
  rw [List.getElem?_toArray, List.getElem?_append_right (Nat.le_refl _), Nat.sub_self,
    List.head?_eq_getElem?]

theorem Node.run_sound (n : Node) (hn : n.IsPlain) :
    Sound n.Matches fun text => n.run text.toArray := by
  induction n with
  | empty => exact fun before rest k s t hs h => ⟨[], rest, s, rfl, rfl, by simpa using hs, h⟩
  | one set =>
    intro before rest k s t hs h
    simp only [Node.run, hs, getElem?_after] at h
    cases rest with
    | nil => cases h
    | cons c after =>
      simp only [List.head?_cons] at h
      split at h
      · next hc =>
        exact ⟨[c], after, s.advance, rfl, ⟨c, hc, rfl⟩, by simp [State.advance, hs], h⟩
      · cases h
  | anchor place =>
    intro before rest k s t hs h
    simp only [Node.run, hs] at h
    split at h
    · next hplace => exact ⟨[], rest, s, rfl, ⟨rfl, hplace⟩, by simpa using hs, h⟩
    · cases h
  | cat first second ih₁ ih₂ =>
    intro before rest k s t hs h
    obtain ⟨v, after', s', rfl, hv, hs', hrest⟩ := ih₁ hn.1 before rest _ s t hs h
    rw [← List.append_assoc] at hrest
    obtain ⟨w, after, s'', rfl, hw, hs'', hk⟩ := ih₂ hn.2 (before ++ v) after' k s' t hs' hrest
    exact ⟨v ++ w, after, s'', by rw [List.append_assoc], ⟨v, w, rfl, hv, hw⟩,
      by rw [hs'', List.append_assoc], hk⟩
  | alt first second ih₁ ih₂ =>
    intro before rest k s t hs h
    simp only [Node.run] at h
    split at h
    · next t' hfirst =>
      rw [h] at hfirst
      obtain ⟨u, after, s', hu, hmatch, hs', hk⟩ := ih₁ hn.1 before rest k s t hs hfirst
      exact ⟨u, after, s', hu, .inl hmatch, hs', hk⟩
    · obtain ⟨u, after, s', hu, hmatch, hs', hk⟩ := ih₂ hn.2 before rest k s t hs h
      exact ⟨u, after, s', hu, .inr hmatch, hs', hk⟩
  | group index body ih =>
    intro before rest k s t hs h
    obtain ⟨u, after, s', hu, hmatch, hs', hk⟩ :=
      ih hn before rest (fun t => k (t.leave index)) (s.enter index) t hs h
    exact ⟨u, after, s'.leave index, hu, hmatch, hs', hk⟩
  | loop appetite least most body ih =>
    obtain ⟨rfl, hmost, hbody⟩ := hn
    intro before rest k s t hs h
    obtain ⟨u, after, s', hu, ⟨n, hleast, hle, hrounds⟩, hs', hk⟩ :=
      greedyLoop_sound (ih hbody) least most hmost k _ 0 none before rest s t hs
        (fun m _ => Nat.zero_le m) h
    refine ⟨u, after, s', hu, ⟨n, by omega, fun m hm => ?_, hrounds⟩, hs', hk⟩
    have := hle m hm
    omega
  | look behind negated body => exact hn.elim
  | atomic body => exact hn.elim
  | backref index ignoreCase ascii => exact hn.elim
  | cond index yes no => exact hn.elim

/-! ## Completeness -/

/-- If a relation allows a text and the continuation succeeds behind it, something is found. -/
def Complete (round : Text → Text → Text → Prop) (run : Text → Continuation → Continuation) : Prop :=
  ∀ (before u after : Text) (k : Continuation) (s : State), s.pos = before.length →
    round before u after → (∀ s', s'.pos = (before ++ u).length → (k s').isSome) →
    (run (before ++ (u ++ after)) k s).isSome

/-- The rounds beyond those that must be made: each begins elsewhere than the one before, so the
loop never stops for that reason. -/
theorem greedyLoop_optional {round : Text → Text → Text → Prop}
    {run : Text → Continuation → Continuation} (hrun : Complete round run) (least : ℕ)
    (most : Option ℕ) (k : Continuation) (n : ℕ) :
    ∀ (fuel count : ℕ) (last : Option ℕ) (before u after : Text) (s : State),
      s.pos = before.length → n < fuel → least ≤ count → (∀ m ∈ most, count + n ≤ m) →
      (n ≠ 0 → last ≠ some s.pos) → Rounds (Nonempty round) n before u after →
      (∀ s', s'.pos = (before ++ u).length → (k s').isSome) →
      (greedyLoop (run (before ++ (u ++ after))) least most k fuel count last s).isSome := by
  induction n with
  | zero =>
    intro fuel count last before u after s hs hfuel hleast _ _ hu hk
    obtain ⟨fuel, rfl⟩ := Nat.exists_eq_succ_of_ne_zero (by omega : fuel ≠ 0)
    obtain rfl : u = [] := hu
    have hstop := hk s (by simpa using hs)
    rw [greedyLoop, if_neg (by omega)]
    split
    · split
      · rfl
      · exact hstop
    · exact hstop
  | succ n ih =>
    intro fuel count last before u after s hs hfuel hleast hmost hlast hu hk
    obtain ⟨fuel, rfl⟩ := Nat.exists_eq_succ_of_ne_zero (by omega : fuel ≠ 0)
    obtain ⟨v, w, rfl, ⟨hv, hne⟩, hw⟩ := hu
    have hpos := List.length_pos_iff.mpr hne
    have hadmits : admitsRound most count = true := by
      cases most with
      | none => rfl
      | some m =>
        have := hmost m rfl
        simp only [admitsRound, decide_eq_true_eq]
        omega
    have hround : (run (before ++ (v ++ (w ++ after)))
        (greedyLoop (run (before ++ (v ++ (w ++ after)))) least most k fuel (count + 1)
          (some s.pos)) s).isSome := by
      refine hrun before v (w ++ after) _ s hs hv fun s' hs' => ?_
      have hloop := ih fuel (count + 1) (some s.pos) (before ++ v) w after s' hs' (by omega)
        (by omega) (fun m hm => by have := hmost m hm; omega)
        (fun _ heq => by
          rw [Option.some.injEq, hs, hs', List.length_append] at heq
          omega)
        hw (by simpa [List.append_assoc] using hk)
      rwa [List.append_assoc] at hloop
    rw [greedyLoop, if_neg (by omega), hadmits, List.append_assoc]
    simp only [Bool.true_and, decide_eq_true_eq]
    rw [if_pos (hlast (by omega))]
    split
    · rfl
    · next hnone =>
      rw [hnone] at hround
      cases hround

theorem greedyLoop_complete {round : Text → Text → Text → Prop}
    {run : Text → Continuation → Continuation} (hrun : Complete round run) (least : ℕ)
    (most : Option ℕ) (k : Continuation) (n more : ℕ) :
    ∀ (fuel count : ℕ) (before v w after : Text) (s : State), s.pos = before.length →
      n + more < fuel → least = count + n → (∀ m ∈ most, count + n + more ≤ m) →
      Rounds round n before v (w ++ after) → Rounds (Nonempty round) more (before ++ v) w after →
      (∀ s', s'.pos = (before ++ (v ++ w)).length → (k s').isSome) →
      (greedyLoop (run (before ++ (v ++ w ++ after))) least most k fuel count none s).isSome := by
  induction n with
  | zero =>
    intro fuel count before v w after s hs hfuel hleast hmost hv hw hk
    obtain rfl : v = [] := hv
    rw [List.append_nil] at hw
    exact greedyLoop_optional hrun least most k more fuel count none before w after s hs (by omega)
      (by omega) hmost (fun _ h => by cases h) hw hk
  | succ n ih =>
    intro fuel count before v w after s hs hfuel hleast hmost hv hw hk
    obtain ⟨fuel, rfl⟩ := Nat.exists_eq_succ_of_ne_zero (by omega : fuel ≠ 0)
    obtain ⟨x, y, rfl, hx, hy⟩ := hv
    rw [greedyLoop, if_pos (by omega)]
    have htext : before ++ (x ++ y ++ w ++ after) = before ++ (x ++ (y ++ (w ++ after))) := by
      simp only [List.append_assoc]
    rw [htext]
    refine hrun before x (y ++ (w ++ after)) _ s hs hx fun s' hs' => ?_
    have hloop := ih fuel (count + 1) (before ++ x) y w after s' hs' (by omega) (by omega)
      (fun m hm => by have := hmost m hm; omega) hy (by simpa [List.append_assoc] using hw)
      (by simpa [List.append_assoc] using hk)
    simpa only [List.append_assoc] using hloop

theorem Node.run_complete (n : Node) (hn : n.IsPlain) :
    Complete n.Matches fun text => n.run text.toArray := by
  induction n with
  | empty =>
    intro before u after k s hs hu hk
    obtain rfl : u = [] := hu
    exact hk s (by simpa using hs)
  | one set =>
    intro before u after k s hs hu hk
    obtain ⟨c, hc, rfl⟩ := hu
    simp only [Node.run, hs, getElem?_after, List.singleton_append, List.head?_cons, hc, if_true]
    exact hk s.advance (by simp [State.advance, hs])
  | anchor place =>
    intro before u after k s hs hu hk
    obtain ⟨rfl, hplace⟩ := hu
    simp only [Node.run, hs, List.nil_append, hplace, if_true]
    exact hk s (by simpa using hs)
  | cat first second ih₁ ih₂ =>
    intro before u after k s hs hu hk
    obtain ⟨v, w, rfl, hv, hw⟩ := hu
    simp only [Node.run, List.append_assoc]
    refine ih₁ hn.1 before v (w ++ after) _ s hs hv fun s' hs' => ?_
    have hsecond := ih₂ hn.2 (before ++ v) w after k s' hs' hw
      (by simpa [List.append_assoc] using hk)
    simpa only [List.append_assoc] using hsecond
  | alt first second ih₁ ih₂ =>
    intro before u after k s hs hu hk
    simp only [Node.run]
    split
    · rfl
    · next hnone =>
      cases hu with
      | inl hu =>
        have hfirst := ih₁ hn.1 before u after k s hs hu hk
        simp only [hnone] at hfirst
        cases hfirst
      | inr hu => exact ih₂ hn.2 before u after k s hs hu hk
  | group index body ih =>
    intro before u after k s hs hu hk
    exact ih hn before u after (fun t => k (t.leave index)) (s.enter index) hs hu
      fun s' hs' => hk (s'.leave index) hs'
  | loop appetite least most body ih =>
    obtain ⟨rfl, hmost, hbody⟩ := hn
    intro before u after k s hs hu hk
    obtain ⟨n, hleast, hle, hrounds⟩ := hu
    obtain ⟨v, w, more, rfl, hmore, hv, hw⟩ := hrounds.split_nonempty hleast
    have hlen := hw.le_length
    refine greedyLoop_complete (ih hbody) least most k least more _ 0 before v w after s hs ?_
      (by omega) (fun m hm => ?_) hv hw hk
    · simp only [List.size_toArray, List.length_append]
      omega
    · have := hle m hm
      omega
  | look behind negated body => exact hn.elim
  | atomic body => exact hn.elim
  | backref index ignoreCase ascii => exact hn.elim
  | cond index yes no => exact hn.elim

end VerseSearch.Pattern
