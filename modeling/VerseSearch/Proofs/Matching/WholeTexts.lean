import VerseSearch.Lexicon.Basic
import VerseSearch.Proofs.Matching.SourceText

/-! # Patterns for whole texts

* `fullMatches_iff`: a whole text is matched if the node takes it with nothing around it.
* `anchored`: a node between the two ends of a text.
* `parseAnchored_of_readsChoice`: a text that is read as languages is, between the two ends, a pattern
  for the texts of one of them.
-/

namespace VerseSearch.Pattern
set_option autoImplicit false

theorem fullMatches_iff {p : Pattern} (hp : p.node.IsPlain) (t : Text) :
    p.fullMatches t = true ↔ p.node.Matches [] t [] := by
  rw [fullMatches, Option.isSome_iff_exists]
  constructor
  · rintro ⟨s, hs⟩
    obtain ⟨u, after, s', hsplit, hu, hpos, hend⟩ := p.node.run_sound hp [] t _ _ s rfl hs
    -- the continuation admits the end of the text alone, so nothing comes after the text taken
    have hlength : (u ++ after).length = u.length := by
      dsimp only at hend
      split at hend
      · next hs' => rw [← hsplit, ← hs', hpos, List.nil_append]
      · cases hend
    obtain rfl : after = [] := by simpa using hlength
    rwa [hsplit, List.append_nil]
  · intro ht
    have hrun := p.node.run_complete hp [] t []
      (fun s => if s.pos = t.length then some s else none) { pos := 0 } rfl ht
      fun s hs => by simp [hs]
    rw [List.nil_append, List.append_nil] at hrun
    exact Option.isSome_iff_exists.mp hrun

/-! ## Between the two ends -/

/-- A node between the start and the end of a text. -/
def anchored (n : Node) : Node :=
  .cat (.anchor .textStart) (.cat n (.cat (.anchor .lastLineEnd) .empty))

theorem fullMatches_anchored {n : Node} {L : Language Char} (hn : n.Denotes L) (t : Text) :
    (Pattern.mk (anchored n)).fullMatches t = true ↔ t ∈ L := by
  have hstart : Anchor.textStart.holds t.toArray 0 = true := rfl
  have hend : Anchor.lastLineEnd.holds t.toArray t.length = true := by simp [Anchor.holds]
  have hplain : (anchored n).IsPlain := ⟨trivial, hn.1, trivial, trivial⟩
  rw [fullMatches_iff (p := ⟨anchored n⟩) hplain]
  constructor
  · rintro ⟨_, v, rfl, ⟨rfl, -⟩, w, x, rfl, hw, _, _, rfl, ⟨rfl, -⟩, rfl⟩
    simpa using (hn.2 _ _ _).mp hw
  · intro ht
    refine ⟨[], t, rfl, ⟨rfl, ?_⟩, t, [], (List.append_nil t).symm, (hn.2 _ _ _).mpr ht, [], [], rfl,
      ⟨rfl, ?_⟩, rfl⟩
    · simpa using hstart
    · simpa using hend

/-! ## Reading -/

namespace Reading.Calm
variable {r : Reading} (h : r.Calm) (pos : ℕ)
include h

/-- The signs of the two ends. -/
theorem step_anchor [CharNames] {c : Char} {anchor : Anchor}
    (hc : (c, anchor) ∈ [('^', .textStart), ('$', .lastLineEnd)]) (rest : List Char) :
    r.step pos c rest = .ok (r.push (.anchor anchor) .anchor, 0) := by
  simp only [List.mem_cons, Prod.mk.injEq, List.not_mem_nil, or_false] at hc
  unfold Reading.step
  obtain ⟨rfl, rfl⟩ | ⟨rfl, rfl⟩ := hc <;>
    simp only [h.modes, Bool.false_and, Bool.false_eq_true, if_false]

end Reading.Calm

/-- Between the two ends, a text that is read as languages is a pattern for the texts of one of them. -/
theorem parseAnchored_of_readsChoice [CharNames] {source : Text} {Ls : List (Language Char)}
    (h : ReadsChoice source Ls) (hne : Ls ≠ []) :
    ∃ n : Node, n.Denotes Ls.sum ∧ parseAnchored source = .ok ⟨anchored n⟩ := by
  have hstart := Reading.run_of_step
    (Reading.calm_start.step_anchor 0 (.head _) ('(' :: '?' :: ':' :: (source ++ [')']) ++ ['$']))
  have hadds := Reading.adds_push Reading.calm_start (.anchor .textStart) .anchor
  obtain ⟨r, n, hrun, hgroup, hn⟩ := h.plain hne _ 1 ['$'] hadds.calm
  have hend := Reading.run_of_step (hgroup.calm.step_anchor (1 + (source.length + 4)) (.tail _ (.head _)) [])
  have hadds' := Reading.adds_push hgroup.calm (.anchor .lastLineEnd) .anchor
  have htext : "^(?:".toList ++ source ++ ")$".toList =
      '^' :: ('(' :: '?' :: ':' :: (source ++ [')']) ++ ['$']) := by simp
  refine ⟨n, hn, ?_⟩
  rw [parseAnchored, htext]
  refine parse_of_adds ?_ ((hadds.trans hgroup).trans hadds') ?_
  · simp only [List.drop_zero, List.length_cons, List.length_append, List.length_nil, Nat.zero_add] at *
    rw [hstart, hrun, hend]
    congr 1
    omega
  · simp [List.getLast?_cons]

end VerseSearch.Pattern
