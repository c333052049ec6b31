import VerseSearch.Proofs.Hebrew.DottedLetters

/-! # The patterns of the canonical form

The canonical form replaces the matches of four patterns, one after the other. The last of them is for
the end of a verse: rounds of a sof-pasuq and section marks at the end of a text or before a line feed
that ends it.

* `mem_rounds_iff`: the texts of such rounds begin with a sof-pasuq and hold verse-end characters only.
* `matchesAt_verseEnd`: a match begins at the first sof-pasuq or later and ends where they end.
* `cutVerseEnd_eq_replaceAll`: the text without its match.
* `canonical_eq_replaceAll`: the canonical form by the four patterns.
-/

namespace VerseSearch.Hebrew
set_option autoImplicit false

open Computability
open Pattern (Node CharSet replaceAll oneOf)

/-! ## Letters -/

/-- The pattern for all characters that are no letters. -/
def notLetters : CharSet := { items := letters.map fun c => .code c.toNat, negated := true }

theorem keepLetters_eq_replaceAll [Pattern.CharNames] (t : Text) :
    Pattern.parse ('[' :: '^' :: letters ++ [']']) = .ok ⟨Node.char notLetters⟩ ∧
      keepLetters t = replaceAll ⟨Node.char notLetters⟩ (fun _ _ => []) t := by
  have hset : isLetter = fun c => !notLetters.accepts c := by
    funext c
    have hcodes := CharSet.accepts_codes letters c
    rw [CharSet.accepts, Bool.bne_false] at hcodes
    rw [isLetter, CharSet.accepts, notLetters, Bool.bne_true, Bool.not_not, Bool.eq_iff_iff]
    exact List.contains_iff_mem.trans hcodes.symm
  exact ⟨Pattern.parse_of_namesNone (by decide) (by decide +kernel),
    by rw [keepLetters, hset, Pattern.filter_eq_replaceAll]⟩

/-! ## The end of a verse -/

/-- The characters that may come after a sof-pasuq in the end of a verse. -/
def sectionMarks : Text := [openSection, closedSection, nunHafukha]

/-- A sof-pasuq and section marks. -/
def verseEndRound : Node :=
  .cat (.one (.single sofPasuq))
    (.cat (.loop .greedy 0 none (.one { items := sectionMarks.map fun c => .code c.toNat })) .empty)

/-- Rounds of them before the end of a text or a line feed that ends it. -/
def verseEnd : Node := .cat (.loop .greedy 1 none verseEndRound) (.cat (.anchor .lastLineEnd) .empty)

/-- The source of the pattern for the end of a verse. -/
def verseEndSource : Text := "(?:\u05c3[\u05e4\u05e1\u05c6]*)+$".toList

theorem parse_verseEnd [Pattern.CharNames] : Pattern.parse verseEndSource = .ok ⟨verseEnd⟩ :=
  Pattern.parse_of_namesNone (by decide) (by decide +kernel)

theorem isVerseEnd_iff {c : Char} : isVerseEnd c = true ↔ c = sofPasuq ∨ c ∈ sectionMarks := by
  simp [isVerseEnd, sectionMarks, or_assoc]

/-- The texts of one round. -/
def roundLanguage : Language Char := {[sofPasuq]} * (oneOf sectionMarks)∗

theorem mem_roundLanguage {u : Text} :
    u ∈ roundLanguage ↔ ∃ marks, (∀ c ∈ marks, c ∈ sectionMarks) ∧ u = sofPasuq :: marks := by
  rw [roundLanguage, Pattern.mem_singleton_mul]
  simp only [oneOf, Pattern.mem_star_oneWith, List.singleton_append]

theorem denotes_verseEndRound : verseEndRound.Denotes roundLanguage := by
  have hdot := Node.Denotes.one (.single sofPasuq)
  have hmarks := (Node.Denotes.one { items := sectionMarks.map fun c => .code c.toNat }).star
  rw [CharSet.language_single] at hdot
  rw [CharSet.language_codes] at hmarks
  have h := hdot.cat (hmarks.cat .empty)
  rwa [mul_one] at h

/-- Each verse-end character begins a round or goes on with the one before. -/
theorem exists_rounds {u : Text} (hu : ∀ c ∈ u, isVerseEnd c = true) :
    ∃ (marks : Text) (rounds : List Text), u = marks ++ rounds.flatten ∧
      (∀ c ∈ marks, c ∈ sectionMarks) ∧ ∀ r ∈ rounds, r ∈ roundLanguage := by
  induction u with
  | nil => exact ⟨[], [], rfl, nofun, nofun⟩
  | cons c u ih =>
    obtain ⟨hc, hu⟩ := List.forall_mem_cons.mp hu
    obtain ⟨marks, rounds, rfl, hmarks, hrounds⟩ := ih hu
    obtain rfl | hc := isVerseEnd_iff.mp hc
    · have hround : sofPasuq :: marks ∈ roundLanguage := mem_roundLanguage.mpr ⟨marks, hmarks, rfl⟩
      exact ⟨[], (sofPasuq :: marks) :: rounds, rfl, nofun,
        List.forall_mem_cons.mpr ⟨hround, hrounds⟩⟩
    · exact ⟨c :: marks, rounds, rfl, List.forall_mem_cons.mpr ⟨hc, hmarks⟩, hrounds⟩

theorem isVerseEnd_of_mem_round {r : Text} (hr : r ∈ roundLanguage) :
    ∀ c ∈ r, isVerseEnd c = true := by
  obtain ⟨marks, hmarks, rfl⟩ := mem_roundLanguage.mp hr
  exact List.forall_mem_cons.mpr ⟨rfl, fun c hc => isVerseEnd_iff.mpr (.inr (hmarks c hc))⟩

theorem mem_rounds_iff {u : Text} : u ∈ roundLanguage * roundLanguage∗ ↔
    u.head? = some sofPasuq ∧ ∀ c ∈ u, isVerseEnd c = true := by
  simp only [Language.mem_mul, Language.mem_kstar]
  constructor
  · rintro ⟨r, hr, _, ⟨rounds, rfl, hrounds⟩, rfl⟩
    refine ⟨?_, fun c hc => ?_⟩
    · obtain ⟨marks, -, rfl⟩ := mem_roundLanguage.mp hr
      rfl
    · obtain hc | hc := List.mem_append.mp hc
      · exact isVerseEnd_of_mem_round hr c hc
      · obtain ⟨r, hmem, hc⟩ := List.mem_flatten.mp hc
        exact isVerseEnd_of_mem_round (hrounds r hmem) c hc
  · rintro ⟨hhead, hu⟩
    obtain ⟨u, rfl⟩ := List.head?_eq_some_iff.mp hhead
    obtain ⟨marks, rounds, rfl, hmarks, hrounds⟩ := exists_rounds (List.forall_mem_cons.mp hu).2
    have hround : sofPasuq :: marks ∈ roundLanguage := mem_roundLanguage.mpr ⟨marks, hmarks, rfl⟩
    exact ⟨sofPasuq :: marks, hround, _, ⟨rounds, rfl, hrounds⟩, rfl⟩

theorem isPlain_verseEnd : verseEnd.IsPlain := ⟨denotes_verseEndRound.plus.1, trivial, trivial⟩

theorem holds_lastLineEnd_iff (before after : Text) :
    Pattern.Anchor.lastLineEnd.holds (before ++ after).toArray before.length = true ↔
      after = [] ∨ after = ['\n'] := by
  rw [Pattern.Anchor.holds, Pattern.getElem?_after, List.size_toArray, List.length_append]
  cases after with
  | nil => simp
  | cons c after =>
    cases after with
    | nil => simp
    | cons d after => simp

theorem matches_verseEnd_iff {before u after : Text} : verseEnd.Matches before u after ↔
    (u.head? = some sofPasuq ∧ ∀ c ∈ u, isVerseEnd c = true) ∧ (after = [] ∨ after = ['\n']) := by
  have hrounds := denotes_verseEndRound.plus.2
  constructor
  · rintro ⟨v, w, rfl, hv, _, _, rfl, ⟨rfl, hplace⟩, rfl⟩
    rw [List.nil_append, holds_lastLineEnd_iff] at hplace
    exact ⟨by simpa using mem_rounds_iff.mp ((hrounds _ _ _).mp hv), hplace⟩
  · rintro ⟨hu, hafter⟩
    refine ⟨u, [], (List.append_nil u).symm, (hrounds _ _ _).mpr (mem_rounds_iff.mpr hu), [], [], rfl,
      ⟨rfl, ?_⟩, rfl⟩
    rw [List.nil_append, holds_lastLineEnd_iff]
    exact hafter

theorem progressive_verseEnd : (Pattern.mk verseEnd).Progressive := by
  rintro before u after h rfl
  exact absurd (matches_verseEnd_iff.mp h).1.1 (by simp)

/-- A word that ends a text and does not hold the last character before a place begins there or later. -/
theorem exists_after_getLast? {a b before u : Text} (h : a ++ b = before ++ u)
    (ha : ∀ c ∈ a.getLast?, c ∉ u) : ∃ m, before = a ++ m ∧ b = m ++ u := by
  obtain hsplit | ⟨m, rfl, rfl⟩ := List.append_eq_append_iff.mp h
  · exact hsplit
  cases m using List.reverseRecOn with
  | nil => exact ⟨[], by simp, rfl⟩
  | append_singleton m c => exact absurd (by simp) (ha c (by simp [← List.append_assoc]))

/-- A word whose first character does not occur before a place begins there or later. -/
theorem exists_after_of_not_mem {x y before u : Text} {c : Char} (h : x ++ y = before ++ c :: u)
    (hx : c ∉ x) : ∃ m, before = x ++ m ∧ y = m ++ c :: u := by
  obtain hsplit | ⟨z, rfl, hz⟩ := List.append_eq_append_iff.mp h
  · exact hsplit
  cases z with
  | nil => exact ⟨[], by simp, hz.symm⟩
  | cons d z =>
    obtain rfl := (List.cons.inj hz).1
    exact absurd (by simp) hx

section
variable {a x y final : Text} (ha : ∀ c ∈ a.getLast?, isVerseEnd c = false) (hx : sofPasuq ∉ x)
  (hfinal : final = ['\n'] ∨ final = [] ∧ (a ++ (x ++ y)).getLast? ≠ some '\n')
include ha hx hfinal

/-- The match begins in the verse-end characters, not before the first sof-pasuq there, and ends with
them. -/
theorem matchesAt_verseEnd {i j : ℕ}
    (h : (Pattern.mk verseEnd).MatchesAt (a ++ (x ++ y) ++ final) i j) :
    (a ++ x).length ≤ i ∧ j = (a ++ (x ++ y)).length ∧ y ≠ [] := by
  obtain ⟨before, u, after, heq, rfl, rfl, hu⟩ := h
  obtain ⟨⟨hhead, hends⟩, hafter⟩ := matches_verseEnd_iff.mp hu
  obtain ⟨u, rfl⟩ := List.head?_eq_some_iff.mp hhead
  have hbreak : (before ++ sofPasuq :: u).getLast? ≠ some '\n' := by
    intro hlast
    rw [List.getLast?_append_of_ne_nil _ (List.cons_ne_nil _ _)] at hlast
    exact absurd (hends '\n' (List.mem_of_getLast? hlast)) (by decide)
  have hbody : a ++ (x ++ y) = before ++ sofPasuq :: u := by
    rw [← List.append_assoc before] at heq
    obtain rfl | ⟨rfl, hlast⟩ := hfinal
    · obtain rfl | rfl := hafter
      · rw [List.append_nil] at heq
        exact absurd (heq ▸ List.getLast?_concat) hbreak
      · exact List.append_cancel_right heq
    · rw [List.append_nil] at heq
      obtain rfl | rfl := hafter
      · rw [heq, List.append_nil]
      · exact absurd (heq ▸ List.getLast?_concat) hlast
  obtain ⟨m, rfl, hrest⟩ := exists_after_getLast? hbody fun c hc hmem =>
    absurd (hends c hmem) (by simp [ha c hc])
  obtain ⟨m, rfl, rfl⟩ := exists_after_of_not_mem hrest hx
  refine ⟨?_, ?_, by simp⟩
  · simp only [List.length_append]
    omega
  · simp only [List.length_append]
    omega

variable (hy : ∀ c ∈ y.head?, c = sofPasuq) (hends : ∀ c ∈ x ++ y, isVerseEnd c = true)
include hy hends

theorem findAll_verseEnd : (Pattern.mk verseEnd).findAll (a ++ (x ++ y) ++ final) =
    if y = [] then [] else [((a ++ x).length, (a ++ (x ++ y)).length)] := by
  have hat := fun {i j} => matchesAt_verseEnd ha hx hfinal (i := i) (j := j)
  refine Pattern.Scan.unique (fun i j k hj hk => (hat hj).2.1.trans (hat hk).2.1.symm)
    (Pattern.scan_findAll isPlain_verseEnd progressive_verseEnd _) ?_
  split
  · next hnil => exact .done fun i j _ h => (hat h).2.2 hnil
  · next hne =>
    obtain ⟨c, y, rfl⟩ := List.exists_cons_of_ne_nil hne
    obtain rfl := hy c rfl
    have hmatch : (Pattern.mk verseEnd).MatchesAt (a ++ (x ++ sofPasuq :: y) ++ final) (a ++ x).length
        (a ++ (x ++ sofPasuq :: y)).length :=
      ⟨a ++ x, sofPasuq :: y, final, by simp, rfl, by simp,
        matches_verseEnd_iff.mpr ⟨⟨rfl, fun d hd => hends d (List.mem_append_right _ hd)⟩,
          hfinal.symm.imp And.left id⟩⟩
    refine .found (Nat.zero_le _) hmatch (fun i j _ hlt h => ?_) (.done fun i j hi h => ?_)
    · exact absurd (hat h).1 (Nat.not_le.mpr hlt)
    · exact absurd (h.lt progressive_verseEnd) (Nat.not_lt.mpr ((hat h).2.1 ▸ hi))

theorem replaceAll_verseEnd :
    replaceAll ⟨verseEnd⟩ (fun _ _ => []) (a ++ (x ++ y) ++ final) = a ++ x ++ final := by
  rw [replaceAll, findAll_verseEnd ha hx hfinal hy hends]
  split
  · next hnil => simp [Pattern.replaceSpans, hnil]
  · have hwhole : a ++ (x ++ y) ++ final = (a ++ x) ++ (y ++ final) := by simp
    rw [Pattern.replaceSpans, Pattern.replaceSpans, List.drop_left, List.nil_append, hwhole,
      Pattern.slice, List.drop_zero, Nat.sub_zero, List.take_left]

end

theorem cutVerseEnd_eq_replaceAll (t : Text) :
    cutVerseEnd t = replaceAll ⟨verseEnd⟩ (fun _ _ => []) t := by
  have hbody : ∀ body final, (final = ['\n'] ∨ final = [] ∧ body.getLast? ≠ some '\n') →
      cutVerseEnd (body ++ final) = replaceAll ⟨verseEnd⟩ (fun _ _ => []) (body ++ final) := by
    intro body final hfinal
    obtain ⟨a, b, rfl, ha, hb⟩ := exists_verseEnd body
    have hcut : cutVerseEnd (a ++ b ++ final) = a ++ b.takeWhile (· ≠ sofPasuq) ++ final := by
      obtain rfl | ⟨rfl, hlast⟩ := hfinal
      · exact cutVerseEnd_append_break ha hb
      · rw [List.append_nil, List.append_nil, cutVerseEnd_append ha hb hlast]
    have hsplit : b.takeWhile (· ≠ sofPasuq) ++ b.dropWhile (· ≠ sofPasuq) = b :=
      List.takeWhile_append_dropWhile
    have hx : sofPasuq ∉ b.takeWhile (· ≠ sofPasuq) := fun hmem => by
      simpa using List.mem_takeWhile_imp hmem
    have hy : ∀ c ∈ (b.dropWhile (· ≠ sofPasuq)).head?, c = sofPasuq := fun c hc => by
      simpa using Text.of_head?_dropWhile hc
    have hreplaced := replaceAll_verseEnd ha hx (hsplit.symm ▸ hfinal) hy (hsplit.symm ▸ hb)
    rw [hsplit] at hreplaced
    rw [hcut, hreplaced]
  obtain hlast | hlast := Decidable.em (t.getLast? = some '\n')
  · obtain ⟨line, rfl⟩ := List.getLast?_eq_some_iff.mp hlast
    exact hbody line ['\n'] (.inl rfl)
  · have h := hbody t [] (.inr ⟨rfl, hlast⟩)
    rwa [List.append_nil] at h

/-! ## The canonical form -/

/-- The passes put into a text what their patterns say, one after the other. -/
theorem canonical_eq_replaceAll [Pattern.CharNames] (t : Text) :
    ∃ shinPattern sinPattern maqafPattern endPattern,
    Pattern.parse (dottedShin shinDot) = .ok shinPattern ∧
    Pattern.parse (dottedShin sinDot) = .ok sinPattern ∧
    Pattern.parse [maqaf] = .ok maqafPattern ∧ Pattern.parse verseEndSource = .ok endPattern ∧
    compose t = sinPattern.replaceAll (fun _ u => sin :: u.tail.dropLast)
      (shinPattern.replaceAll (fun _ u => shin :: u.tail.dropLast) t) ∧
    canonical t =
      endPattern.replaceAll (fun _ _ => []) (maqafPattern.replaceAll (fun _ _ => []) (compose t)) := by
  refine ⟨_, _, ⟨.text [maqaf]⟩, _, parse_dottedShin (.inl rfl), parse_dottedShin (.inr rfl),
    Pattern.parse_of_namesNone (by decide) (by decide +kernel), parse_verseEnd, ?_, ?_⟩
  · rw [compose, composeSin_eq_replaceAll, composeShin_eq_replaceAll]
  · have hmaqaf : (fun c => decide (c ≠ maqaf)) = fun c => !(CharSet.single maqaf).accepts c := by
      funext c
      rw [Bool.eq_iff_iff]
      simp [← Bool.not_eq_true]
    rw [canonical, cutVerseEnd_eq_replaceAll, hmaqaf, Pattern.filter_eq_replaceAll]
    rfl

end VerseSearch.Hebrew
