import VerseSearch.Proofs.Matching.Names
import VerseSearch.Proofs.Matching.Replacing
import VerseSearch.Proofs.Matching.Running
import VerseSearch.Proofs.Query.Rewriting

/-! # The rewriting of queries by patterns

Each step from a query to its pattern replaces the matches of a pattern of its own.

* `Substitution.source`, `Substitution.node`: the pattern of a substitution.
* `Substitution.apply_eq_replaceMatches`: what a substitution does to the matches of its pattern.
* `collapseBlanks_eq_replaceAll`, `insertTagSlots_eq_replaceAll`: white space.
* `normalizeSource_eq_replaceAll`: all steps.
-/

namespace VerseSearch.Query
set_option autoImplicit false

open Pattern (Node CharSet State farthest replaceAll)

/-! ## Substitutions -/

namespace Substitution

/-- The source of the pattern for a target. -/
def source (r : Substitution) : Text :=
  match r.notAfter with
  | some c => "(?<!".toList ++ c :: ')' :: r.target
  | none => r.target

/-- The pattern for a target. -/
def node (r : Substitution) : Node :=
  match r.notAfter with
  | some c => .cat (.look (some 1) true (.text [c])) (.text r.target)
  | none => .text r.target

theorem matchAt_node (r : Substitution) {t before rest : Text} (ht : t = before ++ rest) :
    (Pattern.mk r.node).matchAt t.toArray before.length false =
      if r.occursAt before.getLast? rest then some (before.length + r.target.length) else none := by
  have htext : ∀ k, (Node.text r.target).run t.toArray k ⟨before.length, [], []⟩ =
      if r.target <+: rest then
        k ((State.mk before.length [] []).moveTo (before.length + r.target.length)) else none :=
    Pattern.run_text ht rfl r.target
  have hprefix : r.target.isPrefixOf rest = true ↔ r.target <+: rest := List.isPrefixOf_iff_prefix
  rw [Pattern.matchAt, node, occursAt]
  cases r.notAfter with
  | none =>
    by_cases htarget : r.target <+: rest
    · simp [htext, htarget, State.moveTo]
    · simp [htext, htarget]
  | some c =>
    rw [Node.run, Pattern.run_notBehind ht rfl]
    by_cases hc : before.getLast? = some c
    · simp [hc]
    · by_cases htarget : r.target <+: rest
      · simp [htext, htarget, hc, State.moveTo]
      · simp [htext, htarget, hc]

theorem applyFrom_skip (r : Substitution) (u after : Text) (previous : Option Char) (inside : Bool) :
    r.applyFrom u.length previous inside (u ++ after) =
      r.applyFrom 0 (u.getLast?.or previous) (u.foldl insideAfter inside) after := by
  induction u generalizing previous inside with
  | nil => rfl
  | cons c u ih =>
    have hlast : (c :: u).getLast?.or previous = u.getLast?.or (some c) := by
      rw [List.getLast?_cons]
      cases u.getLast? <;> rfl
    rw [List.length_cons, List.cons_append, applyFrom, ih, List.foldl_cons, hlast]

end Substitution

theorem replaceMatches_eq_replaceAll (p : Pattern) (t inside outside : Text) :
    replaceMatches p t inside outside =
      p.replaceAll (fun before _ => if isInside before then inside else outside) t := by
  have hspans : ∀ spans start, replaceSpans t inside outside start spans =
      Pattern.replaceSpans (fun before _ => if isInside before then inside else outside) t start
        spans := by
    intro spans
    induction spans with
    | nil => exact fun _ => rfl
    | cons span spans ih =>
      intro start
      rw [replaceSpans, Pattern.replaceSpans, ih, List.append_assoc]
  exact hspans _ 0

/-- A substitution that has a target replaces the matches of its pattern. -/
theorem Substitution.apply_eq_replaceMatches {r : Substitution} (hne : r.target ≠ []) (t : Text) :
    r.apply t = replaceMatches ⟨r.node⟩ t r.inside r.outside := by
  rw [replaceMatches_eq_replaceAll]
  refine (Pattern.replaceAll_eq
    (f := fun before rest => r.applyFrom 0 before.getLast? (isInside before) rest) rfl
    (fun before c rest ht hnone => ?_) fun before rest j ht hsome => ?_).symm
  · rw [matchAt_node r ht] at hnone
    have hoccurs : r.occursAt before.getLast? (c :: rest) = false := by
      simpa using hnone
    rw [applyFrom_of_not_occursAt hoccurs, List.getLast?_concat, isInside, isInside,
      List.foldl_concat]
  · rw [matchAt_node r ht] at hsome
    obtain ⟨hoccurs, hj⟩ := Option.ite_none_right_eq_some.mp hsome
    obtain ⟨after, rfl⟩ := List.isPrefixOf_iff_prefix.mp (Bool.and_eq_true_iff.mp hoccurs).1
    refine ⟨r.target, after, rfl, hne, by rw [List.length_append, ← Option.some.inj hj], ?_⟩
    obtain ⟨c, u, htarget⟩ := List.exists_cons_of_ne_nil hne
    have hlast : (before ++ c :: u).getLast? = u.getLast?.or (some c) := by
      rw [List.getLast?_append, List.getLast?_cons]
      cases u.getLast? <;> rfl
    have hinside : isInside (before ++ c :: u) =
        u.foldl insideAfter (insideAfter (isInside before) c) := by
      rw [isInside, List.foldl_append, List.foldl_cons, isInside]
    rw [htarget, List.cons_append] at hoccurs
    rw [htarget, List.cons_append, applyFrom_of_occursAt hoccurs, htarget, List.length_cons,
      Nat.add_sub_cancel, applyFrom_skip, hlast, hinside, replacement]

/-- The substitutions of the rules are those of the patterns that are written for them. -/
theorem parse_source [Pattern.CharNames] : ∀ r ∈ shinSubstitutions ++
    [matresSubstitution, anyLetterSubstitution],
    r.target ≠ [] ∧ Pattern.parse r.source = .ok ⟨r.node⟩ := by
  have hfixed : ∀ r ∈ shinSubstitutions ++ [matresSubstitution, anyLetterSubstitution], r.target ≠ [] ∧
      Pattern.NamesNone r.source ∧ @Pattern.parse .empty r.source = .ok ⟨r.node⟩ := by decide +kernel
  intro r hr
  obtain ⟨hne, hnames, hparse⟩ := hfixed r hr
  exact ⟨hne, Pattern.parse_of_namesNone hnames hparse⟩

/-! ## White space -/

/-- The white space characters. -/
def blank : CharSet := { items := [.category .blank false] }

/-- A run of white space. -/
def blanks : Node := .cat (.loop .greedy 1 none (.one blank)) .empty

@[simp] theorem accepts_blank : blank.accepts = Text.isBlank := by
  funext c
  simp [CharSet.accepts, CharSet.itemAccepts, blank, Pattern.Category.accepts]

/-- The first round has to be made; the loop makes the others as far as it can. -/
theorem matchAt_blanks {t before rest : Text} (ht : t = before ++ rest) :
    (Pattern.mk blanks).matchAt t.toArray before.length false =
      if rest.head?.any Text.isBlank then some (before.length + (rest.takeWhile Text.isBlank).length)
      else none := by
  have hfuel : 1 + t.toArray.size + 3 = t.length + 3 + 1 := by
    rw [List.size_toArray]
    omega
  have hround : ∀ k, (Node.one blank).run t.toArray k ⟨before.length, [], []⟩ =
      if rest.head?.any Text.isBlank then k (State.mk before.length [] []).advance else none := by
    intro k
    rw [Node.run, ht, Pattern.getElem?_after, accepts_blank]
    cases rest <;> rfl
  rw [Pattern.matchAt, blanks, Node.run, Node.run]
  simp only [hfuel]
  rw [Pattern.greedyLoop, if_pos Nat.zero_lt_one, hround]
  by_cases hc : rest.head?.any Text.isBlank = true
  · rw [if_pos hc, if_pos hc]
    cases rest with
    | nil => cases hc
    | cons c rest =>
      have hblank : Text.isBlank c = true := hc
      have htext : t =
          before ++ [c] ++ (rest.takeWhile Text.isBlank ++ rest.dropWhile Text.isBlank) := by
        rw [ht, List.takeWhile_append_dropWhile, List.append_assoc, List.singleton_append]
      have hrow : ∀ d ∈ rest.takeWhile Text.isBlank, blank.accepts d = true := by
        rw [accepts_blank]
        exact fun d => List.mem_takeWhile_imp
      have hafter : ∀ d ∈ (rest.dropWhile Text.isBlank).head?, blank.accepts d = false := by
        rw [accepts_blank]
        exact fun d => Text.of_head?_dropWhile
      have hlength : (rest.takeWhile Text.isBlank).length < t.length + 3 := by
        have := (List.takeWhile_prefix Text.isBlank (l := rest)).length_le
        rw [ht, List.length_append, List.length_cons]
        omega
      refine (Pattern.greedyLoop_one (g := some) hrow hafter (fun s => rfl) htext hlength
        (Nat.le_refl 1) (by simp [State.advance]) (Option.some_ne_none _).symm).trans ?_
      rw [Pattern.farthest_some, List.length_append, List.length_singleton,
        List.takeWhile_cons_of_pos hblank, List.length_cons, Nat.add_assoc, Nat.add_comm 1]
  · rw [if_neg hc, if_neg hc]
    rfl

theorem collapseBlanksFrom_true (t : Text) :
    collapseBlanksFrom true t = collapseBlanks (t.dropWhile Text.isBlank) := by
  induction t with
  | nil => rfl
  | cons c t ih =>
    cases hc : Text.isBlank c with
    | true => simp [collapseBlanksFrom, hc, ih]
    | false => simp [collapseBlanks, collapseBlanksFrom, hc]

theorem collapseBlanks_eq_replaceAll (t : Text) :
    collapseBlanks t = replaceAll ⟨blanks⟩ (fun _ _ => [' ']) t := by
  refine (Pattern.replaceAll_eq (f := fun _ => collapseBlanks) rfl
    (fun before c rest ht hnone => ?_) fun before rest j ht hsome => ?_).symm
  · rw [matchAt_blanks ht] at hnone
    have hc : Text.isBlank c = false := Bool.eq_false_iff.mpr fun hc => by
      rw [if_pos (show (c :: rest).head?.any Text.isBlank = true from hc)] at hnone
      cases hnone
    simp [collapseBlanks, collapseBlanksFrom, hc]
  · rw [matchAt_blanks ht] at hsome
    obtain ⟨hhead, hj⟩ := Option.ite_none_right_eq_some.mp hsome
    cases rest with
    | nil => cases hhead
    | cons c rest =>
      have hc : Text.isBlank c = true := hhead
      refine ⟨(c :: rest).takeWhile Text.isBlank, (c :: rest).dropWhile Text.isBlank,
        List.takeWhile_append_dropWhile.symm, by simp [hc], ?_, ?_⟩
      · rw [← Option.some.inj hj, List.length_append]
      · rw [List.dropWhile_cons_of_pos hc, ← collapseBlanksFrom_true]
        simp [collapseBlanks, collapseBlanksFrom, hc]

/-! ## Tags -/

/-- The characters that do not end a tag. -/
def notTagEnd : CharSet := { items := [.code '>'.toNat], negated := true }

/-- A character that does not end a tag, in a group, and a space. -/
def wordEnd : Node :=
  .cat (.group 1 (.cat (.one notTagEnd) .empty)) (.text [' '])

@[simp] theorem accepts_notTagEnd (c : Char) : notTagEnd.accepts c = decide (c ≠ '>') := by
  have hcode := CharSet.accepts_single (c := '>') (d := c)
  rw [CharSet.accepts, CharSet.single, Bool.bne_false] at hcode
  rw [CharSet.accepts, notTagEnd, Bool.bne_true, Bool.not_eq_eq_eq_not, Bool.eq_iff_iff]
  exact hcode.trans (by simp)

theorem matchAt_wordEnd {t before rest : Text} (ht : t = before ++ rest) :
    (Pattern.mk wordEnd).matchAt t.toArray before.length false =
      if rest.head?.any (· ≠ '>') ∧ rest.tail.head? = some ' ' then some (before.length + 2)
      else none := by
  have hhere : t.toArray[before.length]? = rest.head? := by rw [ht, Pattern.getElem?_after]
  simp only [Pattern.matchAt, wordEnd, Node.run, State.enter, hhere]
  cases rest with
  | nil => simp
  | cons c rest =>
    have htext : t = before ++ [c] ++ rest := by rw [ht]; simp
    have hspace : ∀ k s, s.pos = before.length + 1 → (Node.text [' ']).run t.toArray k s =
        if rest.head? = some ' ' then k s.advance else none := fun k s hs =>
      Pattern.run_single htext (by simp [hs]) ' ' k
    simp only [List.head?_cons, accepts_notTagEnd]
    by_cases hc : c = '>'
    · simp [hc]
    · rw [if_pos (by simpa using hc), hspace _ _ (by simp [State.leave, State.advance])]
      by_cases hhead : rest.head? = some ' '
      · simp [hc, hhead, State.leave, State.advance]
      · simp [hhead]

theorem insertTagSlots_eq_replaceAll (t : Text) :
    insertTagSlots t = replaceAll ⟨wordEnd⟩ (fun _ u => u.take 1 ++ (tagSlot ++ [' '])) t := by
  refine (Pattern.replaceAll_eq (f := fun _ => insertTagSlots) rfl
    (fun before c rest ht hnone => ?_) fun before rest j ht hsome => ?_).symm
  · rw [matchAt_wordEnd ht] at hnone
    by_cases hspace : rest.head? = some ' '
    · obtain ⟨rest, rfl⟩ := List.head?_eq_some_iff.mp hspace
      have hc : c = '>' := by
        by_contra hc
        simp [hc] at hnone
      rw [insertTagSlots, if_pos hc]
    · exact insertTagSlots_cons hspace
  · rw [matchAt_wordEnd ht] at hsome
    obtain ⟨⟨hhead, hspace⟩, hj⟩ := Option.ite_none_right_eq_some.mp hsome
    cases rest with
    | nil => cases hhead
    | cons c rest =>
      obtain ⟨rest, rfl⟩ := List.head?_eq_some_iff.mp hspace
      have hc : c ≠ '>' := by simpa using hhead
      refine ⟨[c, ' '], rest, rfl, List.cons_ne_nil _ _, ?_, ?_⟩
      · rw [← Option.some.inj hj, List.length_append]
        rfl
      · rw [insertTagSlots, if_neg hc]
        simp

/-! ## Marks -/

/-- The marks and the joiner. -/
def nonLetterSet : CharSet := { items := Hebrew.nonLetters.map fun c => .code c.toNat }

theorem dropNonLetters_eq_replaceAll (t : Text) :
    dropNonLetters t = replaceAll ⟨.char nonLetterSet⟩ (fun _ _ => []) t := by
  have hset : Hebrew.isNonLetter = nonLetterSet.accepts := by
    funext c
    rw [Hebrew.isNonLetter, Bool.eq_iff_iff]
    exact List.contains_iff_mem.trans (CharSet.accepts_codes Hebrew.nonLetters c).symm
  rw [dropNonLetters, hset, Pattern.filter_eq_replaceAll]

/-! ## Whole queries -/

/-- The substitutions replace the matches of their patterns, and so do the steps for white space, marks
and tags that come between and after them. -/
theorem normalizeSource_eq_replaceAll [Pattern.CharNames] (query : Text) :
    (∀ r ∈ shinSubstitutions ++ [matresSubstitution, anyLetterSubstitution], ∃ p,
      Pattern.parse r.source = .ok p ∧ ∀ t, r.apply t = replaceMatches p t r.inside r.outside) ∧
    ∃ blanks marks wordEnds, Pattern.parse "\\s+".toList = .ok blanks ∧
      Pattern.parse ('[' :: Hebrew.nonLetters ++ [']']) = .ok marks ∧
      Pattern.parse "([^>]) ".toList = .ok wordEnds ∧
      normalizeSource query =
        wordEnds.replaceAll (fun _ u => u.take 1 ++ (tagSlot ++ [' '])) (substituteSigns
          (marks.replaceAll (fun _ _ => []) (blanks.replaceAll (fun _ _ => [' '])
            (substituteLetters query)))) := by
  refine ⟨fun r hr => ?_, ⟨blanks⟩, ⟨.char nonLetterSet⟩, ⟨wordEnd⟩,
    Pattern.parse_of_namesNone (by decide) (by decide +kernel),
    Pattern.parse_of_namesNone (by decide) (by decide +kernel),
    Pattern.parse_of_namesNone (by decide) (by decide +kernel), ?_⟩
  · obtain ⟨hne, hparse⟩ := parse_source r hr
    exact ⟨_, hparse, r.apply_eq_replaceMatches hne⟩
  · rw [normalizeSource, collapseBlanks_eq_replaceAll, dropNonLetters_eq_replaceAll,
      insertTagSlots_eq_replaceAll]

end VerseSearch.Query
