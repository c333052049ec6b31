import VerseSearch.Proofs.Matching.SourceText
import VerseSearch.Proofs.Matching.Tails

/-! # Steps that open and close no group

Such a step adds a piece or changes the last one. It reads no character of the tail of a text, and a run of
such steps comes to the closing parenthesis of the tail with the groups that were open before.

* `Reading.Alike`: states that read references alike.
* `Reading.Alike.stepEscape_agrees`: escapes add one piece to such states.
* `appetiteOf_tail`: the tail is no part of a repetition.
* `Reading.Stays`, `Reading.step_stays`: a step at a character that is no parenthesis.
* `Reading.run_unopened`: a text without opening parentheses leaves the parenthesis of the tail no group.
-/

namespace VerseSearch.Pattern
set_option autoImplicit false

/-! ## References and escapes -/

/-- States that read references to groups, and sets, in one way. -/
structure Reading.Alike (r r' : Reading) : Prop where
  modes : r'.modes = r.modes
  groupCount : r'.groupCount = r.groupCount
  widths : r'.widths = r.widths
  limit : r'.limit = r.limit

/-- Steps in two states that add one piece and read as many characters of `rest`. -/
def Pushes (r r' : Reading) (rest : List Char) (x y : Reading × ℕ) : Prop :=
  ∃ node kind count, x = (r.push node kind, count) ∧ y = (r'.push node kind, count) ∧ Ends rest count

namespace Reading.Alike

theorem refl (r : Reading) : r.Alike r := ⟨rfl, rfl, rfl, rfl⟩

variable {r r' : Reading} (h : r.Alike r') {rest : List Char} {count : ℕ} {D : Reading × ℕ → Prop}
include h

theorem pushes_set (hends : Ends rest count) (negated : Bool) (items : List SetItem) :
    Pushes r r' rest (r.pushSet negated items, count) (r'.pushSet negated items, count) := by
  refine ⟨r.setNode negated items, .other, count, rfl, ?_, hends⟩
  rw [Reading.pushSet, Reading.setNode, Reading.setNode, h.modes]

theorem isClosed_eq (index : ℕ) : r'.isClosed index = r.isClosed index := by
  rw [Reading.isClosed, Reading.isClosed, h.widths]

theorem checkLimit_agrees (index after after' : ℕ) :
    Agrees (fun _ _ => True) (fun _ => False) (r.checkLimit index after) (r'.checkLimit index after') := by
  unfold Reading.checkLimit
  rw [h.limit, h.isClosed_eq]
  split
  · exact .ok trivial
  · split
    · exact .fail
    · split
      · exact .fail
      · exact .ok trivial

theorem backref_agrees (hends : Ends rest count) (index pos pos' after after' : ℕ) :
    Agrees (Pushes r r' rest) D ((r.backref index pos after).map (·, count))
      ((r'.backref index pos' after').map (·, count)) := by
  unfold Reading.backref
  rw [h.groupCount, h.isClosed_eq]
  split
  · split
    · exact .fail
    · refine .map (.map ((h.checkLimit_agrees index after after').mono ?_ fun _ => False.elim))
      intro _ _ _
      refine ⟨.backref index r.modes.ignoreCase r.modes.ascii, .other, count, rfl, ?_, hends⟩
      rw [Reading.pushBackref, h.modes]
  · exact .fail

theorem stepNumber_agrees {tail : List Char} (ht : IsTail tail) (pos pos' : ℕ) (first : Char)
    {cs : List Char} (hcs : Whole cs) : Agrees (Pushes r r' (first :: cs)) D (r.stepNumber pos first cs)
      (r'.stepNumber pos' first (cs ++ tail)) := by
  obtain ⟨d, more, rfl, hd⟩ := ht.exists_cons
  have hdigit : d.isDigit = false := (by decide : ∀ d ∈ [')', '\\'], d.isDigit = false) d hd
  have hoctal : isOctalDigit d = false := (by decide : ∀ d ∈ [')', '\\'], isOctalDigit d = false) d hd
  have hone : Ends (first :: cs) 1 := .cons (.zero hcs)
  unfold Reading.stepNumber
  cases cs with
  | nil =>
    dsimp only [List.nil_append]
    rw [if_neg (by rw [hdigit]; decide)]
    exact h.backref_agrees hone _ _ _ _ _
  | cons second cs =>
    dsimp only [List.cons_append]
    split
    · next hsecond =>
      have hrest : Whole cs := hcs.of_cons fun heq => absurd (heq ▸ hsecond) (by decide)
      have htwo : Ends (first :: second :: cs) 2 := .cons (.cons (.zero hrest))
      cases cs with
      | nil =>
        dsimp only [List.nil_append]
        rw [if_neg (by rw [hoctal, Bool.and_false]; decide)]
        exact h.backref_agrees htwo _ _ _ _ _
      | cons third cs =>
        dsimp only [List.cons_append]
        split
        · next hthird =>
          split
          · exact .fail
          · have hescape : third ≠ '\\' := fun heq => by
              rw [heq, show isOctalDigit '\\' = false from rfl, Bool.and_false] at hthird
              cases hthird
            exact .ok (h.pushes_set (.cons (.cons (.cons (.zero (hrest.of_cons hescape))))) _ _)
        · exact h.backref_agrees htwo _ _ _ _ _
    · exact h.backref_agrees hone _ _ _ _ _

theorem stepEscape_agrees [CharNames] {tail : List Char} (ht : IsTail tail) (pos pos' : ℕ)
    (letter : Char)
    {cs : List Char} (hcs : Whole cs) : Agrees (Pushes r r' (letter :: cs)) D (r.stepEscape pos letter cs)
      (r'.stepEscape pos' letter (cs ++ tail)) := by
  have hone : Ends (letter :: cs) 1 := .cons (.zero hcs)
  have hcode := readCodeEscape_tail ht pos pos' letter hcs
  unfold Reading.stepEscape
  rw [h.modes]
  generalize readCodeEscape pos letter cs = x, readCodeEscape pos' letter (cs ++ tail) = y at hcode
  cases categoryEscape? letter with
  | some item => exact .ok (h.pushes_set hone _ _)
  | none =>
    cases anchorEscape? r.modes.ascii letter with
    | some anchor => exact .ok ⟨_, _, _, rfl, rfl, hone⟩
    | none =>
      cases controlEscape? letter with
      | some n => exact .ok (h.pushes_set hone _ _)
      | none =>
        cases hcode with
        | @some x y hagrees =>
          cases hagrees with
          | ok hxy =>
            obtain ⟨rfl, hends⟩ := hxy
            exact .ok (h.pushes_set hends _ _)
          | problem hmeets =>
            cases y with
            | error e => exact .problem hmeets.error
            | ok x => exact hmeets.elim
          | limit => exact .limit
        | none =>
          rw [takeAtMost_tail ht (by decide)]
          dsimp only
          split
          · refine .ok (h.pushes_set ?_ _ _)
            rw [Nat.add_comm]
            exact (ends_takeAtMost (by decide) hcs 2).cons
          · split
            · exact h.stepNumber_agrees ht pos pos' letter hcs
            · split
              · exact .fail
              · exact .ok (h.pushes_set hone _ _)

end Reading.Alike

/-! ## Repetitions -/

/-- How a repetition takes its rounds, and the number of characters that say so. -/
def appetiteOf : List Char → Appetite × ℕ
  | '?' :: _ => (.lazy, 1)
  | '+' :: _ => (.possessive, 1)
  | _ => (.greedy, 0)

/-- The tail does not say how a repetition takes its rounds. -/
theorem appetiteOf_tail {tail rest : List Char} (ht : IsTail tail) (h : Whole rest) :
    appetiteOf (rest ++ tail) = appetiteOf rest ∧ Ends rest (appetiteOf rest).2 := by
  cases rest with
  | nil => cases ht <;> exact ⟨rfl, .zero h⟩
  | cons c cs =>
    by_cases hlazy : c = '?'
    · subst hlazy
      exact ⟨rfl, .cons (.zero (h.of_cons (by decide)))⟩
    by_cases hpossessive : c = '+'
    · subst hpossessive
      exact ⟨rfl, .cons (.zero (h.of_cons (by decide)))⟩
    have hgreedy : ∀ more, appetiteOf (c :: more) = (.greedy, 0) := fun more => by
      rw [appetiteOf]
      · exact fun _ heq => hlazy (List.cons.inj heq).1
      · exact fun _ heq => hpossessive (List.cons.inj heq).1
    rw [List.cons_append, hgreedy, hgreedy]
    exact ⟨rfl, .zero h⟩

/-! ## Steps -/

theorem Reading.step_skipped [CharNames] {r : Reading} {pos : ℕ} {c : Char} {cs : List Char}
    (hskip : (r.modes.verbose && decide (c ∈ [' ', '\t', '\n', '\r', '\x0b', '\x0c'])) = true) :
    r.step pos c cs = .ok (r, 0) := by
  unfold Reading.step
  rw [if_pos hskip]

/-- A character that means nothing stands for itself. -/
theorem Reading.step_other [CharNames] {r : Reading} {pos : ℕ} {c : Char} {cs : List Char}
    (hskip : ¬(r.modes.verbose && decide (c ∈ [' ', '\t', '\n', '\r', '\x0b', '\x0c'])) = true)
    (hcomment : ¬(r.modes.verbose && decide (c = '#')) = true) (hc : c ∉ signs) :
    r.step pos c cs = .ok (r.pushChar c, 0) := by
  unfold Reading.step
  rw [if_neg hskip, if_neg hcomment]
  split <;> first | rfl | exact absurd (by decide) hc

/-- A step that leaves the groups that are open as they are, and a whole text. -/
def Reading.Stays (r : Reading) (rest : List Char) (next : Reading × ℕ) : Prop :=
  next.1.outer = r.outer ∧ Ends rest next.2

section
variable {r : Reading} {rest tail : List Char} (ht : IsTail tail)

theorem Pushes.stays {x y : Reading × ℕ} (h : Pushes r r rest x y) : r.Stays rest y := by
  obtain ⟨node, kind, count, -, rfl, hends⟩ := h
  exact ⟨rfl, hends⟩

theorem Reading.nextBranch_stays (pos : ℕ) :
    Meets (fun next => next.outer = r.outer) (fun _ => True) (r.nextBranch pos) := by
  unfold Reading.nextBranch
  split
  · exact .ok rfl
  · exact .fail
  · exact .ok rfl

include ht

theorem Reading.repeatLast_stays (h : Whole rest) (pos after least : ℕ) (most : Option ℕ) :
    Meets (r.Stays rest) (fun _ => True) (r.repeatLast pos after least most (rest ++ tail)) := by
  unfold Reading.repeatLast
  split
  · exact .fail
  · split
    · exact .fail
    · exact .fail
    · obtain ⟨htail, hends⟩ := appetiteOf_tail ht h
      split
      next appetite count heq =>
      have hcount : appetiteOf (rest ++ tail) = (appetite, count) := heq
      rw [← htail, hcount] at hends
      exact .ok ⟨rfl, hends⟩

theorem Reading.stepBrace_stays (h : Whole rest) (pos : ℕ) : Meets (r.Stays rest) (fun _ => True)
    (match readCounts pos (rest ++ tail) with
      | .error e => .error e
      | .ok none => .ok (r.pushChar '\x7b', 0)
      | .ok (some (least, most, count)) =>
        (r.repeatLast pos (pos + 1 + count) least most ((rest ++ tail).drop count)).map
          fun (r, more) => (r, count + more)) := by
  have hcounts := (readCounts_tail ht pos pos h).meets
  generalize readCounts pos (rest ++ tail) = y at hcounts
  split
  · exact .error hcounts
  · exact .ok ⟨rfl, .zero h⟩
  · next least most count =>
    obtain ⟨_, rfl, hends⟩ := hcounts
    have hcount : Ends rest count := hends _ rfl
    rw [hcount.drop_append]
    refine .map ((Reading.repeatLast_stays ht hcount.2 _ _ _ _).mono (fun next hnext => ?_) fun _ => id)
    exact ⟨hnext.1, hcount.add hnext.2⟩

/-- No step but those at parentheses opens or closes a group, and none reads from the tail. -/
theorem Reading.step_stays [CharNames] (pos : ℕ) {c : Char} (h : Whole (c :: rest)) (hsharp : c ≠ '#')
    (hopen : c ≠ '(') (hclose : c ≠ ')') :
    Meets (r.Stays rest) (fun _ => True) (r.step pos c (rest ++ tail)) := by
  by_cases hskip : (r.modes.verbose && decide (c ∈ [' ', '\t', '\n', '\r', '\x0b', '\x0c'])) = true
  · have hplain : Whole rest := h.of_cons fun heq => by
      rw [heq] at hskip
      exact absurd (Bool.and_eq_true_iff.mp hskip).2 (by decide)
    rw [Reading.step_skipped hskip]
    exact .ok ⟨rfl, .zero hplain⟩
  have hcomment : ¬(r.modes.verbose && decide (c = '#')) = true := by
    rw [decide_eq_false hsharp, Bool.and_false]
    exact Bool.false_ne_true
  by_cases hsign : c ∈ signs
  · have hplain : c ≠ '\\' → Whole rest := h.of_cons
    unfold Reading.step
    rw [if_neg hskip, if_neg hcomment]
    simp only [signs, List.mem_cons, List.not_mem_nil, or_false] at hsign
    obtain rfl | rfl | rfl | rfl | rfl | rfl | rfl | rfl | rfl | rfl | rfl | rfl := hsign
    · refine .map ((Reading.nextBranch_stays pos).mono (fun next hnext => ?_) fun _ => id)
      exact ⟨hnext, .zero (hplain (by decide))⟩
    · exact absurd rfl hclose
    · exact absurd rfl hopen
    · refine .map ((readBracket_tail ht pos pos (hplain (by decide))).meets.mono ?_ fun _ => id)
      rintro ⟨negated, items, count⟩ ⟨_, rfl, hends⟩
      exact ⟨rfl, hends⟩
    · obtain ⟨letter, cs, rfl, hcs⟩ := h.exists_escape
      refine ((Reading.Alike.refl r).stepEscape_agrees ht pos pos letter hcs).meets.mono ?_ fun _ => id
      rintro y ⟨x, hpushes⟩
      exact hpushes.stays
    · exact .ok ⟨rfl, .zero (hplain (by decide))⟩
    · exact .ok ⟨rfl, .zero (hplain (by decide))⟩
    · exact .ok ⟨rfl, .zero (hplain (by decide))⟩
    · exact Reading.repeatLast_stays ht (hplain (by decide)) _ _ _ _
    · exact Reading.repeatLast_stays ht (hplain (by decide)) _ _ _ _
    · exact Reading.repeatLast_stays ht (hplain (by decide)) _ _ _ _
    · exact Reading.stepBrace_stays ht (hplain (by decide)) pos
  · have hplain : Whole rest := h.of_cons fun heq => hsign (by rw [heq]; decide)
    rw [Reading.step_other hskip hcomment hsign]
    exact .ok ⟨rfl, .zero hplain⟩

end

/-! ## Runs -/

/-- A parenthesis without a group to close. -/
theorem Reading.step_unopened [CharNames] {r : Reading} (h : r.outer = []) (pos : ℕ)
    (rest : List Char) :
    Meets (fun _ => False) (fun _ => True) (r.step pos ')' rest) := by
  have hstep : r.step pos ')' rest = (r.close pos).map (·, 0) := by simp [Reading.step]
  rw [hstep, Reading.close, h]
  dsimp only
  split
  · exact trivial
  · exact .map .fail

/-- By induction on the steps: where no group is open, a text that opens none leaves none to close for the
parenthesis of the tail. -/
theorem Reading.run_unopened [CharNames] {r : Reading} (h : r.outer = []) (pos : ℕ) {cs : List Char}
    (hwhole : Whole cs) (hsharp : '#' ∉ cs) (hopen : '(' ∉ cs) :
    Meets (fun _ => False) (fun _ => True) (r.run pos (cs ++ [')', '$'])) := by
  generalize htext : cs ++ [')', '$'] = text
  fun_induction Reading.run r pos text generalizing cs with
  | case1 => exact absurd htext (List.append_ne_nil_of_right_ne_nil _ (List.cons_ne_nil _ _))
  | case2 r pos c rest e he =>
    obtain ⟨cause, noticed⟩ := e
    cases cause <;> exact trivial
  | case3 r pos c rest next count hnext ih =>
    have hclose : c ≠ ')' := by
      rintro rfl
      have hstep := r.step_unopened h pos rest
      rw [hnext] at hstep
      exact hstep
    cases cs with
    | nil => exact absurd (List.cons.inj htext).1.symm hclose
    | cons d cs =>
      rw [List.cons_append] at htext
      obtain ⟨rfl, rfl⟩ := List.cons.inj htext
      obtain ⟨hsharp', hsharp⟩ := List.ne_and_not_mem_of_not_mem_cons hsharp
      obtain ⟨hopen', hopen⟩ := List.ne_and_not_mem_of_not_mem_cons hopen
      have hstep := r.step_stays .closing pos hwhole hsharp'.symm hopen'.symm hclose
      rw [hnext] at hstep
      obtain ⟨houter, hends⟩ : r.Stays cs (next, count) := hstep
      exact ih (houter.trans h) hends.2 (fun hmem => hsharp (List.mem_of_mem_drop hmem))
        (fun hmem => hopen (List.mem_of_mem_drop hmem)) (hends.drop_append _).symm

end VerseSearch.Pattern
