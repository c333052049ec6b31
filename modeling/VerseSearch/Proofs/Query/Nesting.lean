import VerseSearch.Proofs.Matching.AnchoredTexts
import VerseSearch.Proofs.Query.WordBlocks

/-! # Blocks with parentheses

Where nothing but parentheses and bars is notation, the parentheses decide whether a text is a pattern.

* `nestingAfter`: how many groups are open after a text.
* `Pattern.Reading.Nested`: a state in which all open groups are plain or numbered ones.
* `run_nested`: reading a text opens and closes the groups that its parentheses say.
* `exists_parse_iff_nesting`, `exists_parseAnchored_iff_nesting`: which texts are patterns, by themselves
  and between the ends.
-/

namespace VerseSearch
set_option autoImplicit false

/-! ## States -/

namespace Pattern

/-- A group that is plain or numbered, or the pattern, in which no mode was on. -/
def Frame.IsPlain (frame : Frame) : Prop :=
  (frame.opener = .pattern ∨ frame.opener.IsGroup) ∧ frame.outerModes = {}

/-- Nothing is owed but to the open groups, which are plain or numbered ones. -/
structure Reading.Nested (r : Reading) : Prop where
  calm : r.Calm
  root : Rooted ((r.frame :: r.outer).map (·.opener))
  frame : r.frame.IsPlain
  outer : ∀ frame ∈ r.outer, frame.IsPlain

theorem Reading.nested_start : ({} : Reading).Nested :=
  ⟨Reading.calm_start, rfl, ⟨.inl rfl, rfl⟩, nofun⟩

theorem Reading.nested_anchored : ({} : Reading).anchored.Nested :=
  ⟨⟨rfl, rfl, rfl, rfl, rfl⟩, ⟨nofun, rfl⟩, ⟨.inr (.inl rfl), rfl⟩,
    List.forall_mem_singleton.mpr ⟨.inl rfl, rfl⟩⟩

namespace Reading.Nested

variable {r r' : Reading} (h : r.Nested) (pos : ℕ)
include h

theorem of_adds {pieces : List Piece} (hadds : r.Adds r' pieces) : r'.Nested := by
  refine ⟨hadds.calm, ?_, ?_, hadds.outer ▸ h.outer⟩
  · rw [hadds.frame, hadds.outer]
    exact h.root
  · rw [hadds.frame]
    exact h.frame

theorem nextBranch : ∃ r', r.nextBranch pos = .ok r' ∧ r'.Nested ∧ r'.outer = r.outer := by
  have hcalm := h.calm
  have hnext : r.nextBranch pos = .ok { r with
      frame := { r.frame with branches := r.frame.branch :: r.frame.branches, pieces := [] } } := by
    obtain hpattern | hgroup := h.frame.1
    · unfold Reading.nextBranch
      rw [hpattern]
    · exact Reading.nextBranch_of_isGroup hgroup pos
  exact ⟨_, hnext, ⟨⟨hcalm.modes, hcalm.wanted, hcalm.loose, hcalm.asciiFlag, hcalm.unicodeFlag⟩,
    h.root, h.frame, h.outer⟩, rfl⟩

theorem openCapture :
    ∃ r', r.openCapture pos none = .ok r' ∧ r'.Nested ∧ r'.outer = r.frame :: r.outer := by
  have hcalm := h.calm
  exact ⟨_, rfl, ⟨⟨hcalm.modes, hcalm.wanted, hcalm.loose, hcalm.asciiFlag, hcalm.unicodeFlag⟩,
    ⟨nofun, h.root⟩, ⟨.inr (.inr ⟨_, rfl⟩), hcalm.modes⟩,
    List.forall_mem_cons.mpr ⟨h.frame, h.outer⟩⟩, rfl⟩

theorem close_of_nil (houter : r.outer = []) : r.close pos = fail .unopenedGroup pos pos := by
  rw [Reading.close, houter]
  simp only [h.calm.asciiFlag, Bool.false_and, Bool.false_eq_true, if_false]

theorem close_of_cons {frame : Frame} {outer : List Frame} (houter : r.outer = frame :: outer) :
    ∃ r', r.close pos = .ok r' ∧ r'.Nested ∧ r'.outer = outer := by
  obtain ⟨hkind, hmodes⟩ := h.frame
  have hcalm := h.calm
  have hroot := h.root
  have hall := h.outer
  rw [houter] at hroot hall
  obtain ⟨hframe, hrest⟩ := List.forall_mem_cons.mp hall
  -- leaving the group puts one more part in the branch of the group around it
  have hleave : ∀ widths node, ({ r with widths := widths }.leave frame outer node).Nested :=
    fun _ _ => ⟨⟨hmodes, hcalm.wanted, hcalm.loose, hcalm.asciiFlag, hcalm.unicodeFlag⟩, hroot.2,
      hframe, hrest⟩
  unfold Reading.close
  rw [houter]
  obtain hopener | ⟨index, hopener⟩ := hkind.resolve_left hroot.1
  · refine ⟨r.leave frame outer r.frame.node, by rw [hopener], hleave r.widths _, rfl⟩
  · let widths := (index, r.frame.node.width r.groupWidth) :: r.widths
    exact ⟨{ r with widths }.leave frame outer (.group index r.frame.node), by rw [hopener]; rfl,
      hleave widths _, rfl⟩

/-- Nothing but open groups is owed. -/
theorem complete_iff : r.Complete ↔ r.outer = [] := by
  refine ⟨fun hcomplete => hcomplete.outer, fun houter => ⟨houter, ?_, ?_, fun _ _ => ?_, h.calm.loose⟩⟩
  · rw [h.calm.asciiFlag, Bool.false_and]
  · rw [h.calm.wanted]
    exact nofun
  · rw [h.calm.modes]

/-- The end of a text between the ends closes the one group that may be open before it. -/
theorem exists_run_end_iff [CharNames] :
    (∃ r', r.run pos [')', '$'] = .ok r' ∧ r'.Complete) ↔ r.outer.length = 1 := by
  have hstep := h.calm.step_close pos ['$']
  cases houter : r.outer with
  | nil =>
    rw [h.close_of_nil pos houter] at hstep
    rw [Reading.run, hstep]
    exact iff_of_false (by rintro ⟨r, ⟨⟩, -⟩) (by simp)
  | cons frame outer =>
    obtain ⟨r', hclose, hr', houter'⟩ := h.close_of_cons pos houter
    rw [hclose] at hstep
    obtain ⟨node, hdollar⟩ := r'.run_dollar (pos + 1 + 0)
    have hpush := hr'.of_adds (Reading.adds_push hr'.calm node .anchor)
    have hdone : (r'.push node .anchor).Complete ↔ outer = [] := by
      rw [hpush.complete_iff, ← houter']
      rfl
    rw [Reading.run_of_step hstep, List.drop_zero, hdollar, List.length_cons, Nat.add_eq_right,
      List.length_eq_zero_iff, ← hdone]
    simp only [Except.ok.injEq, exists_eq_left']

end Reading.Nested

end Pattern

namespace Query

open Pattern (Reading NoAppetite parseAnchored)

/-! ## Groups of a text -/

/-- How many groups are open after a text that follows `n` of them, unless it closes one too many. -/
def nestingAfter (n : ℕ) : Text → Option ℕ
  | [] => some n
  | c :: t =>
    if c = '(' then nestingAfter (n + 1) t
    else if c = ')' then
      match n with
      | 0 => none
      | n + 1 => nestingAfter n t
    else nestingAfter n t

@[simp] theorem nestingAfter_nil (n : ℕ) : nestingAfter n [] = some n := rfl

@[simp] theorem nestingAfter_open (n : ℕ) (t : Text) :
    nestingAfter n ('(' :: t) = nestingAfter (n + 1) t := by
  cases n <;> rfl

@[simp] theorem nestingAfter_close_zero (t : Text) : nestingAfter 0 (')' :: t) = none := rfl

@[simp] theorem nestingAfter_close_succ (n : ℕ) (t : Text) :
    nestingAfter (n + 1) (')' :: t) = nestingAfter n t := rfl

theorem nestingAfter_other {c : Char} (hopen : c ≠ '(') (hclose : c ≠ ')') (n : ℕ) (t : Text) :
    nestingAfter n (c :: t) = nestingAfter n t := by
  cases n <;> rw [nestingAfter, if_neg hopen, if_neg hclose]

/-- With one group more around a text, one group more is open after it. -/
theorem nestingAfter_succ {n m : ℕ} {t : Text} (h : nestingAfter n t = some m) :
    nestingAfter (n + 1) t = some (m + 1) := by
  induction t generalizing n with
  | nil =>
    obtain rfl := Option.some.inj h
    rfl
  | cons c t ih =>
    by_cases hopen : c = '('
    · subst hopen
      rw [nestingAfter_open] at h ⊢
      exact ih h
    by_cases hclose : c = ')'
    · subst hclose
      cases n with
      | zero => cases h
      | succ n => exact ih h
    rw [nestingAfter_other hopen hclose] at h ⊢
    exact ih h

/-- Parentheses and bars are all that is notation. -/
def IsGrouped (t : Text) : Prop :=
  ∀ c ∈ t, c ∉ interfering ∧ (c ∈ ['(', ')', '|'] ∨ c ∉ Pattern.signs)

instance (t : Text) : Decidable (IsGrouped t) :=
  inferInstanceAs (Decidable (∀ c ∈ t, c ∉ interfering ∧ (c ∈ ['(', ')', '|'] ∨ c ∉ Pattern.signs)))

theorem isGrouped_cons {c : Char} {t : Text} : IsGrouped (c :: t) ↔
    (c ∉ interfering ∧ (c ∈ ['(', ')', '|'] ∨ c ∉ Pattern.signs)) ∧ IsGrouped t :=
  List.forall_mem_cons

theorem not_mem_signText {c : Char} (hc : c ∈ ['(', ')', '|'] ∨ c ∉ Pattern.signs) :
    '\\' ∉ signText c := by
  obtain hc | hc := hc
  · have hall : ∀ c ∈ ['(', ')', '|'], '\\' ∉ signText c := by decide
    exact hall c hc
  · rw [signText, letterText]
    split
    · decide
    · split
      · decide
      · split
        · decide
        · rw [List.mem_singleton]
          exact fun heq => toRegular_not_mem_signs hc (heq ▸ by decide)

section
variable [Pattern.CharNames] {t : Text} (ht : IsGrouped t) {rest : Text} (hrest : NoAppetite rest)
include ht

theorem noAppetite_grouped : NoAppetite (t.flatMap signText) := by
  induction t with
  | nil => exact nofun
  | cons c t ih =>
    obtain ⟨⟨-, hc⟩, ht⟩ := isGrouped_cons.mp ht
    rw [List.flatMap_cons]
    refine .append ?_ (ih ht)
    obtain hc | hc := hc
    · have hall : ∀ c ∈ ['(', ')', '|'], signText c = [c] ∧ c ≠ '?' ∧ c ≠ '+' := by decide
      obtain ⟨htext, hne⟩ := hall c hc
      exact htext ▸ .cons hne []
    · exact (readsAs_signText hc).2

/-- What a text has been read to, when `n` groups are open after it or it closes one too many. -/
def Leaves (rest : Text) (x : Except Pattern.Failure Reading) : Option ℕ → Prop
  | some n => ∃ (r : Reading) (pos : ℕ), x = r.run pos rest ∧ r.Nested ∧ r.outer.length = n
  | none => ∃ offset, x = Pattern.fail .unopenedGroup offset offset

include hrest in
/-- Reading a text opens and closes the groups that its parentheses say. -/
theorem run_nested {r : Reading} (hr : r.Nested) (pos : ℕ) :
    Leaves rest (r.run pos (t.flatMap signText ++ rest)) (nestingAfter r.outer.length t) := by
  induction t generalizing r pos with
  | nil => exact ⟨r, pos, rfl, hr, rfl⟩
  | cons c t ih =>
    obtain ⟨⟨-, hc⟩, htail⟩ := isGrouped_cons.mp ht
    have hnext : NoAppetite (t.flatMap signText ++ rest) := (noAppetite_grouped htail).append hrest
    rw [List.flatMap_cons, List.append_assoc]
    obtain hc | hc := hc
    · simp only [List.mem_cons, List.not_mem_nil, or_false] at hc
      obtain rfl | rfl | rfl := hc
      · obtain ⟨r', hopen, hr', houter⟩ := hr.openCapture pos
        have hstep := hr.calm.step_open pos fun hhead => (hnext '?' hhead).1 rfl
        rw [hopen] at hstep
        have hleaves := ih htail hr' (pos + 1 + 0)
        rw [houter, List.length_cons, ← nestingAfter_open] at hleaves
        exact Reading.run_of_step hstep ▸ hleaves
      · have hstep := hr.calm.step_close pos (t.flatMap signText ++ rest)
        cases houter : r.outer with
        | nil =>
          rw [hr.close_of_nil pos houter] at hstep
          refine ⟨pos, ?_⟩
          change r.run pos (')' :: (t.flatMap signText ++ rest)) = _
          rw [Reading.run, hstep]
          rfl
        | cons frame outer =>
          obtain ⟨r', hclose, hr', houter'⟩ := hr.close_of_cons pos houter
          rw [hclose] at hstep
          have hleaves := ih htail hr' (pos + 1 + 0)
          rw [houter', ← nestingAfter_close_succ] at hleaves
          exact Reading.run_of_step hstep ▸ hleaves
      · have hne : '|' ≠ '(' ∧ '|' ≠ ')' := by decide
        obtain ⟨r', hbranch, hr', houter⟩ := hr.nextBranch pos
        have hstep := hr.calm.step_bar pos (t.flatMap signText ++ rest)
        rw [hbranch] at hstep
        have hleaves := ih htail hr' (pos + 1 + 0)
        rw [houter, ← nestingAfter_other hne.1 hne.2] at hleaves
        exact Reading.run_of_step hstep ▸ hleaves
    · have hne : c ≠ '(' ∧ c ≠ ')' := by
        constructor <;> (rintro rfl; exact hc (by decide))
      obtain ⟨r', pieces, hrun, hadds, -⟩ := (readsAs_signText hc).1 r pos _ hr.calm hnext
      have hleaves := ih htail (hr.of_adds hadds) (pos + (signText c).length)
      rw [hadds.outer, ← nestingAfter_other hne.1 hne.2] at hleaves
      exact hrun ▸ hleaves

/-! ## Patterns -/

omit [Pattern.CharNames] in
theorem normalizeBlock_grouped : normalizeBlock t = t.flatMap signText :=
  normalizeBlock_plain fun c hc => (ht c hc).1

omit [Pattern.CharNames] in
theorem splitFinalBackslash_grouped :
    Pattern.splitFinalBackslash (normalizeBlock t) = (normalizeBlock t, false) := by
  refine Pattern.splitFinalBackslash_of_getLast? fun hlast => ?_
  rw [normalizeBlock_grouped ht] at hlast
  obtain ⟨c, hc, hmem⟩ := List.mem_flatMap.mp (List.mem_of_getLast? hlast)
  exact not_mem_signText (ht c hc).2 hmem

theorem leaves_start : Leaves [] (({} : Reading).run 0 (normalizeBlock t)) (nestingAfter 0 t) := by
  have hend : NoAppetite [] := nofun
  have hleaves := run_nested ht hend Reading.nested_start 0
  rwa [List.append_nil, ← normalizeBlock_grouped ht] at hleaves

theorem leaves_anchored : Leaves [')', '$']
    (({} : Reading).anchored.run 4 (normalizeBlock t ++ [')', '$'])) (nestingAfter 1 t) := by
  rw [normalizeBlock_grouped ht]
  exact run_nested ht (.cons (by decide) _) Reading.nested_anchored 4

/-- By itself a text is a pattern if each group is closed and no parenthesis closes one too many. -/
theorem exists_parse_iff_nesting :
    (∃ p, Pattern.parse (normalizeBlock t) = .ok p) ↔ nestingAfter 0 t = some 0 := by
  have hleaves := leaves_start ht
  rw [Pattern.exists_parse_iff (splitFinalBackslash_grouped ht), and_iff_right rfl]
  cases hnesting : nestingAfter 0 t with
  | none =>
    rw [hnesting] at hleaves
    obtain ⟨offset, hrun⟩ := hleaves
    rw [hrun]
    exact iff_of_false (by rintro ⟨r, ⟨⟩, -⟩) (by simp)
  | some n =>
    rw [hnesting] at hleaves
    obtain ⟨r, pos, hrun, hr, rfl⟩ := hleaves
    rw [hrun, Reading.run, Option.some.injEq, List.length_eq_zero_iff, ← hr.complete_iff]
    simp only [Except.ok.injEq, exists_eq_left']

theorem parse_of_nesting_eq_none (h : nestingAfter 0 t = none) :
    ∃ f, Pattern.parse (normalizeBlock t) = .error (.fault f) ∧ f.what = .unopenedGroup := by
  have hleaves := leaves_start ht
  rw [h] at hleaves
  obtain ⟨offset, hrun⟩ := hleaves
  exact ⟨_, Pattern.parse_of_run_problem (splitFinalBackslash_grouped ht) (.inl rfl) hrun, rfl⟩

/-- Between the ends a text is a pattern if no parenthesis but the last one closes the group around it. -/
theorem exists_parseAnchored_iff_nesting :
    (∃ p, parseAnchored (normalizeBlock t) = .ok p) ↔ nestingAfter 1 t = some 1 := by
  have hleaves := leaves_anchored ht
  rw [Pattern.exists_parseAnchored_iff_run]
  cases hnesting : nestingAfter 1 t with
  | none =>
    rw [hnesting] at hleaves
    obtain ⟨offset, hrun⟩ := hleaves
    rw [hrun]
    exact iff_of_false (by rintro ⟨r, ⟨⟩, -⟩) (by simp)
  | some n =>
    rw [hnesting] at hleaves
    obtain ⟨r, pos, hrun, hr, rfl⟩ := hleaves
    rw [hrun, Option.some.injEq]
    exact hr.exists_run_end_iff pos

end

end Query

end VerseSearch
