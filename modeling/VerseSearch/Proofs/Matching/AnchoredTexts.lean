import VerseSearch.Proofs.Matching.Anchoring
import VerseSearch.Proofs.Matching.WholeTexts

/-! # Texts that are patterns between `^(?:` and `)$`

* `Reading.Complete`: nothing is owed at the end of a text.
* `Reading.Regular.run_agrees`: all steps in a text and between the ends.
* `parseAnchored_cases`: a text is a pattern between the ends if it is one by itself, with two exceptions.
* `parseAnchored_of_flagsFirst`: one of them, flags for the whole pattern.
-/

namespace VerseSearch.Pattern
set_option autoImplicit false

/-! ## Ends of texts -/

/-- Nothing is owed at the end of a text. -/
structure Reading.Complete (r : Reading) : Prop where
  outer : r.outer = []
  scripts : (r.asciiFlag && r.unicodeFlag) = false
  wanted : ∀ x ∈ r.wanted, x.1 ≤ r.groupCount
  loops : ∀ appetite, r.firstLoop = some appetite → r.modes.template = false
  loose : r.loose = false

theorem Reading.find?_wanted_eq_none (r : Reading) :
    (r.wanted.find? fun (index, _) => r.groupCount < index) = none ↔ ∀ x ∈ r.wanted, x.1 ≤ r.groupCount := by
  simp only [List.find?_eq_none, decide_eq_true_eq, not_lt]

theorem Reading.exists_finish_iff (r : Reading) (length : ℕ) : (∃ n, r.finish length = .ok n) ↔
    r.outer = [] ∧ (r.asciiFlag && r.unicodeFlag) = false ∧ ∀ x ∈ r.wanted, x.1 ≤ r.groupCount := by
  rw [Reading.finish, ← List.isEmpty_iff]
  cases r.outer.isEmpty with
  | false => exact iff_of_false (by rintro ⟨n, ⟨⟩⟩) (by rintro ⟨⟨⟩, -⟩)
  | true =>
    cases hscripts : r.asciiFlag && r.unicodeFlag with
    | true => exact iff_of_false (by rintro ⟨n, ⟨⟩⟩) (by rintro ⟨-, ⟨⟩, -⟩)
    | false =>
      by_cases hwanted : ∀ x ∈ r.wanted, x.1 ≤ r.groupCount
      · rw [r.find?_wanted_eq_none.mpr hwanted]
        exact iff_of_true ⟨_, rfl⟩ ⟨rfl, rfl, hwanted⟩
      · obtain ⟨x, hx⟩ := Option.ne_none_iff_exists'.mp (mt r.find?_wanted_eq_none.mp hwanted)
        rw [hx]
        exact iff_of_false (by rintro ⟨n, ⟨⟩⟩) fun h => hwanted h.2.2

section
variable [CharNames]

theorem parseBody_eq_ok_iff {body : Text} {r : Reading} {n : Node} : parseBody body = .ok (r, n) ↔
    ({} : Reading).run 0 body = .ok r ∧ r.finish body.length = .ok n := by
  rw [parseBody, bind_eq_ok_iff]
  constructor
  · rintro ⟨r', hrun, h⟩
    obtain ⟨n', hfinish, ⟨⟩⟩ := bind_eq_ok_iff.mp h
    exact ⟨hrun, hfinish⟩
  · rintro ⟨hrun, hfinish⟩
    exact ⟨r, hrun, bind_eq_ok_iff.mpr ⟨n, hfinish, rfl⟩⟩

/-- What is checked of a text after its end. -/
theorem exists_parse_iff_body {source body : Text} {backslash : Bool}
    (hsplit : splitFinalBackslash source = (body, backslash)) : (∃ p, Pattern.parse source = .ok p) ↔
      backslash = false ∧ ∃ r n, parseBody body = .ok (r, n) ∧
        (∀ appetite, r.firstLoop = some appetite → r.modes.template = false) ∧ r.loose = false := by
  rw [Pattern.parse, hsplit]
  dsimp only
  cases parseBody body with
  | error e => exact iff_of_false (by rintro ⟨p, ⟨⟩⟩) (by rintro ⟨-, r, n, ⟨⟩, -⟩)
  | ok read =>
    obtain ⟨r, n⟩ := read
    cases backslash with
    | true => exact iff_of_false (by rintro ⟨p, ⟨⟩⟩) (by rintro ⟨⟨⟩, -⟩)
    | false =>
      dsimp only
      rw [if_neg Bool.false_ne_true]
      constructor
      · rintro ⟨p, hp⟩
        split at hp
        · cases hp
        · next hloops =>
          split at hp
          · cases hp
          · next hloose =>
            exact ⟨rfl, r, n, rfl, fun appetite hloop =>
              Bool.eq_false_iff.mpr fun htemplate => hloops appetite htemplate hloop,
              Bool.eq_false_iff.mpr hloose⟩
      · rintro ⟨-, _, _, ⟨⟩, hloops, hloose⟩
        split
        · next htemplate hloop =>
          rw [hloops _ hloop] at htemplate
          cases htemplate
        · rw [if_neg (Bool.eq_false_iff.mp hloose)]
          exact ⟨_, rfl⟩

/-- A text is a pattern if it is read to its end and nothing is owed there. -/
theorem exists_parse_iff {source body : Text} {backslash : Bool}
    (hsplit : splitFinalBackslash source = (body, backslash)) : (∃ p, Pattern.parse source = .ok p) ↔
      backslash = false ∧ ∃ r, ({} : Reading).run 0 body = .ok r ∧ r.Complete := by
  rw [exists_parse_iff_body hsplit]
  refine and_congr_right fun _ => exists_congr fun r => ?_
  constructor
  · rintro ⟨n, hbody, hloops, hloose⟩
    obtain ⟨hrun, hfinish⟩ := parseBody_eq_ok_iff.mp hbody
    obtain ⟨houter, hscripts, hwanted⟩ := (r.exists_finish_iff _).mp ⟨n, hfinish⟩
    exact ⟨hrun, houter, hscripts, hwanted, hloops, hloose⟩
  · rintro ⟨hrun, hcomplete⟩
    obtain ⟨n, hfinish⟩ :=
      (r.exists_finish_iff _).mpr ⟨hcomplete.outer, hcomplete.scripts, hcomplete.wanted⟩
    exact ⟨n, parseBody_eq_ok_iff.mpr ⟨hrun, hfinish⟩, hcomplete.loops, hcomplete.loose⟩

end

theorem Meets.exists_problem {α : Type} {x : Except Failure α} (h : Meets (fun _ => False) (fun _ => False) x) :
    ∃ what offset noticed, x = .error ⟨.problem what offset, noticed⟩ := by
  match x, h with
  | .error ⟨.problem what offset, noticed⟩, _ => exact ⟨what, offset, noticed, rfl⟩

/-- A problem in a text is what is wrong with it, if a backslash at its end is not noticed first. -/
theorem parse_of_run_problem [CharNames] {source body : Text} {backslash : Bool} {what : Problem}
    {offset noticed : ℕ} (hsplit : splitFinalBackslash source = (body, backslash))
    (hfinal : backslash = false ∨ noticed ≠ body.length)
    (hrun : ({} : Reading).run 0 body = .error ⟨.problem what offset, noticed⟩) :
    Pattern.parse source = .error (.fault ⟨what, some (.of source offset)⟩) := by
  have hbody : parseBody body = .error ⟨.problem what offset, noticed⟩ := by
    simp only [parseBody, hrun, bind, Except.bind]
  have hnot : ¬(backslash && decide (noticed = body.length)) = true := by
    rintro hboth
    obtain ⟨hbackslash, hnoticed⟩ := Bool.and_eq_true_iff.mp hboth
    obtain hfinal | hfinal := hfinal
    · rw [hfinal] at hbackslash
      cases hbackslash
    · exact hfinal (of_decide_eq_true hnoticed)
  rw [Pattern.parse, hsplit]
  simp only [hbody, if_neg hnot]
  rfl

/-! ## Runs -/

theorem Reading.regular_start : ({} : Reading).Regular := ⟨rfl, rfl, rfl, rfl, nofun, rfl⟩

theorem Reading.run_dollar [CharNames] (r : Reading) (pos : ℕ) :
    ∃ node, r.run pos ['$'] = .ok (r.push node .anchor) := by
  have hstep : r.step pos '$' [] =
      .ok (r.push (.anchor (if r.modes.multiline then .lineEnd else .lastLineEnd)) .anchor, 0) := by
    simp [Reading.step]
  exact ⟨_, by rw [Reading.run_of_step hstep, List.drop_nil, Reading.run]⟩

/-- Closing a group leads back to the group around it. -/
theorem Reading.exists_close {r : Reading} {frame : Frame} {outer : List Frame}
    (houter : r.outer = frame :: outer) (hopener : r.frame.opener ≠ .pattern) (pos : ℕ) : ∃ r', r.close pos = .ok r' ∧ r'.outer = outer := by
  unfold Reading.close
  rw [houter]
  dsimp only
  split
  · next hpattern => exact absurd hpattern hopener
  all_goals exact ⟨_, rfl, rfl⟩

/-- Between the ends, the tail is read to its end, and nothing is owed then if nothing was owed before. -/
theorem Reading.Regular.exists_run_tail [CharNames] {r : Reading} (hr : r.Regular) {tail : List Char}
    (ht : IsTail tail)
    (pos : ℕ) : ∃ r', r.anchored.run pos tail = .ok r' ∧ (r'.Complete ↔ tail = [')', '$'] ∧ r.Complete) := by
  cases ht with
  | closing =>
    have hstep : r.anchored.step pos ')' ['$'] = (r.anchored.close pos).map (·, 0) := by simp [Reading.step]
    cases houter : r.outer with
    | nil =>
      obtain ⟨⟨opener, start, outerModes, branches, pieces⟩, outer, modes, groupCount, widths, names, limit,
        wanted, loose, firstLoop, asciiFlag, unicodeFlag⟩ := r
      obtain rfl : outer = [] := houter
      obtain rfl : opener = .pattern := hr.root
      obtain ⟨node, hdollar⟩ := Reading.run_dollar _ (pos + 1 + 0)
      refine ⟨_, (Reading.run_of_step hstep).trans hdollar, ?_⟩
      constructor
      · intro h
        exact ⟨rfl, rfl, h.scripts, List.forall_mem_map.mp h.wanted, fun _ _ => hr.modes, h.loose⟩
      · rintro ⟨-, h⟩
        exact ⟨rfl, h.scripts, List.forall_mem_map.mpr h.wanted, fun _ _ => hr.frame, h.loose⟩
    | cons frame outer =>
      have hcons : r.anchored.outer = frame.anchored :: (outer.map Frame.anchored ++ [anchorFrame]) := by
        rw [Reading.anchored, houter]
        rfl
      obtain ⟨r', hclose, hr'⟩ := Reading.exists_close hcons r.frame.opener.anchored_ne pos
      rw [hclose] at hstep
      obtain ⟨node, hdollar⟩ := r'.run_dollar (pos + 1 + 0)
      refine ⟨_, (Reading.run_of_step hstep).trans hdollar, iff_of_false (fun h => ?_) fun h => ?_⟩
      · have houter' : r'.outer = [] := h.outer
        exact List.append_ne_nil_of_right_ne_nil _ (List.cons_ne_nil _ _) (hr'.symm.trans houter')
      · rw [h.2.outer] at houter
        cases houter
  | escaped =>
    have hstep : r.anchored.step pos '\\' [')', '$'] = .ok (r.anchored.pushChar ')', 1) := by
      simp [Reading.step]
      rfl
    obtain ⟨node, hdollar⟩ := (r.anchored.pushChar ')').run_dollar (pos + 1 + 1)
    refine ⟨_, (Reading.run_of_step hstep).trans hdollar, iff_of_false (fun h => ?_) fun h => ?_⟩
    · exact List.append_ne_nil_of_right_ne_nil _ (List.cons_ne_nil _ _) h.outer
    · exact absurd h.1 (by decide)

section
variable [CharNames]

/-- A step that cuts the tail leaves a group open at the end. -/
theorem Cuts.run {rest : List Char} {next : Reading × ℕ} (h : Cuts rest next) (pos : ℕ) :
    Meets (fun y => y.outer ≠ []) (fun _ => False) (next.1.run pos (rest.drop next.2)) := by
  obtain ⟨houter, hdrop⟩ := h
  obtain ⟨node, hdollar⟩ := next.1.run_dollar pos
  rw [hdrop, hdollar]
  exact .ok houter

/-- After a step that fails in the text there is a failure between the ends, or a group stays open. -/
theorem Reading.run_of_step_error {R : Reading × ℕ → Reading × ℕ → Prop} {S : Reading → Reading → Prop}
    {r : Reading} {pos : ℕ} {c : Char} {rest : List Char} {e : Failure}
    (h : Agrees R (Cuts rest) (.error e) (r.step pos c rest)) :
    Agrees S (fun y => y.outer ≠ []) (.error e) (r.run pos (c :: rest)) := by
  rw [Reading.run]
  generalize r.step pos c rest = y at h
  cases h with
  | problem hmeets =>
    cases y with
    | error e => exact .problem hmeets.error
    | ok next =>
      have hcuts : Cuts rest next := hmeets
      exact .problem (hcuts.run _)
  | limit => exact .limit

/-- A parenthesis closes no group of the text, and between the ends it closes the one around the text. -/
def Reading.ClosesAround (r : Reading) (pos : ℕ) (cs tail : List Char) : Prop :=
  ∃ before after next pos', cs = before ++ ')' :: after ∧ Whole after ∧ next.outer = [] ∧
    r.run pos cs = fail .unopenedGroup (pos + before.length) (pos + before.length) ∧
    r.anchored.run (pos + 4) (cs ++ tail) = Reading.run next pos' (after ++ tail)

/-- The parenthesis may stand after a step that is the same in the text and between the ends. -/
theorem Reading.ClosesAround.of_step {r next : Reading} {pos : ℕ} {c : Char}
    {rest tail : List Char} {count : ℕ} (hstep : r.step pos c rest = .ok (next, count))
    (hanchored : r.anchored.step (pos + 4) c (rest ++ tail) = .ok (next.anchored, count))
    (hends : Ends rest count) (h : next.ClosesAround (pos + 1 + count) (rest.drop count) tail) : r.ClosesAround pos (c :: rest) tail := by
  obtain ⟨before, after, last, pos', htext, hafter, houter, hrun, hrest⟩ := h
  refine ⟨c :: (rest.take count ++ before), after, last, pos', ?_, hafter, houter, ?_, ?_⟩
  · rw [List.cons_append, List.append_assoc, ← htext, List.take_append_drop]
  · have hlength : pos + (c :: (rest.take count ++ before)).length = pos + 1 + count + before.length := by
      rw [List.length_cons, List.length_append, List.length_take_of_le hends.1]
      omega
    rw [Reading.run_of_step hstep, hrun, hlength]
  · rw [List.cons_append, Reading.run_of_step hanchored, hends.drop_append, Nat.add_right_comm pos 4 1,
      Nat.add_right_comm (pos + 1) 4 count, hrest]

/-- Reading between the ends goes as reading the text itself, up to the tail, unless a parenthesis closes
no group of the text. -/
theorem Reading.Regular.run_agrees {r : Reading} (hr : r.Regular) {tail : List Char} (ht : IsTail tail)
    (pos : ℕ) {cs : List Char} (h : Whole cs) (hsharp : '#' ∉ cs)
    (hfirst : r.Begun ∨ r.modes.verbose = false ∧ ¬FlagsFirst cs) :
    r.ClosesAround pos cs tail ∨
      Agrees (fun x y => x.Regular ∧ ∃ pos, x.anchored.run pos tail = .ok y) (fun y => y.outer ≠ [])
        (r.run pos cs) (r.anchored.run (pos + 4) (cs ++ tail)) := by
  -- by induction on the steps; after the first one the reading has begun
  fun_induction Reading.run r pos cs with
  | case1 r pos =>
    obtain ⟨r', hrun, -⟩ := hr.exists_run_tail ht (pos + 4)
    right
    rw [List.nil_append, hrun]
    exact .ok ⟨hr, _, hrun⟩
  | case2 r pos c rest e he =>
    obtain ⟨rfl, hunopened, next, hnext, houter⟩ | hagrees := hr.step_agrees ht pos h hsharp hfirst
    · refine .inl ⟨[], rest, next, pos + 4 + 1 + 0, rfl, h.of_cons (by decide), houter, ?_, ?_⟩
      · rw [Reading.run, hunopened]
        rfl
      · rw [List.cons_append, Reading.run_of_step hnext, List.drop_zero]
    · right
      rw [he] at hagrees
      exact Reading.run_of_step_error hagrees
  | case3 r pos c rest next count hnext ih =>
    obtain ⟨-, hunopened, -⟩ | hagrees := hr.step_agrees ht pos h hsharp hfirst
    · rw [hnext] at hunopened
      cases hunopened
    · rw [hnext] at hagrees
      obtain ⟨_, hstep, hfollows⟩ := hagrees.ok_left
      obtain ⟨rfl, hends, hregular, hbegun⟩ := hfollows
      have hrest : '#' ∉ rest.drop count := fun hmem => hsharp (.tail _ (List.mem_of_mem_drop hmem))
      obtain hcloses | hagrees := ih hregular hends.2 hrest (.inl hbegun)
      · exact .inl (.of_step hnext hstep hends hcloses)
      · right
        rwa [List.cons_append, Reading.run_of_step hstep, hends.drop_append, Nat.add_right_comm pos 4 1,
          Nat.add_right_comm (pos + 1) 4 count]

end

/-! ## Whole texts -/

theorem splitFinalBackslash_spec (source : Text) : Whole (splitFinalBackslash source).1 ∧
    source = (splitFinalBackslash source).1 ++ if (splitFinalBackslash source).2 then ['\\'] else [] := by
  fun_induction splitFinalBackslash source with
  | case1 => exact ⟨.nil, rfl⟩
  | case2 => exact ⟨.nil, rfl⟩
  | case3 c rest cs found hsplit ih =>
    rw [hsplit] at ih
    exact ⟨.escape c ih.1, congrArg ('\\' :: c :: ·) ih.2⟩
  | case4 c rest hfinal hescape cs found hsplit ih =>
    rw [hsplit] at ih
    refine ⟨.char (fun hc => ?_) ih.1, congrArg (c :: ·) ih.2⟩
    cases rest with
    | nil => exact hfinal hc rfl
    | cons d rest => exact hescape d rest hc rfl

theorem splitFinalBackslash_anchored (source : Text) :
    splitFinalBackslash ("^(?:".toList ++ source ++ ")$".toList) =
      ("^(?:".toList ++ source ++ ")$".toList, false) :=
  splitFinalBackslash_of_getLast? (by simp [List.getLast?_cons])

/-- A text without the backslash that ends it, and what stands after it between the ends. -/
structure BeforeTail (source body : Text) (backslash : Bool) (tail : List Char) : Prop where
  split : splitFinalBackslash source = (body, backslash)
  whole : Whole body
  source_eq : source = body ++ if backslash then ['\\'] else []
  isTail : IsTail tail
  text : source ++ [')', '$'] = body ++ tail
  closing_iff : tail = [')', '$'] ↔ backslash = false

theorem exists_beforeTail (source : Text) : ∃ body backslash tail, BeforeTail source body backslash tail := by
  cases hsplit : splitFinalBackslash source with
  | mk body backslash =>
    obtain ⟨hwhole, hsource⟩ := splitFinalBackslash_spec source
    rw [hsplit] at hwhole hsource
    dsimp only at hwhole hsource
    cases backslash with
    | false => exact ⟨_, _, _, hsplit, hwhole, hsource, .closing, by simp [hsource], iff_of_true rfl rfl⟩
    | true =>
      exact ⟨_, _, _, hsplit, hwhole, hsource, .escaped, by simp [hsource],
        iff_of_false (by decide) Bool.true_eq_false.mp⟩

section
variable [CharNames]

/-- Reading a text between the ends begins with the group around it. -/
theorem run_anchored_text (source : Text) : ({} : Reading).run 0
    ("^(?:".toList ++ source ++ ")$".toList) =
    ({} : Reading).anchored.run 4 (source ++ [')', '$']) := by
  have hstart := Reading.run_of_step
    (Reading.calm_start.step_anchor 0 (.head _) ('(' :: '?' :: ':' :: (source ++ [')', '$'])))
  have hcalm := (Reading.adds_push Reading.calm_start (.anchor .textStart) .anchor).calm
  have hopen := Reading.run_of_step (hcalm.step_openPlain 1 (source ++ [')', '$']))
  have htext : "^(?:".toList ++ source ++ ")$".toList =
      '^' :: '(' :: '?' :: ':' :: (source ++ [')', '$']) := by simp
  rw [htext, hstart]
  exact hopen

theorem exists_parseAnchored_iff_run (source : Text) : (∃ p, parseAnchored source = .ok p) ↔
    ∃ r, ({} : Reading).anchored.run 4 (source ++ [')', '$']) = .ok r ∧ r.Complete := by
  rw [parseAnchored, exists_parse_iff (splitFinalBackslash_anchored source), run_anchored_text]
  exact and_iff_right rfl

/-- A text without `#` is a pattern between the ends if it is one by itself, unless it begins with flags for
the whole pattern or a parenthesis closes no group of it. -/
theorem BeforeTail.closesAround_or_iff {source body : Text} {backslash : Bool} {tail : List Char}
    (h : BeforeTail source body backslash tail) (hsharp : '#' ∉ source) (hflags : ¬FlagsFirst source) :
    ({} : Reading).ClosesAround 0 body tail ∨
      ((∃ p, parseAnchored source = .ok p) ↔ ∃ p, Pattern.parse source = .ok p) := by
  have hstart : body <+: source := ⟨_, h.source_eq.symm⟩
  have hbody : ¬FlagsFirst body := by
    rintro ⟨letters, hne, hletters, hgroup⟩
    exact hflags ⟨letters, hne, hletters, hgroup.trans hstart⟩
  refine (Reading.regular_start.run_agrees h.isTail 0 h.whole
    (fun hmem => hsharp (hstart.subset hmem)) (.inr ⟨rfl, hbody⟩)).imp_right fun hagrees => ?_
  rw [exists_parseAnchored_iff_run, exists_parse_iff h.split, h.text, ← h.closing_iff]
  cases hrun : ({} : Reading).run 0 body with
  | ok r =>
    rw [hrun] at hagrees
    obtain ⟨r', hrun', hregular, pos, hend⟩ := hagrees.ok_left
    obtain ⟨_, hend', hcomplete⟩ := hregular.exists_run_tail h.isTail pos
    obtain rfl := Except.ok.inj (hend.symm.trans hend')
    constructor
    · rintro ⟨_, hr', hdone⟩
      obtain rfl := Except.ok.inj (hrun'.symm.trans hr')
      exact ⟨(hcomplete.mp hdone).1, r, rfl, (hcomplete.mp hdone).2⟩
    · rintro ⟨hclosing, _, ⟨⟩, hdone⟩
      exact ⟨_, hrun', hcomplete.mpr ⟨hclosing, hdone⟩⟩
  | error e =>
    rw [hrun] at hagrees
    refine iff_of_false ?_ (by rintro ⟨-, _, ⟨⟩, -⟩)
    rintro ⟨r', hr', hdone⟩
    rw [Nat.zero_add, hr'] at hagrees
    cases hagrees with
    | problem hopen => exact hopen hdone.outer

/-- The parenthesis is what is wrong with the text by itself. -/
theorem BeforeTail.parse_of_closesAround {source body : Text} {backslash : Bool} {tail : List Char}
    (h : BeforeTail source body backslash tail) (hcloses : ({} : Reading).ClosesAround 0 body tail) :
    ∃ f, Pattern.parse source = .error (.fault f) ∧ f.what = .unopenedGroup := by
  obtain ⟨before, after, -, -, htext, -, -, hrun, -⟩ := hcloses
  have hlt : 0 + before.length ≠ body.length := by
    rw [htext, List.length_append, List.length_cons]
    omega
  exact ⟨_, parse_of_run_problem h.split (.inr hlt) hrun, rfl⟩

end

/-- After a parenthesis the text opens another group, or a backslash ends it. -/
def Reopens (source : Text) : Prop :=
  ∃ before after, source = before ++ ')' :: after ∧ ('(' ∈ after ∨ after.getLast? = some '\\')

/-- The tail has a group to close, or no parenthesis, only in a text that opens one after the parenthesis or
ends with a backslash. -/
theorem BeforeTail.reopens [CharNames] {source body : Text} {backslash : Bool} {tail : List Char}
    (h : BeforeTail source body backslash tail) (hsharp : '#' ∉ source)
    (hcloses : ({} : Reading).ClosesAround 0 body tail) (hp : ∃ p, parseAnchored source = .ok p) :
    Reopens source := by
  obtain ⟨before, after, next, pos, htext, hwhole, houter, -, hrun⟩ := hcloses
  have hsource := h.source_eq
  rw [htext, List.append_assoc, List.cons_append] at hsource
  refine ⟨before, _, hsource, ?_⟩
  cases backslash with
  | true => exact .inr List.getLast?_concat
  | false =>
    left
    obtain ⟨r, hr, -⟩ := (exists_parseAnchored_iff_run source).mp hp
    rw [h.text, hrun, h.closing_iff.mpr rfl] at hr
    by_contra hopen
    rw [if_neg Bool.false_ne_true, List.append_nil] at hsource hopen
    have hafter : '#' ∉ after := fun hmem =>
      hsharp (hsource ▸ List.mem_append_right _ (List.mem_cons_of_mem _ hmem))
    have hfails := Reading.run_unopened houter pos hwhole hafter hopen
    rw [hr] at hfails
    exact hfails

/-- A text without `#` is a pattern between the ends if it is one by itself. The exceptions are a text that
begins with flags for the whole pattern, and one with a parenthesis that closes no group of it; between the
ends, such a text is a pattern only if it opens another group after a parenthesis or ends with a backslash. -/
theorem parseAnchored_cases [CharNames] {source : Text} (hsharp : '#' ∉ source)
    (hflags : ¬FlagsFirst source) :
    ((∃ p, parseAnchored source = .ok p) ↔ ∃ p, Pattern.parse source = .ok p) ∨
      (∃ f, Pattern.parse source = .error (.fault f) ∧ f.what = .unopenedGroup) ∧
        ((∃ p, parseAnchored source = .ok p) → Reopens source) := by
  obtain ⟨body, backslash, tail, h⟩ := exists_beforeTail source
  obtain hcloses | hiff := h.closesAround_or_iff hsharp hflags
  · exact .inr ⟨h.parse_of_closesAround hcloses, h.reopens hsharp hcloses⟩
  · exact .inl hiff

/-! ## Flags for the whole pattern -/

theorem readFlagsOn_letters {letters : List Char} (h : ∀ c ∈ letters, isFlag c = true) (pos : ℕ)
    (on rest : List Char) :
    Meets (fun y => y.2.1 = ')') (fun _ => False) (readFlagsOn pos on (letters ++ ')' :: rest)) := by
  induction letters generalizing pos on with
  | nil => exact .ok rfl
  | cons c letters ih =>
    obtain ⟨hc, hletters⟩ := List.forall_mem_cons.mp h
    rw [List.cons_append, readFlagsOn, if_pos hc]
    split
    · exact .fail
    · split
      · exact .fail
      · exact ih hletters (pos + 1) (c :: on)

theorem Reading.stepExtension_flag (r : Reading) (pos : ℕ) {c : Char} (hc : isFlag c = true) (cs : List Char) :
    r.stepExtension pos (c :: cs) = r.stepFlags pos (c :: cs) := by
  have hmem : c ∈ ['i', 'L', 'm', 's', 'x', 'a', 't', 'u'] := of_decide_eq_true hc
  simp only [List.mem_cons, List.not_mem_nil, or_false] at hmem
  obtain rfl | rfl | rfl | rfl | rfl | rfl | rfl | rfl := hmem <;> rfl

/-- Between the ends, flags for the whole pattern come late. -/
theorem Reading.stepFlags_anchored (r : Reading) {letters : List Char} (h : ∀ c ∈ letters, isFlag c = true)
    (pos : ℕ) (rest : List Char) :
    Meets (fun _ => False) (fun _ => False) (r.anchored.stepFlags pos (letters ++ ')' :: rest)) := by
  have hlate := r.anchored_late
  have hflags : Meets (fun y => y.1.isGlobal = true) (fun _ => False)
      (readFlags (pos + 2) (letters ++ ')' :: rest)) := by
    unfold readFlags
    refine (readFlagsOn_letters h (pos + 2) [] rest).bind ?_
    rintro ⟨on, sign, after⟩ hsign
    dsimp only at hsign ⊢
    rw [if_pos hsign]
    exact .ok rfl
  unfold Reading.stepFlags
  refine hflags.bind ?_
  rintro ⟨flags, after⟩ hglobal
  dsimp only at hglobal ⊢
  rw [if_pos hglobal]
  exact .guard fun hnot => absurd hlate hnot

/-- A text that begins with flags for the whole pattern is no pattern between the ends. -/
theorem parseAnchored_of_flagsFirst [CharNames] {source : Text} (h : FlagsFirst source) :
    ∃ f, parseAnchored source = .error (.fault f) := by
  obtain ⟨letters, hne, hletters, rest, rfl⟩ := h
  have hsource : '(' :: '?' :: letters ++ [')'] ++ rest ++ [')', '$'] =
      '(' :: '?' :: (letters ++ ')' :: (rest ++ [')', '$'])) := by simp
  have hstep : ({} : Reading).anchored.step 4 '(' ('?' :: (letters ++ ')' :: (rest ++ [')', '$']))) =
      ({} : Reading).anchored.stepFlags 4 (letters ++ ')' :: (rest ++ [')', '$'])) := by
    obtain ⟨c, letters, rfl⟩ := List.exists_cons_of_ne_nil hne
    exact Reading.stepExtension_flag _ 4 (hletters c (List.mem_cons_self ..)) _
  have hmeets := ({} : Reading).stepFlags_anchored hletters 4 (rest ++ [')', '$'])
  have hrun := run_anchored_text ('(' :: '?' :: letters ++ [')'] ++ rest)
  obtain ⟨what, offset, noticed, hfail⟩ := hmeets.exists_problem
  rw [hsource, Reading.run, hstep, hfail] at hrun
  exact ⟨_, parse_of_run_problem (splitFinalBackslash_anchored _) (.inl rfl) hrun⟩

end VerseSearch.Pattern
