import VerseSearch.Proofs.Hebrew.Normalization

/-! # Shin and sin in one pass

The two passes over a text, one for each dot, do what a single pass does that looks at the run of
marks after each bare shin.

* `Run`: a longest run of marks and what comes after it.
* `composeOnce`: the single pass.
* `compose_shin`, `compose_sin`, `compose_bare`: what the two passes make of a bare shin.
* `IsComposed`: no bare shin has a dot left that would make it a composed letter.
* `compose_in_one_pass`: the passes agree, and what follows for the text that they leave.
-/

namespace VerseSearch.Hebrew
set_option autoImplicit false

/-! ## Runs of marks -/

/-- The marks are a longest run: what comes after them is no such mark. -/
structure Run (marks after : Text) : Prop where
  marks : ∀ c ∈ marks, isInterleaved c = true
  ends : ∀ c ∈ after.head?, isInterleaved c = false

theorem run_of_text (t : Text) : Run (t.takeWhile isInterleaved) (t.dropWhile isInterleaved) :=
  ⟨fun _ => List.mem_takeWhile_imp, fun _ => Text.of_head?_dropWhile⟩

namespace Run
variable {marks after : Text} (h : Run marks after)
include h

theorem takeWhile_eq : (marks ++ after).takeWhile isInterleaved = marks := by
  rw [List.takeWhile_append_of_pos h.marks]
  cases after with
  | nil => simp
  | cons c after => simp [h.ends c rfl]

theorem dropWhile_eq : (marks ++ after).dropWhile isInterleaved = after := by
  rw [List.dropWhile_append_of_pos h.marks]
  cases after with
  | nil => rfl
  | cons c after => simp [h.ends c rfl]

theorem not_mem {c : Char} (hc : isInterleaved c = false) : c ∉ marks := by
  intro hmem
  rw [h.marks c hmem] at hc
  cases hc

end Run

theorem bareShin_ends : isInterleaved bareShin = false := by decide

/-! ## The last dot of a run -/

/-- A text without the last occurrence of a character. -/
def eraseLast (c : Char) (t : Text) : Text := (t.reverse.erase c).reverse

theorem eraseLast_append {c : Char} {before after : Text} (h : c ∉ after) :
    eraseLast c (before ++ c :: after) = before ++ after := by
  have hmem : c ∉ after.reverse := by simpa using h
  rw [eraseLast, List.reverse_append, List.reverse_cons, List.append_assoc, List.singleton_append,
    List.erase_append_right _ hmem, List.erase_cons_head]
  simp

theorem mem_of_mem_eraseLast {c d : Char} {t : Text} (h : d ∈ eraseLast c t) : d ∈ t := by
  rw [eraseLast, List.mem_reverse] at h
  exact List.mem_reverse.mp (List.mem_of_mem_erase h)

theorem exists_beforeLast {c : Char} {t : Text} (h : c ∈ t) :
    ∃ before after, beforeLast c t = some before ∧ t = before ++ c :: after ∧ c ∉ after := by
  induction t with
  | nil => exact absurd h List.not_mem_nil
  | cons d t ih =>
    by_cases ht : c ∈ t
    · obtain ⟨before, after, hbefore, rfl, hafter⟩ := ih ht
      exact ⟨d :: before, after, by rw [beforeLast, hbefore], rfl, hafter⟩
    · obtain rfl := (List.mem_cons.mp h).resolve_right ht
      exact ⟨[], t, by simp [beforeLast, beforeLast_of_not_mem ht], rfl, ht⟩

theorem beforeLast_eq_some {c : Char} {t before : Text} (h : beforeLast c t = some before) :
    ∃ after, t = before ++ c :: after := by
  have hmem : c ∈ t := by
    by_contra hc
    rw [beforeLast_of_not_mem hc] at h
    cases h
  obtain ⟨before', after, hbefore, heq, -⟩ := exists_beforeLast hmem
  rw [h] at hbefore
  exact ⟨after, Option.some.inj hbefore ▸ heq⟩

/-! ## The two passes -/

theorem composeShin_cons {c : Char} (hc : c ≠ bareShin) (t : Text) :
    composeShin (c :: t) = c :: composeShin t := by
  rw [composeShin, if_neg hc]

theorem composeSin_cons {c : Char} (hc : c ≠ bareShin) (t : Text) :
    composeSin (c :: t) = c :: composeSin t := by
  rw [composeSin, if_neg hc]

/-- A pass that keeps all characters but a bare shin keeps a text without one. -/
theorem append_of_cons {f : Text → Text} (hf : ∀ {c : Char}, c ≠ bareShin → ∀ t, f (c :: t) = c :: f t)
    {s : Text} (hs : bareShin ∉ s) (t : Text) : f (s ++ t) = s ++ f t := by
  induction s with
  | nil => rfl
  | cons c s ih =>
    obtain ⟨hc, hs⟩ := List.ne_and_not_mem_of_not_mem_cons hs
    rw [List.cons_append, hf hc.symm, ih hs, List.cons_append]

theorem composeShin_append {s : Text} (hs : bareShin ∉ s) (t : Text) :
    composeShin (s ++ t) = s ++ composeShin t := append_of_cons composeShin_cons hs t

theorem composeSin_append {s : Text} (hs : bareShin ∉ s) (t : Text) :
    composeSin (s ++ t) = s ++ composeSin t := append_of_cons composeSin_cons hs t

/-- The first pass leaves the first character or makes a shin of it. -/
theorem head?_composeShin {t : Text} {c : Char} (h : c ∈ (composeShin t).head?) :
    c ∈ t.head? ∨ c = shin := by
  cases t with
  | nil => simp [composeShin] at h
  | cons d t =>
    rw [composeShin] at h
    split at h
    · split at h
      · exact .inr (by simpa [eq_comm] using h)
      · exact .inl (by simpa using h)
    · exact .inl (by simpa using h)

theorem mem_composeShin {t : Text} {c : Char} (h : c ∈ composeShin t) : c ∈ t ∨ c = shin := by
  fun_induction composeShin t with
  | case1 => exact .inl h
  | case2 rest marks hmarks ih =>
    obtain ⟨after, hrow⟩ := beforeLast_eq_some hmarks
    rw [List.cons_append, List.mem_cons, List.mem_append] at h
    obtain h | h | h := h
    · exact .inr h
    · have hrun : c ∈ rest.takeWhile isInterleaved := hrow ▸ List.mem_append_left _ h
      exact .inl (List.mem_cons_of_mem _ ((List.takeWhile_prefix _).subset hrun))
    · exact (ih h).imp_left fun h => List.mem_cons_of_mem _ (List.mem_of_mem_drop h)
  | case3 rest hmarks ih =>
    obtain rfl | h := List.mem_cons.mp h
    · exact .inl List.mem_cons_self
    · exact (ih h).imp_left (List.mem_cons_of_mem _)
  | case4 d rest hd ih =>
    obtain rfl | h := List.mem_cons.mp h
    · exact .inl List.mem_cons_self
    · exact (ih h).imp_left (List.mem_cons_of_mem _)

theorem mem_composeSin {t : Text} {c : Char} (h : c ∈ composeSin t) : c ∈ t ∨ c = sin := by
  fun_induction composeSin t with
  | case1 => exact .inl h
  | case2 rest marks hdot ih =>
    rw [List.cons_append, List.mem_cons, List.mem_append] at h
    obtain h | h | h := h
    · exact .inr h
    · exact .inl (List.mem_cons_of_mem _ ((List.takeWhile_prefix _).subset h))
    · exact (ih h).imp_left fun h => List.mem_cons_of_mem _ (List.mem_of_mem_drop h)
  | case3 rest marks hdot ih =>
    obtain rfl | h := List.mem_cons.mp h
    · exact .inl List.mem_cons_self
    · exact (ih h).imp_left (List.mem_cons_of_mem _)
  | case4 d rest hd ih =>
    obtain rfl | h := List.mem_cons.mp h
    · exact .inl List.mem_cons_self
    · exact (ih h).imp_left (List.mem_cons_of_mem _)

/-- Composition brings in no characters but the two composed letters. -/
theorem mem_compose {t : Text} {c : Char} (h : c ∈ compose t) : c ∈ t ∨ c = shin ∨ c = sin := by
  obtain h | h := mem_composeSin h
  · exact (mem_composeShin h).imp_right .inl
  · exact .inr (.inr h)

section
variable {marks after : Text} (h : Run marks after)
include h

theorem Run.composeShin : Run marks (composeShin after) := by
  refine ⟨h.marks, fun c hc => ?_⟩
  obtain hc | rfl := head?_composeShin hc
  · exact h.ends c hc
  · decide

theorem composeShin_of_mem (hdot : shinDot ∈ marks) :
    composeShin (bareShin :: (marks ++ after)) =
      shin :: (eraseLast shinDot marks ++ composeShin after) := by
  obtain ⟨before, behind, hbefore, rfl, hbehind⟩ := exists_beforeLast hdot
  have hbare : bareShin ∉ behind := fun hmem =>
    h.not_mem bareShin_ends (List.mem_append_right _ (List.mem_cons_of_mem _ hmem))
  -- the match ends at the last dot, and the marks after that dot hold no bare shin
  have hrest : (before ++ shinDot :: behind ++ after).drop (before.length + 1) = behind ++ after := by
    rw [List.append_assoc, List.cons_append, ← List.drop_drop, List.drop_left, List.drop_one,
      List.tail_cons]
  rw [composeShin, if_pos rfl, h.takeWhile_eq, hbefore]
  simp only [hrest]
  rw [composeShin_append hbare, eraseLast_append hbehind, List.cons_append, List.append_assoc]

theorem composeShin_of_run (hdot : shinDot ∉ marks) :
    composeShin (bareShin :: (marks ++ after)) = bareShin :: (marks ++ composeShin after) := by
  rw [Hebrew.composeShin, if_pos rfl, h.takeWhile_eq, beforeLast_of_not_mem hdot]
  simp only
  rw [composeShin_append (h.not_mem bareShin_ends)]

theorem composeSin_of_run : composeSin (bareShin :: (marks ++ after)) =
    if after.head? = some sinDot then sin :: (marks ++ composeSin after.tail)
    else bareShin :: (marks ++ composeSin after) := by
  have hnext : (marks ++ after)[marks.length]? = after.head? := by
    rw [List.getElem?_append_right (Nat.le_refl _), Nat.sub_self, List.head?_eq_getElem?]
  have hrest : (marks ++ after).drop (marks.length + 1) = after.tail := by
    rw [← List.drop_drop, List.drop_left, List.drop_one]
  rw [composeSin, if_pos rfl, h.takeWhile_eq]
  simp only [hnext, hrest]
  rw [composeSin_append (h.not_mem bareShin_ends), List.cons_append]

/-! ## A bare shin and its run -/

/-- A shin dot among the marks makes a shin, and the last such dot is dropped. -/
theorem compose_shin (hdot : shinDot ∈ marks) : compose (bareShin :: (marks ++ after)) =
    shin :: (eraseLast shinDot marks ++ compose after) := by
  have hbare : bareShin ∉ shin :: eraseLast shinDot marks := by
    intro hmem
    obtain heq | hmem := List.mem_cons.mp hmem
    · exact absurd heq (by decide)
    · exact h.not_mem bareShin_ends (mem_of_mem_eraseLast hmem)
  rw [compose, composeShin_of_mem h hdot, ← List.cons_append, composeSin_append hbare]
  rfl

/-- The first pass does not change the run that the second one looks at. -/
theorem compose_of_run (hdot : shinDot ∉ marks) : compose (bareShin :: (marks ++ after)) =
    if (composeShin after).head? = some sinDot then
      sin :: (marks ++ composeSin (composeShin after).tail)
    else bareShin :: (marks ++ compose after) := by
  rw [compose, composeShin_of_run h hdot, composeSin_of_run h.composeShin]
  rfl

omit h in
theorem compose_sin {rest : Text} (h : Run marks (sinDot :: rest)) (hdot : shinDot ∉ marks) :
    compose (bareShin :: (marks ++ sinDot :: rest)) = sin :: (marks ++ compose rest) := by
  have hfirst : composeShin (sinDot :: rest) = sinDot :: composeShin rest :=
    composeShin_cons (by decide) rest
  rw [compose_of_run h hdot, hfirst, List.head?_cons, if_pos rfl, List.tail_cons]
  rfl

theorem compose_bare (hdot : shinDot ∉ marks) (hsin : after.head? ≠ some sinDot) :
    compose (bareShin :: (marks ++ after)) = bareShin :: (marks ++ compose after) := by
  have hhead : (composeShin after).head? ≠ some sinDot := by
    intro hhead
    obtain hmem | heq := head?_composeShin hhead
    · exact hsin hmem
    · exact absurd heq (by decide)
  rw [compose_of_run h hdot, if_neg hhead]

end

theorem compose_cons {c : Char} (hc : c ≠ bareShin) (t : Text) : compose (c :: t) = c :: compose t := by
  rw [compose, composeShin_cons hc, composeSin_cons hc]
  rfl

/-! ## One pass -/

/-- The pass over a text that looks at the longest run of marks after each bare shin. A shin dot in
the run makes a shin and its last one is dropped, else a sin dot right after the run makes a sin and is
dropped, else the letter stays. -/
def composeOnce (t : Text) : Text :=
  match t with
  | [] => []
  | c :: rest =>
    if c = bareShin then
      let marks := rest.takeWhile isInterleaved
      let after := rest.dropWhile isInterleaved
      if shinDot ∈ marks then shin :: (eraseLast shinDot marks ++ composeOnce after)
      else if after.head? = some sinDot then sin :: (marks ++ composeOnce after.tail)
      else bareShin :: (marks ++ composeOnce after)
    else c :: composeOnce rest
termination_by t.length
decreasing_by
  all_goals
    have hle := (List.dropWhile_suffix (l := rest) isInterleaved).length_le
    simp only [List.length_tail, List.length_cons]
    omega

theorem compose_eq_composeOnce (t : Text) : compose t = composeOnce t := by
  fun_induction composeOnce t with
  | case1 => simp [compose, composeShin, composeSin]
  | case2 rest marks after hdot ih =>
    have h := compose_shin (run_of_text rest) hdot
    rwa [List.takeWhile_append_dropWhile, ih] at h
  | case3 rest marks after hdot hsin ih =>
    obtain ⟨rest', hafter⟩ := List.head?_eq_some_iff.mp hsin
    have hrun : Run marks (sinDot :: rest') := hafter ▸ run_of_text rest
    have h := compose_sin hrun hdot
    rw [← hafter, List.takeWhile_append_dropWhile] at h
    rw [h, ← ih, hafter, List.tail_cons]
  | case4 rest marks after hdot hsin ih =>
    have h := compose_bare (run_of_text rest) hdot hsin
    rwa [List.takeWhile_append_dropWhile, ih] at h
  | case5 c rest hc ih => rw [compose_cons hc, ih]

/-! ## Composed texts -/

/-- No bare shin has a shin dot in its run of marks, or a sin dot right after the run. -/
def IsComposed (t : Text) : Prop :=
  ∀ before rest, t = before ++ bareShin :: rest → shinDot ∉ rest.takeWhile isInterleaved ∧
    (rest.dropWhile isInterleaved).head? ≠ some sinDot

theorem IsComposed.of_append {s t : Text} (h : IsComposed (s ++ t)) : IsComposed t := by
  rintro before rest rfl
  exact h (s ++ before) rest (List.append_assoc ..).symm

theorem isComposed_append {s t : Text} (hs : bareShin ∉ s) (ht : IsComposed t) :
    IsComposed (s ++ t) := by
  intro before rest heq
  obtain ⟨between, hbefore, hbetween⟩ | ⟨between, hbefore, hbetween⟩ :=
    List.append_eq_append_iff.mp heq
  · exact ht between rest hbetween
  · cases between with
    | nil => exact ht [] rest hbetween.symm
    | cons c between =>
      obtain rfl : bareShin = c := (List.cons.inj hbetween).1
      exact absurd (by simp [hbefore]) hs

theorem isComposed_bare {marks after : Text} (h : Run marks after) (hdot : shinDot ∉ marks)
    (hsin : after.head? ≠ some sinDot) (hafter : IsComposed after) :
    IsComposed (bareShin :: (marks ++ after)) := by
  intro before rest heq
  cases before with
  | nil =>
    obtain rfl : marks ++ after = rest := (List.cons.inj heq).2
    rw [h.takeWhile_eq, h.dropWhile_eq]
    exact ⟨hdot, hsin⟩
  | cons c before =>
    exact isComposed_append (h.not_mem bareShin_ends) hafter before rest (List.cons.inj heq).2

/-- A dot at the start of a text stays there, so it cannot become part of a run. -/
theorem head?_compose {t : Text} {c : Char} (h : c ∈ (compose t).head?) :
    c ∈ t.head? ∨ c = shin ∨ c = sin := by
  cases t with
  | nil => simp [compose, composeShin, composeSin] at h
  | cons d rest =>
    by_cases hd : d = bareShin
    · subst hd
      have hrun := run_of_text rest
      by_cases hdot : shinDot ∈ rest.takeWhile isInterleaved
      · have heq := compose_shin hrun hdot
        rw [List.takeWhile_append_dropWhile] at heq
        rw [heq] at h
        exact .inr (.inl (by simpa [eq_comm] using h))
      · have heq := compose_of_run hrun hdot
        rw [List.takeWhile_append_dropWhile] at heq
        rw [heq] at h
        split at h
        · exact .inr (.inr (by simpa [eq_comm] using h))
        · exact .inl (by simpa using h)
    · rw [compose_cons hd] at h
      exact .inl (by simpa using h)

theorem Run.compose {marks after : Text} (h : Run marks after) : Run marks (compose after) := by
  refine ⟨h.marks, fun c hc => ?_⟩
  obtain hc | rfl | rfl := head?_compose hc
  · exact h.ends c hc
  · decide
  · decide

theorem isComposed_compose (t : Text) : IsComposed (compose t) := by
  rw [compose_eq_composeOnce]
  fun_induction composeOnce t with
  | case1 => exact fun before rest heq => absurd heq (by simp)
  | case2 rest marks after hdot ih =>
    have hbare : bareShin ∉ eraseLast shinDot marks := fun hmem =>
      (run_of_text rest).not_mem bareShin_ends (mem_of_mem_eraseLast hmem)
    rw [← List.cons_append]
    exact isComposed_append (List.not_mem_cons_of_ne_of_not_mem (by decide) hbare) ih
  | case3 rest marks after hdot hsin ih =>
    have hbare : bareShin ∉ marks := (run_of_text rest).not_mem bareShin_ends
    rw [← List.cons_append]
    exact isComposed_append (List.not_mem_cons_of_ne_of_not_mem (by decide) hbare) ih
  | case4 rest marks after hdot hsin ih =>
    rw [← compose_eq_composeOnce] at ih ⊢
    refine isComposed_bare (run_of_text rest).compose hdot (fun hhead => ?_) ih
    obtain hmem | heq | heq := head?_compose hhead
    · exact hsin hmem
    · exact absurd heq (by decide)
    · exact absurd heq (by decide)
  | case5 c rest hc ih =>
    rw [← List.singleton_append]
    exact isComposed_append (by simpa [eq_comm] using hc) ih

theorem compose_of_isComposed {t : Text} (h : IsComposed t) : compose t = t := by
  rw [compose_eq_composeOnce]
  fun_induction composeOnce t with
  | case1 => rfl
  | case2 rest marks after hdot ih => exact absurd hdot (h [] rest rfl).1
  | case3 rest marks after hdot hsin ih => exact absurd hsin (h [] rest rfl).2
  | case4 rest marks after hdot hsin ih =>
    have hafter : IsComposed after := by
      refine IsComposed.of_append (s := bareShin :: marks) ?_
      rwa [List.cons_append, List.takeWhile_append_dropWhile]
    rw [ih hafter, List.takeWhile_append_dropWhile]
  | case5 c rest hc ih => rw [ih (IsComposed.of_append (s := [c]) h)]

/-! ## Final forms -/

theorem toRegular_of_isInterleaved {c : Char} (hc : isInterleaved c = true) : toRegular c = c := by
  have hfinal : ∀ f ∈ finalForms, isInterleaved f.1 = false := by decide
  obtain h | ⟨f, hf, rfl, -⟩ := toRegular_cases c
  · exact h
  · rw [hfinal f hf] at hc
    cases hc

@[simp] theorem isInterleaved_toRegular (c : Char) : isInterleaved (toRegular c) = isInterleaved c := by
  have hforms : ∀ f ∈ finalForms, isInterleaved f.2 = isInterleaved f.1 := by decide
  obtain h | ⟨f, hf, rfl, h⟩ := toRegular_cases c
  · rw [h]
  · rw [h, hforms f hf]

@[simp] theorem regularize_cons (c : Char) (t : Text) : regularize
    (c :: t) = toRegular c :: regularize t := rfl

@[simp] theorem regularize_append (s t : Text) : regularize (s ++ t) = regularize s ++ regularize t :=
  List.map_append

theorem regularize_of_isInterleaved {s : Text} (hs : ∀ c ∈ s, isInterleaved c = true) :
    regularize s = s := by
  rw [regularize, List.map_congr_left fun c hc => toRegular_of_isInterleaved (hs c hc), List.map_id']

theorem Run.regularize {marks after : Text} (h : Run marks after) : Run marks (regularize after) := by
  refine ⟨h.marks, fun c hc => ?_⟩
  rw [Hebrew.regularize, List.head?_map, Option.mem_map] at hc
  obtain ⟨d, hd, rfl⟩ := hc
  rw [isInterleaved_toRegular, h.ends d hd]

theorem regularize_bareShin (rest : Text) : regularize (bareShin :: rest) =
    bareShin :: (rest.takeWhile isInterleaved ++ regularize (rest.dropWhile isInterleaved)) := by
  have hmarks := regularize_of_isInterleaved (run_of_text rest).marks
  conv_lhs => rw [← List.takeWhile_append_dropWhile (p := isInterleaved) (l := rest)]
  rw [regularize_cons, regularize_append, hmarks]
  rfl

/-- Final forms are neither marks nor dots, so they do not touch what is composed. -/
theorem regularize_compose (t : Text) : regularize (compose t) = compose (regularize t) := by
  rw [compose_eq_composeOnce]
  fun_induction composeOnce t with
  | case1 => simp [regularize, compose, composeShin, composeSin]
  | case2 rest marks after hdot ih =>
    have hrun := run_of_text rest
    have hlast : regularize (eraseLast shinDot marks) = eraseLast shinDot marks :=
      regularize_of_isInterleaved fun c hc => hrun.marks c (mem_of_mem_eraseLast hc)
    rw [regularize_bareShin rest, compose_shin hrun.regularize hdot, regularize_cons, regularize_append,
      hlast, ih]
    rfl
  | case3 rest marks after hdot hsin ih =>
    obtain ⟨rest', hafter⟩ := List.head?_eq_some_iff.mp hsin
    have hrun : Run marks (regularize after) := (run_of_text rest).regularize
    have hregular : regularize after = sinDot :: regularize rest' := by rw [hafter]; rfl
    rw [hregular] at hrun
    have hcompose := compose_sin hrun hdot
    rw [← hregular] at hcompose
    rw [regularize_bareShin rest, hcompose, regularize_cons, regularize_append,
      regularize_of_isInterleaved hrun.marks, ih, hafter]
    rfl
  | case4 rest marks after hdot hsin ih =>
    have hrun := run_of_text rest
    have hhead : (regularize after).head? ≠ some sinDot := by
      rw [regularize, List.head?_map, ne_eq, Option.map_eq_some_iff]
      rintro ⟨c, hc, heq⟩
      exact hsin (((toRegular_eq_iff (by decide)).mp heq) ▸ hc)
    rw [regularize_bareShin rest, compose_bare hrun.regularize hdot hhead, regularize_cons,
      regularize_append, regularize_of_isInterleaved hrun.marks, ih]
    rfl
  | case5 c rest hc ih =>
    have hne : toRegular c ≠ bareShin := fun h => hc ((toRegular_eq_iff (by decide)).mp h)
    rw [regularize_cons, ih, regularize_cons, compose_cons hne]

/-- The two passes are one pass. What they leave has nothing to compose, so composing it again changes
nothing, and it does not matter whether final forms are dealt with before or after. -/
theorem compose_in_one_pass (t : Text) :
    compose t = composeOnce t ∧ compose (compose t) = compose t ∧
      regularize (compose t) = compose (regularize t) ∧
      ∀ before rest, compose t = before ++ bareShin :: rest →
        shinDot ∉ rest.takeWhile isInterleaved ∧
          (rest.dropWhile isInterleaved).head? ≠ some sinDot :=
  ⟨compose_eq_composeOnce t, compose_of_isComposed (isComposed_compose t), regularize_compose t,
    isComposed_compose t⟩

end VerseSearch.Hebrew
