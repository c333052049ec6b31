import VerseSearch.Proofs.Query.Compilation

/-! # Marks in queries

White space is collapsed before marks are dropped, so marks leave no trace unless they stand alone
between white space: there they keep two spaces apart that would otherwise be one.

* `normalizeSource_plain`: the pattern of a query without notation for sets.
* `HasLoneMarks`: marks stand alone between white space.
* `dropNonLetters_collapseBlanks`: without lone marks the order of the two passes does not show.
* `HasLoneMarks.leavesMore`: with lone marks there are spaces that the other order does not leave.
* `compile_vocalized`: exactly the lone marks are not irrelevant.
-/

namespace VerseSearch.Query
set_option autoImplicit false

open Hebrew (isNonLetter toRegular toRegular_cases toRegular_of_not_final)
open Text (isBlank)
open Pattern (ReadsAs NoAppetite)

/-! ## Letters and white space -/

@[simp] theorem isBlank_space : isBlank ' ' = true := by decide

theorem isBlank_of_isNonLetter {c : Char} (hc : isNonLetter c = true) : isBlank c = false := by
  have hall : ∀ c ∈ Hebrew.nonLetters, isBlank c = false := by decide
  exact hall c (by simpa [isNonLetter] using hc)

theorem isNonLetter_of_isBlank {c : Char} (hc : isBlank c = true) : isNonLetter c = false := by
  rw [← Bool.not_eq_true]
  exact fun h => by simp [isBlank_of_isNonLetter h] at hc

/-- A property that the final forms, their letters and the set of shin and sin do not have holds of
what a character becomes exactly if it holds of the character. -/
theorem letterText_iff {P : Char → Bool} (hfinal : ∀ f ∈ Hebrew.finalForms, P f.1 = false ∧ P f.2 = false)
    (hset : ∀ d ∈ shinOrSinSet, P d = false) (hbare : P Hebrew.bareShin = false) (c : Char) :
    (P c = true → letterText c = [c]) ∧ (P c = false → ∀ d ∈ letterText c, P d = false) := by
  rw [letterText]
  by_cases hc : c = Hebrew.bareShin
  · subst hc
    simpa [hbare] using hset
  · rw [if_neg hc]
    refine ⟨fun hP => ?_, fun hP d hd => ?_⟩
    · rw [toRegular_of_not_final]
      intro f hf
      constructor <;> rintro rfl <;> simp [hfinal f hf] at hP
    · obtain rfl := List.mem_singleton.mp hd
      obtain h | ⟨f, hf, -, h⟩ := toRegular_cases c
      · rwa [h]
      · rw [h]
        exact (hfinal f hf).2

theorem letterText_blank (c : Char) : (isBlank c = true → letterText c = [c]) ∧
    (isBlank c = false → ∀ d ∈ letterText c, isBlank d = false) :=
  letterText_iff (by decide) (by decide) (by decide) c

theorem letterText_nonLetter (c : Char) : (isNonLetter c = true → letterText c = [c]) ∧
    (isNonLetter c = false → ∀ d ∈ letterText c, isNonLetter d = false) :=
  letterText_iff (by decide) (by decide) (by decide) c

theorem letterText_ne_nil (c : Char) : letterText c ≠ [] := by
  rw [letterText]
  split <;> simp [shinOrSinSet]

/-- Runs of white space may be collapsed before letters are dealt with. -/
theorem collapseBlanksFrom_flatMap (inRun : Bool) (t : Text) :
    collapseBlanksFrom inRun (t.flatMap letterText) =
      (collapseBlanksFrom inRun t).flatMap letterText := by
  have hspace : letterText ' ' = [' '] := (letterText_blank ' ').1 isBlank_space
  induction t generalizing inRun with
  | nil => rfl
  | cons c t ih =>
    rw [List.flatMap_cons]
    cases hc : isBlank c with
    | true =>
      rw [(letterText_blank c).1 hc, List.singleton_append]
      cases inRun <;> simp [collapseBlanksFrom, hc, ih, hspace]
    | false =>
      rw [collapseBlanksFrom_append (letterText_ne_nil c) ((letterText_blank c).2 hc), ih]
      simp [collapseBlanksFrom, hc]

@[simp] theorem dropNonLetters_cons (c : Char) (t : Text) :
    dropNonLetters (c :: t) = if isNonLetter c then dropNonLetters t else c :: dropNonLetters t := by
  cases h : isNonLetter c <;> simp [dropNonLetters, h]

/-- Marks may be dropped before letters are dealt with. -/
theorem dropNonLetters_flatMap (t : Text) :
    dropNonLetters (t.flatMap letterText) = (dropNonLetters t).flatMap letterText := by
  induction t with
  | nil => rfl
  | cons c t ih =>
    rw [List.flatMap_cons, dropNonLetters, List.filter_append, dropNonLetters_cons]
    change _ ++ dropNonLetters (t.flatMap letterText) = _
    rw [ih]
    cases hc : isNonLetter c with
    | true => simp [(letterText_nonLetter c).1 hc, hc]
    | false =>
      have hkeep : (letterText c).filter (fun d => !isNonLetter d) = letterText c :=
        List.filter_eq_self.mpr fun d hd => by rw [(letterText_nonLetter c).2 hc d hd]; rfl
      simp [hkeep]

theorem mem_collapseBlanks {c : Char} {t : Text} {inRun : Bool} (hc : c ∈ collapseBlanksFrom inRun t) :
    c = ' ' ∨ c ∈ t ∧ isBlank c = false := by
  induction t generalizing inRun with
  | nil => simp [collapseBlanksFrom] at hc
  | cons d t ih =>
    rw [collapseBlanksFrom] at hc
    split at hc
    · split at hc
      · exact (ih hc).imp_right (.imp_left (List.mem_cons_of_mem d))
      · obtain hc | hc := List.mem_cons.mp hc
        · exact .inl hc
        · exact (ih hc).imp_right (.imp_left (List.mem_cons_of_mem d))
    · next hd =>
      obtain rfl | hc := List.mem_cons.mp hc
      · exact .inr ⟨List.mem_cons_self, by simpa using hd⟩
      · exact (ih hc).imp_right (.imp_left (List.mem_cons_of_mem d))

theorem mem_collapseBlanksFrom {c : Char} (hc : isBlank c = false) {t : Text} (ht : c ∈ t)
    (inRun : Bool) : c ∈ collapseBlanksFrom inRun t := by
  induction t generalizing inRun with
  | nil => exact ht
  | cons d t ih =>
    rw [collapseBlanksFrom]
    obtain rfl | ht := List.mem_cons.mp ht
    · simp [hc]
    · split
      · split
        · exact ih ht true
        · exact List.mem_cons_of_mem _ (ih ht true)
      · exact List.mem_cons_of_mem _ (ih ht false)

theorem space_mem_collapseBlanks {t : Text} (ht : ∃ c ∈ t, isBlank c = true) :
    ' ' ∈ collapseBlanks t := by
  obtain ⟨b, hb, hblank⟩ := ht
  rw [collapseBlanks]
  induction t with
  | nil => exact absurd hb List.not_mem_nil
  | cons c t ih =>
    rw [collapseBlanksFrom]
    cases hc : isBlank c with
    | true => simp
    | false =>
      obtain rfl | hb := List.mem_cons.mp hb
      · simp [hc] at hblank
      · simpa using .inr (ih hb)

theorem collapseBlanks_of_isAllBlank {t : Text} (ht : t.isAllBlank = true) :
    collapseBlanks t = [] ∨ collapseBlanks t = [' '] := by
  have hrun : ∀ s : Text, (∀ c ∈ s, isBlank c = true) → collapseBlanksFrom true s = [] := by
    intro s hs
    induction s with
    | nil => rfl
    | cons c s ih => simp [collapseBlanksFrom, hs c, ih fun d hd => hs d (by simp [hd])]
  have hall : ∀ c ∈ t, isBlank c = true := by simpa [Text.isAllBlank] using ht
  cases t with
  | nil => exact .inl rfl
  | cons c t =>
    right
    simp [collapseBlanks, collapseBlanksFrom, hall c, hrun t fun d hd => hall d (by simp [hd])]

/-- The pattern of a query without brackets, ranges and dots: white space is collapsed, marks are
dropped, each sign is replaced, and slots for tags are put in. -/
theorem normalizeSource_plain {t : Text} (ht : ∀ c ∈ t, c ∉ interfering) :
    normalizeSource t = insertTagSlots ((dropNonLetters (collapseBlanks t)).flatMap signText) := by
  have hplain : ∀ c ∈ dropNonLetters (collapseBlanks t), c ∉ interfering := by
    intro c hc
    obtain rfl | ⟨hc, -⟩ := mem_collapseBlanks (List.mem_of_mem_filter hc)
    · decide
    · exact ht c hc
  rw [normalizeSource, substituteLetters_eq ht, collapseBlanks, collapseBlanksFrom_flatMap,
    dropNonLetters_flatMap]
  exact congrArg insertTagSlots (substituteSigns_eq hplain)

/-! ## Lone marks -/

/-- Marks stand alone between two characters of white space. -/
def HasLoneMarks (t : Text) : Prop :=
  ∃ before a marks b after, t = before ++ a :: (marks ++ b :: after) ∧ isBlank a = true ∧
    marks ≠ [] ∧ (∀ m ∈ marks, isNonLetter m = true) ∧ isBlank b = true

theorem HasLoneMarks.cons {t : Text} (c : Char) (h : HasLoneMarks t) : HasLoneMarks (c :: t) := by
  obtain ⟨before, a, marks, b, after, rfl, h⟩ := h
  exact ⟨c :: before, a, marks, b, after, rfl, h⟩

/-- It does not matter which white space stands first. -/
theorem HasLoneMarks.blank {t : Text} {c d : Char} (hc : isBlank c = true) (h : HasLoneMarks (d :: t)) :
    HasLoneMarks (c :: t) := by
  obtain ⟨before, a, marks, b, after, heq, ha, h⟩ := h
  cases before with
  | nil =>
    obtain ⟨rfl, rfl⟩ := List.cons.inj heq
    exact ⟨[], c, marks, b, after, rfl, hc, h⟩
  | cons e before =>
    obtain ⟨rfl, rfl⟩ := List.cons.inj heq
    exact ⟨c :: before, a, marks, b, after, rfl, ha, h⟩

/-- After white space and a mark, what follows the marks is no white space. -/
theorem head?_dropNonLetters {t : Text} {marks : Text} {a : Char} (ha : isBlank a = true)
    (hne : marks ≠ []) (hmarks : ∀ m ∈ marks, isNonLetter m = true)
    (h : ¬ HasLoneMarks (a :: (marks ++ t))) :
    ∀ c ∈ (dropNonLetters t).head?, isBlank c = false := by
  induction t generalizing marks with
  | nil => simp [dropNonLetters]
  | cons c t ih =>
    rw [dropNonLetters_cons]
    split
    · next hc =>
      refine @ih (marks ++ [c]) (by simp) ?_ (by simpa using h)
      simpa [or_imp, forall_and, hc] using hmarks
    · rintro d hd
      obtain rfl : c = d := by simpa using hd
      rw [← Bool.not_eq_true]
      exact fun hc => h ⟨[], a, marks, c, t, rfl, ha, hne, hmarks, hc⟩

theorem dropNonLetters_collapseBlanksFrom {inRun : Bool} {t : Text}
    (h : ¬ HasLoneMarks (if inRun then ' ' :: t else t)) :
    dropNonLetters (collapseBlanksFrom inRun t) = collapseBlanksFrom inRun (dropNonLetters t) := by
  have hspace : isNonLetter ' ' = false := by decide
  induction t generalizing inRun with
  | nil => rfl
  | cons c t ih =>
    have htail : ¬ HasLoneMarks t := by
      cases inRun with
      | false => exact fun ht => h (ht.cons c)
      | true => exact fun ht => h ((ht.cons c).cons ' ')
    cases hblank : isBlank c with
    | true =>
      have hmark := isNonLetter_of_isBlank hblank
      have hrun := @ih true fun ht => by
        cases inRun with
        | false => exact h (HasLoneMarks.blank hblank ht)
        | true => exact h ((HasLoneMarks.blank hblank ht).cons ' ')
      rw [dropNonLetters_cons, hmark]
      cases inRun <;> simp [collapseBlanksFrom, hblank, hspace, hrun]
    | false =>
      have hrest := @ih false htail
      cases hmark : isNonLetter c with
      | true =>
        simp only [collapseBlanksFrom, hblank, dropNonLetters_cons, hmark, Bool.false_eq_true, if_false,
          if_true, hrest]
        cases inRun with
        | false => rfl
        | true =>
          have hmarks : ∀ m ∈ [c], isNonLetter m = true := by simpa using hmark
          -- a mark ends the run, but no white space comes after the marks
          exact (collapseBlanksFrom_of_head?
            (head?_dropNonLetters isBlank_space (by simp) hmarks h) true).symm
      | false => simp [collapseBlanksFrom, hblank, hmark, hrest]

/-- Without lone marks it does not matter whether white space is collapsed or marks are dropped first. -/
theorem dropNonLetters_collapseBlanks {t : Text} (h : ¬ HasLoneMarks t) :
    dropNonLetters (collapseBlanks t) = collapseBlanks (dropNonLetters t) :=
  @dropNonLetters_collapseBlanksFrom false t h

/-! ## Spaces that are left -/

/-- If white space is collapsed first, at least `n` more spaces are left than if marks are dropped
first, also if the text continues a run and the text without marks does so, too. -/
def LeavesMore (n : ℕ) (t : Text) : Prop :=
  ∀ inRun inRun' : Bool, (inRun = true → inRun' = true) →
    (collapseBlanksFrom inRun' (dropNonLetters t)).count ' ' + n ≤
      (dropNonLetters (collapseBlanksFrom inRun t)).count ' '

theorem LeavesMore.cons {n : ℕ} {t : Text} (h : LeavesMore n t) (c : Char) : LeavesMore n (c :: t) := by
  intro inRun inRun' himp
  have hspace : isNonLetter ' ' = false := by decide
  cases hblank : isBlank c with
  | true =>
    have hmark := isNonLetter_of_isBlank hblank
    have hrun := h true true id
    cases inRun <;> cases inRun' <;>
      simp_all [collapseBlanksFrom] <;> omega
  | false =>
    cases hmark : isNonLetter c with
    | true =>
      simpa [collapseBlanksFrom, hblank, hmark] using h false inRun' (by simp)
    | false =>
      have hne : c ≠ ' ' := by
        rintro rfl
        exact absurd hblank (by decide)
      simpa [collapseBlanksFrom, hblank, hmark, hne] using h false false id

theorem leavesMore_zero (t : Text) : LeavesMore 0 t := by
  induction t with
  | nil => exact fun _ _ _ => le_rfl
  | cons c t ih => exact ih.cons c

theorem dropNonLetters_marks {marks : Text} (hmarks : ∀ m ∈ marks, isNonLetter m = true) (t : Text) :
    dropNonLetters (marks ++ t) = dropNonLetters t := by
  rw [dropNonLetters, List.filter_append, List.filter_eq_nil_iff.mpr (by simpa using hmarks)]
  rfl

/-- Lone marks keep two spaces apart. -/
theorem HasLoneMarks.leavesMore {t : Text} (h : HasLoneMarks t) : LeavesMore 1 t := by
  obtain ⟨before, a, marks, b, after, rfl, ha, hne, hmarks, hb⟩ := h
  have hspace : isNonLetter ' ' = false := by decide
  induction before with
  | cons c before ih => exact ih.cons c
  | nil =>
    intro inRun inRun' himp
    -- the marks end the run that `a` belongs to, so `b` leaves a space of its own
    have hafter := leavesMore_zero after true true id
    have hfirst : dropNonLetters (collapseBlanksFrom true (marks ++ b :: after)) =
        ' ' :: dropNonLetters (collapseBlanksFrom true after) := by
      rw [collapseBlanksFrom_append hne fun m hm => isBlank_of_isNonLetter (hmarks m hm),
        dropNonLetters_marks hmarks]
      simp [collapseBlanksFrom, hb, hspace]
    have hsecond : collapseBlanksFrom true (dropNonLetters (marks ++ b :: after)) =
        collapseBlanksFrom true (dropNonLetters after) := by
      rw [dropNonLetters_marks hmarks, dropNonLetters_cons, isNonLetter_of_isBlank hb]
      simp [collapseBlanksFrom, hb]
    cases inRun <;> cases inRun' <;>
      simp_all [collapseBlanksFrom, isNonLetter_of_isBlank]
    omega

/-! ## Sources -/

@[simp] theorem count_insertTagSlots (t : Text) : (insertTagSlots t).count ' ' = t.count ' ' := by
  have hslot : tagSlot.count ' ' = 0 := by decide
  fun_induction insertTagSlots t with
  | case1 => rfl
  | case2 rest ih => simp [ih]
  | case3 c rest hc ih => simp [List.count_cons, List.count_append, hslot, ih]
  | case4 c rest hrest ih => simp [List.count_cons, ih]

@[simp] theorem getLast?_insertTagSlots (t : Text) : (insertTagSlots t).getLast? = t.getLast? := by
  fun_induction insertTagSlots t with
  | case1 => rfl
  | case2 rest ih => rw [List.getLast?_cons, List.getLast?_cons, ih]
  | case3 c rest hc ih =>
    simp [List.getLast?_cons, ih]
  | case4 c rest hrest ih => rw [List.getLast?_cons, List.getLast?_cons, ih]

theorem mem_insertTagSlots {c : Char} {t : Text} (hc : c ∈ t) : c ∈ insertTagSlots t := by
  fun_induction insertTagSlots t with
  | case1 => exact hc
  | case2 rest ih => simpa using (List.mem_cons.mp hc).imp_right ih
  | case3 d rest hd ih =>
    obtain rfl | rfl | hc := by simpa using hc
    · simp
    · simp
    · simp [ih hc]
  | case4 d rest hrest ih => simpa using (List.mem_cons.mp hc).imp_right ih

/-- Signs and spaces. -/
def IsPlain (t : Text) : Prop := ∀ c ∈ t, isSign c = true ∨ c = ' '

@[simp] theorem signText_space : signText ' ' = [' '] := by decide

theorem count_flatMap_signText {t : Text} (ht : IsPlain t) :
    (t.flatMap signText).count ' ' = t.count ' ' := by
  induction t with
  | nil => rfl
  | cons c t ih =>
    rw [List.flatMap_cons, List.count_append, ih fun d hd => ht d (List.mem_cons_of_mem c hd),
      List.count_cons]
    obtain hc | rfl := ht c (by simp)
    · have hord := (isSign_spec hc).1
      have hzero : (signText c).count ' ' = 0 := List.count_eq_zero.mpr fun h =>
        absurd ((signText_spec hord).2 ' ' h) (by decide)
      have hne : c ≠ ' ' := by
        rintro rfl
        exact absurd hord (by decide)
      simp [hzero, hne]
    · simp [Nat.add_comm]

theorem signText_of_plain [Pattern.CharNames] {c : Char} (hc : isSign c = true ∨ c = ' ') :
    (signText c ≠ [] ∧ (signText c).getLast? ≠ some '>') ∧ ((c ≠ ' ' → ' ' ∉ signText c) ∧
      (ReadsAs (signText c) (matched c) ∧ NoAppetite (signText c))) := by
  obtain hc | rfl := hc
  · obtain ⟨hord, hsigns, -, hlast⟩ := isSign_spec hc
    refine ⟨⟨(signText_spec hord).1, fun h => (hlast '>' (List.mem_of_getLast? h)).1 rfl⟩,
      fun _ h => absurd ((signText_spec hord).2 ' ' h) (by decide), readsAs_signText hsigns⟩
  · exact ⟨by decide, by simp, readsAs_signText (by decide)⟩

theorem insertTagSlots_append_of_head? {s t : Text} (hs : ' ' ∉ s) (ht : t.head? ≠ some ' ') :
    insertTagSlots (s ++ t) = s ++ insertTagSlots t := by
  induction s with
  | nil => rfl
  | cons c s ih =>
    have hne : (s ++ t).head? ≠ some ' ' := by
      cases s with
      | nil => exact ht
      | cons d s =>
        intro h
        exact hs (by simp [Option.some.inj h])
    rw [List.cons_append, insertTagSlots_cons hne, ih (List.not_mem_of_not_mem_cons hs), List.cons_append]

/-- Signs and spaces are read as some language, wherever slots for tags have been put in. -/
theorem readsAs_insertTagSlots [Pattern.CharNames] {t : Text} (ht : IsPlain t) :
    ∃ L, ReadsAs (insertTagSlots (t.flatMap signText)) L ∧
      NoAppetite (insertTagSlots (t.flatMap signText)) := by
  have hspace := readsAs_self (c := ' ') (by decide)
  -- the induction follows the places of the slots, which are the same before signs are replaced
  induction t using insertTagSlots.induct with
  | case1 => exact ⟨1, Pattern.readsAs_nil, by simp [insertTagSlots, NoAppetite]⟩
  | case2 rest =>
    obtain h | h := ht '>' (by simp)
    · exact absurd h (by decide)
    · exact absurd h (by decide)
  | case3 c rest hc ih =>
    obtain ⟨⟨hne, hlast⟩, hspaces, hreads, hhead⟩ := signText_of_plain (ht c (by simp))
    obtain ⟨L, hrest, hnext⟩ := ih fun d hd => ht d (by simp [hd])
    have heq : insertTagSlots ((c :: ' ' :: rest).flatMap signText) =
        signText c ++ (tagSlot ++ ' ' :: insertTagSlots (rest.flatMap signText)) := by
      rw [List.flatMap_cons, List.flatMap_cons, signText_space, List.singleton_append]
      by_cases hc' : c = ' '
      · subst hc'
        rw [signText_space, List.singleton_append, insertTagSlots, if_neg hc]
        rfl
      · exact insertTagSlots_append hne (hspaces hc') hlast _
    have hslot := readsOne_tagSlot.readsAs.append (hspace.append hrest hnext) (.cons (by decide) _)
    rw [heq]
    exact ⟨_, hreads.append hslot (.cons (by decide) _), hhead.append (.cons (by decide) _)⟩
  | case4 c rest hrest ih =>
    obtain ⟨-, hspaces, hreads, hhead⟩ := signText_of_plain (ht c (by simp))
    obtain ⟨L, hafter, hnext⟩ := ih fun d hd => ht d (by simp [hd])
    have hstart : (rest.flatMap signText).head? ≠ some ' ' := by
      cases rest with
      | nil => simp
      | cons d rest =>
        have hd : d ≠ ' ' := fun h => hrest rest (by rw [h])
        obtain ⟨⟨hne, -⟩, hnone, -⟩ := signText_of_plain (ht d (by simp))
        rw [List.flatMap_cons, List.head?_append_of_ne_nil _ hne]
        exact fun h => hnone hd (List.mem_of_head? h)
    have heq : insertTagSlots ((c :: rest).flatMap signText) =
        signText c ++ insertTagSlots (rest.flatMap signText) := by
      rw [List.flatMap_cons]
      by_cases hc : c = ' '
      · rw [hc, signText_space]
        exact insertTagSlots_cons hstart
      · exact insertTagSlots_append_of_head? (hspaces hc) hstart
    rw [heq]
    exact ⟨_, hreads.append hafter hnext, hhead.append hnext⟩

/-- A query of signs and spaces is a pattern. -/
theorem parse_plain [Pattern.CharNames] {t : Text} (ht : IsPlain t) :
    ∃ p, Pattern.parse (insertTagSlots (t.flatMap signText)) = .ok p := by
  obtain ⟨L, hreads, -⟩ := readsAs_insertTagSlots ht
  have hlast : (insertTagSlots (t.flatMap signText)).getLast? ≠ some '\\' := by
    rw [getLast?_insertTagSlots]
    intro h
    obtain ⟨c, hc, hd⟩ := List.mem_flatMap.mp (List.mem_of_getLast? h)
    obtain hc | rfl := ht c hc
    · exact ((isSign_spec hc).2.2.2 '\\' hd).2 rfl
    · exact absurd hd (by decide)
  obtain ⟨p, hp, -⟩ := Pattern.parse_of_readsAs hreads hlast
  exact ⟨p, hp⟩

theorem isAllBlank_insertTagSlots {t : Text} (ht : IsPlain t) :
    (insertTagSlots (t.flatMap signText)).isAllBlank = true ↔ t = [] ∨ t = [' '] := by
  constructor
  · intro h
    have hblank : ∀ d ∈ insertTagSlots (t.flatMap signText), isBlank d = true := by
      simpa [Text.isAllBlank] using h
    have hall : ∀ c ∈ t, c = ' ' := by
      intro c hc
      refine (ht c hc).resolve_left fun hsign => ?_
      obtain ⟨hne, hd⟩ := signText_spec (isSign_spec hsign).1
      obtain ⟨d, hmem⟩ := List.exists_mem_of_ne_nil _ hne
      have htrue := hblank d (mem_insertTagSlots (List.mem_flatMap.mpr ⟨c, hc, hmem⟩))
      rw [hd d hmem] at htrue
      exact Bool.false_ne_true htrue
    obtain _ | ⟨c, _ | ⟨d, rest⟩⟩ := t
    · exact .inl rfl
    · exact .inr (by rw [hall c (by simp)])
    · obtain rfl := hall c (by simp)
      obtain rfl := hall d (by simp)
      have hslots : insertTagSlots ((' ' :: ' ' :: rest).flatMap signText) =
          ' ' :: (tagSlot ++ ' ' :: insertTagSlots (rest.flatMap signText)) := by
        simp [insertTagSlots]
      have hopen : '(' ∈ tagSlot := by decide
      have hfalse : isBlank '(' = false := by decide
      rw [hslots] at hblank
      simp [hblank '(' (by simp [hopen])] at hfalse
  · rintro (rfl | rfl)
    · rfl
    · simp [insertTagSlots, Text.isAllBlank]

/-! ## Queries -/

/-- Signs, white space and marks. -/
def IsVocalized (t : Text) : Prop :=
  ∀ c ∈ t, isSign c = true ∨ isBlank c = true ∨ isNonLetter c = true

section
variable {t : Text} (ht : IsVocalized t)
include ht

theorem IsVocalized.dropNonLetters : IsVocalized (dropNonLetters t) :=
  fun c hc => ht c (List.mem_of_mem_filter hc)

theorem IsVocalized.not_mem {c : Char} (hsign : isSign c = false) (hblank : isBlank c = false)
    (hmark : isNonLetter c = false) : c ∉ t := by
  intro h
  simpa [hsign, hblank, hmark] using ht c h

theorem IsVocalized.head?_ne : t.head? ≠ some '2' := fun h =>
  ht.not_mem (by decide) (by decide) (by decide) (List.mem_of_head? h)

theorem IsVocalized.no_block : '<' ∉ t := ht.not_mem (by decide) (by decide) (by decide)

theorem IsVocalized.isPlain : IsPlain (Query.dropNonLetters (collapseBlanks t)) := by
  intro c hc
  obtain ⟨hc, hkept⟩ := List.mem_filter.mp hc
  have hmark : isNonLetter c = false := by simpa using hkept
  obtain h | ⟨hc, hblank⟩ := mem_collapseBlanks hc
  · exact .inr h
  · left
    simpa [hblank, hmark] using ht c hc

theorem IsVocalized.normalizeSource_eq : normalizeSource t =
    insertTagSlots ((Query.dropNonLetters (collapseBlanks t)).flatMap signText) := by
  refine normalizeSource_plain fun c hc hmem => ?_
  have hall : ∀ c ∈ interfering, isSign c = false ∧ isBlank c = false ∧ isNonLetter c = false := by
    decide
  obtain ⟨hsign, hblank, hmark⟩ := hall c hmem
  exact ht.not_mem hsign hblank hmark hc

/-- Nothing is left of a query without signs, unless it has lone marks. -/
theorem IsVocalized.isAllBlank_normalizeSource : (normalizeSource t).isAllBlank = true ↔
    (∀ c ∈ t, isSign c = false) ∧ ¬ HasLoneMarks t := by
  rw [ht.normalizeSource_eq, isAllBlank_insertTagSlots ht.isPlain]
  by_cases hmarks : HasLoneMarks t
  · obtain ⟨before, a, marks, b, after, rfl, ha, -⟩ := id hmarks
    have hspace : ' ' ∈ collapseBlanks (Query.dropNonLetters (before ++ a :: (marks ++ b :: after))) :=
      space_mem_collapseBlanks ⟨a, by simp [Query.dropNonLetters, isNonLetter_of_isBlank ha], ha⟩
    have hpos := List.count_pos_iff.mpr hspace
    have hcount := hmarks.leavesMore false false id
    simp only [hmarks, not_true_eq_false, and_false, iff_false]
    rw [collapseBlanks] at hpos ⊢
    rintro (h | h)
    · rw [h, List.count_nil] at hcount
      omega
    · rw [h, List.count_singleton_self] at hcount
      omega
  · rw [dropNonLetters_collapseBlanks hmarks]
    simp only [hmarks, not_false_eq_true, and_true]
    constructor
    · intro h c hc
      rw [← Bool.not_eq_true]
      intro hsign
      obtain ⟨-, hblank, hmark⟩ := isOrdinary_iff.mp (isSign_spec hsign).1
      have hmem : c ∈ collapseBlanks (Query.dropNonLetters t) :=
        mem_collapseBlanksFrom hblank (List.mem_filter.mpr ⟨hc, by simp [hmark]⟩) false
      obtain h | h := h
      · simp [h] at hmem
      · rw [h, List.mem_singleton] at hmem
        rw [hmem] at hblank
        exact absurd hblank (by decide)
    · intro h
      refine collapseBlanks_of_isAllBlank ?_
      rw [Text.isAllBlank, List.all_eq_true]
      intro c hc
      obtain ⟨hc, hkept⟩ := List.mem_filter.mp hc
      have hmark : isNonLetter c = false := by simpa using hkept
      simpa [h c hc, hmark] using ht c hc

variable (l : Lexicon) (verbsOnly : Bool) (limit : ℕ)

/-- A query that leaves nothing is empty. -/
theorem IsVocalized.compile_eq_empty [Pattern.CharNames] [Text.Ranking]
    (hsigns : ∀ c ∈ t, isSign c = false) (hmarks : ¬ HasLoneMarks t) :
    compile l t verbsOnly limit = .error (.query .empty) := by
  cases hblank : t.isAllBlank with
  | true =>
    rw [compile, hblank]
    rfl
  | false =>
    have hresolved : resolvePieces l verbsOnly limit (splitBlocks (t ++ [])) = _ :=
      resolves_text ht.no_block []
    have hnothing := ht.isAllBlank_normalizeSource.mpr ⟨hsigns, hmarks⟩
    rw [List.append_nil] at hresolved
    rw [compile, hblank, expandRoot_of_head? ht.head?_ne]
    simp only [Bool.false_eq_true, if_false, hresolved]
    simp [splitBlocks, splitBlocksFrom, resolvePieces, Except.map, hnothing]

/-- A query that leaves something compiles to its pattern. -/
theorem IsVocalized.compile_eq_ok [Pattern.CharNames] [Text.Ranking]
    (h : (∃ c ∈ t, isSign c = true) ∨ HasLoneMarks t) :
    ∃ p, Pattern.parse (normalizeSource t) = .ok p ∧
      compile l t verbsOnly limit = .ok ⟨normalizeSource t, p, verbsOnly, []⟩ := by
  have hblank : t.isAllBlank = false := by
    rw [Text.isAllBlank, List.all_eq_false]
    obtain ⟨c, hc, hsign⟩ | ⟨before, a, marks, b, after, rfl, -, hne, hmarks, -⟩ := h
    · exact ⟨c, hc, by simp [(isOrdinary_iff.mp (isSign_spec hsign).1).2.1]⟩
    · obtain ⟨m, hm⟩ := List.exists_mem_of_ne_nil _ hne
      exact ⟨m, by simp [hm], by simp [isBlank_of_isNonLetter (hmarks m hm)]⟩
  have hsource : (normalizeSource t).isAllBlank = false := by
    rw [← Bool.not_eq_true, ht.isAllBlank_normalizeSource]
    rintro ⟨hsigns, hmarks⟩
    obtain ⟨c, hc, hsign⟩ | hlone := h
    · simp [hsigns c hc] at hsign
    · exact hmarks hlone
  obtain ⟨p, hp⟩ : ∃ p, Pattern.parse (normalizeSource t) = .ok p := by
    rw [ht.normalizeSource_eq]
    exact parse_plain ht.isPlain
  exact ⟨p, hp, compile_of_resolves hblank ht.head?_ne (resolves_text ht.no_block) hsource hp⟩

end

@[simp] theorem dropNonLetters_dropNonLetters (t : Text) :
    dropNonLetters (dropNonLetters t) = dropNonLetters t := by
  simp [dropNonLetters]

theorem not_hasLoneMarks_dropNonLetters (t : Text) : ¬ HasLoneMarks (dropNonLetters t) := by
  rintro ⟨before, a, marks, b, after, heq, -, hne, hmarks, -⟩
  obtain ⟨m, hm⟩ := List.exists_mem_of_ne_nil _ hne
  have hmem : m ∈ dropNonLetters t := by
    rw [heq]
    simp [hm]
  have hkept := (List.mem_filter.mp hmem).2
  simp [hmarks m hm] at hkept

theorem dropNonLetters_collapseBlanks_dropNonLetters (t : Text) :
    dropNonLetters (collapseBlanks (dropNonLetters t)) = collapseBlanks (dropNonLetters t) := by
  rw [dropNonLetters_collapseBlanks (not_hasLoneMarks_dropNonLetters t), dropNonLetters_dropNonLetters]

/-- Without lone marks the pattern is that of the query without its marks. -/
theorem normalizeSource_dropNonLetters {t : Text} (ht : IsVocalized t) (hmarks : ¬ HasLoneMarks t) :
    normalizeSource (dropNonLetters t) = normalizeSource t := by
  rw [ht.dropNonLetters.normalizeSource_eq, ht.normalizeSource_eq, dropNonLetters_collapseBlanks hmarks,
    dropNonLetters_collapseBlanks_dropNonLetters]

/-- With lone marks the pattern has a space more than that of the query without its marks. -/
theorem normalizeSource_ne {t : Text} (ht : IsVocalized t) (hmarks : HasLoneMarks t) :
    normalizeSource (dropNonLetters t) ≠ normalizeSource t := by
  intro heq
  have hplain := ht.dropNonLetters.isPlain
  have hcount := hmarks.leavesMore false false id
  rw [ht.dropNonLetters.normalizeSource_eq, ht.normalizeSource_eq] at heq
  have hcounts := congrArg (List.count ' ') heq
  rw [count_insertTagSlots, count_insertTagSlots, count_flatMap_signText hplain,
    count_flatMap_signText ht.isPlain,
    dropNonLetters_collapseBlanks_dropNonLetters] at hcounts
  simp only [collapseBlanks] at hcounts
  omega

@[simp] theorem exists_sign_dropNonLetters {t : Text} :
    (∃ c ∈ dropNonLetters t, isSign c = true) ↔ ∃ c ∈ t, isSign c = true := by
  constructor
  · rintro ⟨c, hc, hsign⟩
    exact ⟨c, List.mem_of_mem_filter hc, hsign⟩
  · rintro ⟨c, hc, hsign⟩
    have hmark := (isOrdinary_iff.mp (isSign_spec hsign).1).2.2
    exact ⟨c, List.mem_filter.mpr ⟨hc, by simp [hmark]⟩, hsign⟩

/-- A query of letters, signs, white space and marks and the same query without its marks compile to the
same pattern, or both are empty, exactly if no marks stand alone between white space. A query with a
letter compiles with and without its marks, and a query without one is empty without its marks. -/
theorem compile_vocalized [Pattern.CharNames] [Text.Ranking] (l : Lexicon) (verbsOnly : Bool)
    (limit : ℕ) {t : Text} (ht : IsVocalized t) :
    ((compile l t verbsOnly limit).map Compiled.source =
        (compile l (dropNonLetters t) verbsOnly limit).map Compiled.source ↔ ¬ HasLoneMarks t) ∧
      (¬ HasLoneMarks t →
        compile l t verbsOnly limit = compile l (dropNonLetters t) verbsOnly limit) ∧
      ((∃ c ∈ t, isSign c = true) → (∃ c, compile l t verbsOnly limit = .ok c) ∧
        ∃ c, compile l (dropNonLetters t) verbsOnly limit = .ok c) ∧
      ((∀ c ∈ t, isSign c = false) →
        compile l (dropNonLetters t) verbsOnly limit = .error (.query .empty) ∧
          (compile l t verbsOnly limit = .error (.query .empty) ↔ ¬ HasLoneMarks t)) := by
  have hnone := not_hasLoneMarks_dropNonLetters t
  have hempty : ∀ {s : Text}, (∀ c ∈ s, isSign c = false) ↔ ¬ ∃ c ∈ s, isSign c = true := by simp
  by_cases hmarks : HasLoneMarks t
  · obtain ⟨p, -, hp⟩ := ht.compile_eq_ok l verbsOnly limit (.inr hmarks)
    by_cases hsign : ∃ c ∈ t, isSign c = true
    · obtain ⟨q, -, hq⟩ := ht.dropNonLetters.compile_eq_ok l verbsOnly limit
        (.inl (exists_sign_dropNonLetters.mpr hsign))
      have hne := normalizeSource_ne ht hmarks
      simp [hp, hq, hmarks, hempty, hsign, Except.map, hne.symm]
    · have hq := ht.dropNonLetters.compile_eq_empty l verbsOnly limit
        (hempty.mpr fun h => hsign (exists_sign_dropNonLetters.mp h)) hnone
      simp [hp, hq, hmarks, hsign, Except.map]
  · have hsource := normalizeSource_dropNonLetters ht hmarks
    by_cases hsign : ∃ c ∈ t, isSign c = true
    · obtain ⟨p, hparse, hp⟩ := ht.compile_eq_ok l verbsOnly limit (.inl hsign)
      obtain ⟨q, hparse', hq⟩ := ht.dropNonLetters.compile_eq_ok l verbsOnly limit
        (.inl (exists_sign_dropNonLetters.mpr hsign))
      rw [hsource, hparse] at hparse'
      obtain rfl := Except.ok.inj hparse'
      simp [hp, hq, hsource, hmarks, hempty, hsign, Except.map]
    · have hp := ht.compile_eq_empty l verbsOnly limit (hempty.mpr hsign) hmarks
      have hq := ht.dropNonLetters.compile_eq_empty l verbsOnly limit
        (hempty.mpr fun h => hsign (exists_sign_dropNonLetters.mp h)) hnone
      simp [hp, hq, hmarks, hsign]

/-- A sheva between two spaces makes a pattern, though there is nothing to search for. -/
theorem compile_vocalized_of_lone_sheva :
    let t : Text := [' ', '\u05b0', ' ']
    IsVocalized t ∧ compile ⟨[]⟩ (dropNonLetters t) false 5 = .error (.query .empty) ∧
      (compile ⟨[]⟩ t false 5).map Compiled.source ≠
        (compile ⟨[]⟩ (dropNonLetters t) false 5).map Compiled.source := by
  intro t
  have ht : IsVocalized [' ', '\u05b0', ' '] := by
    unfold IsVocalized
    decide
  have hmarks : HasLoneMarks t :=
    ⟨[], ' ', ['\u05b0'], ' ', [], rfl, by decide, by simp, by decide, by decide⟩
  obtain ⟨hsource, -, -, hnothing⟩ := compile_vocalized ⟨[]⟩ false 5 ht
  exact ⟨ht, (hnothing (by decide)).1, fun h => hsource.mp h hmarks⟩

end VerseSearch.Query
