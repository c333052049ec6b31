import Mathlib.Data.List.Basic
import VerseSearch.Proofs.Hebrew.Normalization
import VerseSearch.Query.Compile

/-! # What the substitutions do to a query

A query of letters, signs and blocks holds no brackets of its own, so each of its characters is
replaced by itself or by one bracket expression, and the order of the substitutions does not show.

* `Substitution.apply_of_not_mem`: a target that does not occur is not replaced.
* `Substitution.apply_flatMap`: the target of one character in a text of parts with closed brackets.
* `signText`: what one character of a query becomes.
* `spaced`: items with single spaces between them.
* `normalizeSource_spaced`: the substitutions work on each item, and a slot for a tag stands before
  each space between or after them.
-/

namespace VerseSearch.Query
set_option autoImplicit false

open Hebrew (bareShin shin sin shinDot sinDot toRegular toRegular_eq_iff toRegular_cases
  mem_regularize_iff)

/-! ## Substitutions -/

namespace Substitution

theorem applyFrom_of_occursAt {r : Substitution} {previous : Option Char} {c : Char} {t : Text}
    (h : r.occursAt previous (c :: t) = true) (inside : Bool) :
    r.applyFrom 0 previous inside (c :: t) = r.replacement inside ++
      r.applyFrom (r.target.length - 1) (some c) (insideAfter inside c) t := by
  rw [applyFrom, if_pos h]

theorem applyFrom_of_not_occursAt {r : Substitution} {previous : Option Char} {c : Char} {t : Text}
    (h : r.occursAt previous (c :: t) = false) (inside : Bool) :
    r.applyFrom 0 previous inside (c :: t) = c :: r.applyFrom 0 (some c) (insideAfter inside c) t := by
  rw [applyFrom, h]
  rfl

theorem applyFrom_of_not_mem {r : Substitution} {x : Char} (hx : x ∈ r.target) {t : Text}
    (ht : x ∉ t) (previous : Option Char) (inside : Bool) :
    r.applyFrom 0 previous inside t = t := by
  induction t generalizing previous inside with
  | nil => rfl
  | cons c t ih =>
    have hoccurs : r.occursAt previous (c :: t) = false := by
      rw [occursAt, Bool.and_eq_false_iff]
      left
      rw [Bool.eq_false_iff]
      intro h
      exact ht ((List.isPrefixOf_iff_prefix.mp h).subset hx)
    rw [applyFrom, hoccurs, ih (fun h => ht (List.mem_cons_of_mem c h))]
    rfl

theorem apply_of_not_mem {r : Substitution} {x : Char} (hx : x ∈ r.target) {t : Text}
    (ht : x ∉ t) : r.apply t = t := applyFrom_of_not_mem hx ht none false

section
variable {r : Substitution} {x : Char} (htarget : r.target = [x]) (hafter : r.notAfter = none)
include htarget hafter

theorem applyFrom_cons (previous : Option Char) (inside : Bool) (c : Char) (t : Text) :
    r.applyFrom 0 previous inside (c :: t) = (if c = x then r.replacement inside else [c]) ++
      r.applyFrom 0 (some c) (insideAfter inside c) t := by
  rw [applyFrom]
  by_cases h : c = x
  · simp [occursAt, htarget, hafter, h]
  · simp [occursAt, htarget, hafter, h, Ne.symm h]

theorem applyFrom_append (s t : Text) (previous : Option Char) (inside : Bool) :
    r.applyFrom 0 previous inside (s ++ t) =
      r.applyFrom 0 previous inside s ++ r.applyFrom 0 none (s.foldl insideAfter inside) t := by
  induction s generalizing previous inside with
  | nil =>
    cases t with
    | nil => rfl
    | cons c t => simp only [List.nil_append, List.foldl_nil, applyFrom_cons htarget hafter]; rfl
  | cons c s ih =>
    rw [List.cons_append, applyFrom_cons htarget hafter, applyFrom_cons htarget hafter, ih,
      List.append_assoc, List.foldl_cons]

/-- In a text of parts that leave no bracket open, each part is dealt with by itself. -/
theorem apply_flatMap {f : Char → Text} {t : Text} (hf : ∀ c ∈ t, isInside (f c) = false) :
    r.apply (t.flatMap f) = t.flatMap fun c => r.apply (f c) := by
  induction t with
  | nil => rfl
  | cons c t ih =>
    have hc : (f c).foldl insideAfter false = false := hf c (by simp)
    rw [List.flatMap_cons, List.flatMap_cons, ← ih fun d hd => hf d (by simp [hd]), apply,
      applyFrom_append htarget hafter, hc]
    rfl

end

end Substitution

/-! ## Letters -/

/-- What a character becomes when final forms and the bare shin are dealt with. -/
def letterText (c : Char) : Text := if c = bareShin then shinOrSinSet else [toRegular c]

/-- What a character of a query becomes. -/
def signText (c : Char) : Text :=
  if c = '@' then matresSubstitution.outside
  else if c = '#' then anyLetterSubstitution.outside
  else letterText c

/-- The characters that belong to the notation of sets or to a composed letter. -/
def interfering : Text := ['[', ']', '-', shinDot, sinDot]

/-- No mark, no white space, and nothing that belongs to the notation of sets. -/
def isOrdinary (c : Char) : Bool :=
  !interfering.contains c && !Text.isBlank c && !Hebrew.isNonLetter c

theorem isOrdinary_iff {c : Char} : isOrdinary c = true ↔
    c ∉ interfering ∧ Text.isBlank c = false ∧ Hebrew.isNonLetter c = false := by
  simp [isOrdinary, and_assoc]

theorem regularize_eq_flatMap (t : Text) :
    Hebrew.regularize t = t.flatMap fun c => [toRegular c] := by
  rw [Hebrew.regularize, List.map_eq_flatMap]

theorem interfering_ne_final :
    ∀ c ∈ interfering, ∀ f ∈ Hebrew.finalForms, c ≠ f.1 ∧ c ≠ f.2 := by decide

theorem isInside_letter {c : Char} (hc : c ∉ interfering) : isInside [toRegular c] = false := by
  have h : toRegular c ≠ '[' := fun h =>
    hc ((toRegular_eq_iff (interfering_ne_final '[' (by decide))).mp h ▸ by decide)
  simp [isInside, insideAfter, h]

/-- Without brackets, ranges and dots, the letters of a query are dealt with one by one. -/
theorem substituteLetters_eq {t : Text} (ht : ∀ c ∈ t, c ∉ interfering) :
    substituteLetters t = t.flatMap letterText := by
  have hnot : ∀ c ∈ interfering, c ∉ Hebrew.regularize t := fun c hc h =>
    ht c ((mem_regularize_iff (interfering_ne_final c hc)).mp h) hc
  have hdash : '-' ∉ Hebrew.regularize t := hnot '-' (by decide)
  have hcompose : Hebrew.compose (Hebrew.regularize t) = Hebrew.regularize t :=
    Hebrew.compose_of_not_mem (hnot shinDot (by decide)) (hnot sinDot (by decide))
  have hlone : ∀ c ∈ t, loneShin.apply [toRegular c] = letterText c := by
    intro c hc
    have hbare : toRegular c = bareShin ↔ c = bareShin := toRegular_eq_iff (by decide)
    rw [Substitution.apply, Substitution.applyFrom_cons (x := bareShin) rfl rfl, letterText]
    simp only [hbare]
    split <;> rfl
  rw [substituteLetters, hcompose]
  simp only [shinSubstitutions, List.foldl_cons, List.foldl_nil]
  rw [Substitution.apply_of_not_mem (r := rangeToTav) (x := '-') (by decide) hdash,
    Substitution.apply_of_not_mem (r := rangeToShin) (x := '-') (by decide) hdash,
    Substitution.apply_of_not_mem (r := rangeFromShin) (x := '-') (by decide) hdash,
    regularize_eq_flatMap,
    Substitution.apply_flatMap (x := bareShin) rfl rfl fun c hc => isInside_letter (ht c hc)]
  exact List.flatMap_congr hlone

theorem isInside_letterText {c : Char} (hc : c ∉ interfering) : isInside (letterText c) = false := by
  rw [letterText]
  split
  · rfl
  · exact isInside_letter hc

/-- A substitution for one character that is no letter replaces it outside of brackets. -/
theorem apply_letterText {r : Substitution} {x : Char} (htarget : r.target = [x])
    (hafter : r.notAfter = none) (hfinal : ∀ f ∈ Hebrew.finalForms, x ≠ f.1 ∧ x ≠ f.2)
    (hshin : x ∉ shinOrSinSet) (hbare : x ≠ bareShin) (c : Char) :
    r.apply (letterText c) = if c = x then r.outside else letterText c := by
  rw [letterText]
  by_cases hc : c = bareShin
  · rw [if_pos hc, if_neg (hc ▸ hbare.symm),
      Substitution.apply_of_not_mem (x := x) (by simp [htarget]) hshin]
  · rw [if_neg hc, Substitution.apply, Substitution.applyFrom_cons htarget hafter]
    simp only [toRegular_eq_iff hfinal, Substitution.applyFrom, List.append_nil]
    rfl

theorem substituteSigns_eq {t : Text} (ht : ∀ c ∈ t, c ∉ interfering) :
    substituteSigns (t.flatMap letterText) = t.flatMap signText := by
  have hmatres : ∀ c, matresSubstitution.apply (letterText c) =
      if c = '@' then matresSubstitution.outside else letterText c :=
    apply_letterText rfl rfl (by decide) (by decide) (by decide)
  have hinside : ∀ c ∈ t, isInside (matresSubstitution.apply (letterText c)) = false := by
    intro c hc
    rw [hmatres]
    split
    · rfl
    · exact isInside_letterText (ht c hc)
  have hsign : ∀ c ∈ t, anyLetterSubstitution.apply (matresSubstitution.apply (letterText c)) =
      signText c := by
    intro c _
    rw [hmatres, signText]
    split
    · exact Substitution.apply_of_not_mem (x := '#') (by decide) (by decide)
    · exact apply_letterText rfl rfl (by decide) (by decide) (by decide) c
  rw [substituteSigns,
    Substitution.apply_flatMap (x := '@') rfl rfl fun c hc => isInside_letterText (ht c hc),
    Substitution.apply_flatMap (x := '#') rfl rfl hinside]
  exact List.flatMap_congr hsign

/-! ## Items and spaces -/

/-- Items with a gap and a space between any two of them, a space before them or not, and a gap
with a space after them or not. -/
def spaced (gap : Text) (lead trail : Bool) (items : List Text) : Text :=
  (if lead then [' '] else []) ++ List.intercalate (gap ++ [' ']) items ++ if trail then gap ++ [' '] else []

theorem spaced_cons_cons (gap : Text) (trail : Bool) (s t : Text) (items : List Text) :
    spaced gap false trail (s :: t :: items) = s ++ (gap ++ ' ' :: spaced gap false trail (t :: items)) := by
  simp [spaced, List.intercalate]

@[simp] theorem spaced_singleton (gap : Text) (trail : Bool) (s : Text) :
    spaced gap false trail [s] = s ++ if trail then gap ++ [' '] else [] := by
  simp [spaced, List.intercalate]

@[simp] theorem spaced_lead (gap : Text) (trail : Bool) (items : List Text) :
    spaced gap true trail items = ' ' :: spaced gap false trail items := by
  simp [spaced]

theorem flatMap_intercalate {f : Char → Text} {sep : Char} (hf : f sep = [sep]) (items : List Text) :
    (List.intercalate [sep] items).flatMap f = List.intercalate [sep] (items.map (·.flatMap f)) := by
  induction items with
  | nil => rfl
  | cons t items ih =>
    cases items with
    | nil => simp
    | cons u rest =>
      rw [List.map_cons] at ih
      simp only [List.map_cons, List.intercalate_cons_cons, List.flatMap_append, ih,
        List.flatMap_singleton, hf]

theorem flatMap_spaced {f : Char → Text} (hf : f ' ' = [' ']) (lead trail : Bool)
    (items : List Text) :
    (spaced [] lead trail items).flatMap f = spaced [] lead trail (items.map (·.flatMap f)) := by
  simp only [spaced, List.nil_append, List.flatMap_append, flatMap_intercalate hf]
  cases lead <;> cases trail <;> simp [hf]

theorem collapseBlanksFrom_of_head? {t : Text} (h : ∀ c ∈ t.head?, Text.isBlank c = false) (inRun : Bool) :
    collapseBlanksFrom inRun t = collapseBlanks t := by
  cases t with
  | nil => rfl
  | cons c t => simp [collapseBlanks, collapseBlanksFrom, h c rfl]

theorem collapseBlanksFrom_append {s : Text} (hne : s ≠ []) (hs : ∀ c ∈ s, Text.isBlank c = false)
    (inRun : Bool) (t : Text) :
    collapseBlanksFrom inRun (s ++ t) = s ++ collapseBlanksFrom false t := by
  have hfalse : ∀ s : Text, (∀ c ∈ s, Text.isBlank c = false) →
      collapseBlanksFrom false (s ++ t) = s ++ collapseBlanksFrom false t := by
    intro s hs
    induction s with
    | nil => rfl
    | cons c s ih =>
      simp only [List.cons_append, collapseBlanksFrom, hs c (by simp), Bool.false_eq_true, if_false,
        ih fun d hd => hs d (by simp [hd])]
  cases s with
  | nil => exact absurd rfl hne
  | cons c s =>
    simp only [List.cons_append, collapseBlanksFrom, hs c (by simp), Bool.false_eq_true, if_false,
      hfalse s fun d hd => hs d (by simp [hd])]

theorem collapseBlanks_spaced {items : List Text} (hitems : items ≠ [])
    (h : ∀ s ∈ items, s ≠ [] ∧ ∀ c ∈ s, Text.isBlank c = false) (lead trail : Bool) :
    collapseBlanks (spaced [] lead trail items) = spaced [] lead trail items := by
  have hblank : Text.isBlank ' ' = true := by decide
  -- the induction is for a text that goes on after a space or not
  have key : ∀ (items : List Text) (inRun : Bool), items ≠ [] →
      (∀ s ∈ items, s ≠ [] ∧ ∀ c ∈ s, Text.isBlank c = false) →
      collapseBlanksFrom inRun (spaced [] false trail items) = spaced [] false trail items := by
    intro items
    induction items with
    | nil => exact fun _ h => absurd rfl h
    | cons s items ih =>
      intro inRun _ h
      obtain ⟨hne, hs⟩ := h s (by simp)
      cases items with
      | nil =>
        rw [spaced_singleton, collapseBlanksFrom_append hne hs]
        cases trail <;> simp [collapseBlanksFrom, hblank]
      | cons t items =>
        rw [spaced_cons_cons, collapseBlanksFrom_append hne hs, List.nil_append, collapseBlanksFrom]
        simp only [hblank, if_true, Bool.false_eq_true, if_false]
        rw [ih true (by simp) fun u hu => h u (by simp [List.mem_cons.mp hu])]
  cases lead with
  | false => exact key items false hitems h
  | true =>
    rw [spaced_lead, collapseBlanks, collapseBlanksFrom]
    simp only [hblank, if_true, Bool.false_eq_true, if_false]
    rw [key items true hitems h]

theorem insertTagSlots_of_not_mem {s : Text} (hs : ' ' ∉ s) : insertTagSlots s = s := by
  fun_induction insertTagSlots s with
  | case1 => rfl
  | case2 => simp at hs
  | case3 => simp at hs
  | case4 c rest hrest ih => rw [ih fun h => hs (List.mem_cons_of_mem c h)]

theorem insertTagSlots_cons {c : Char} {s : Text} (hs : s.head? ≠ some ' ') :
    insertTagSlots (c :: s) = c :: insertTagSlots s := by
  rw [insertTagSlots]
  rintro rest rfl
  exact hs rfl

/-- A slot stands before a space that does not follow a tag. -/
theorem insertTagSlots_append {s : Text} (hne : s ≠ []) (hs : ' ' ∉ s) (hlast : s.getLast? ≠ some '>')
    (t : Text) : insertTagSlots (s ++ ' ' :: t) = s ++ (tagSlot ++ ' ' :: insertTagSlots t) := by
  induction s with
  | nil => exact absurd rfl hne
  | cons c s ih =>
    cases s with
    | nil =>
      have hc : c ≠ '>' := fun h => hlast (h ▸ rfl)
      rw [List.singleton_append, insertTagSlots, if_neg hc]
      rfl
    | cons d s =>
      have hd : ((d :: s) ++ ' ' :: t).head? ≠ some ' ' := by
        rintro h
        exact hs (by simp [Option.some.inj h])
      rw [List.cons_append, insertTagSlots_cons hd, ih (by simp) (fun h => hs (by simp [h]))
        (by rwa [List.getLast?_cons_cons] at hlast)]
      rfl

/-- A slot for a tag stands before each space after an item. -/
theorem insertTagSlots_spaced {items : List Text} (hitems : items ≠ [])
    (h : ∀ s ∈ items, s ≠ [] ∧ ' ' ∉ s ∧ s.getLast? ≠ some '>') (lead trail : Bool) :
    insertTagSlots (spaced [] lead trail items) = spaced tagSlot lead trail items := by
  have key : ∀ items : List Text, items ≠ [] →
      (∀ s ∈ items, s ≠ [] ∧ ' ' ∉ s ∧ s.getLast? ≠ some '>') →
      insertTagSlots (spaced [] false trail items) = spaced tagSlot false trail items ∧
        (spaced [] false trail items).head? ≠ some ' ' := by
    intro items
    induction items with
    | nil => exact fun h => absurd rfl h
    | cons s items ih =>
      intro _ h
      obtain ⟨hne, hs, hlast⟩ := h s (by simp)
      have hhead : ∀ t : Text, (s ++ t).head? ≠ some ' ' := by
        intro t heq
        rw [List.head?_append_of_ne_nil _ hne] at heq
        exact hs (List.mem_of_head? heq)
      cases items with
      | nil =>
        rw [spaced_singleton, spaced_singleton]
        refine ⟨?_, hhead _⟩
        cases trail with
        | false => simpa using insertTagSlots_of_not_mem hs
        | true => simpa [insertTagSlots] using insertTagSlots_append hne hs hlast []
      | cons t items =>
        rw [spaced_cons_cons, spaced_cons_cons, List.nil_append, insertTagSlots_append hne hs hlast,
          (ih (by simp) fun u hu => h u (by simp [List.mem_cons.mp hu])).1]
        exact ⟨rfl, hhead _⟩
  obtain ⟨hslots, hhead⟩ := key items hitems h
  cases lead with
  | false => exact hslots
  | true => rw [spaced_lead, spaced_lead, insertTagSlots_cons hhead, hslots]

/-! ## Whole queries -/

theorem letterText_spec {c : Char} (hc : isOrdinary c = true) :
    letterText c ≠ [] ∧ ∀ d ∈ letterText c, Text.isBlank d = false ∧ Hebrew.isNonLetter d = false := by
  have hregular : ∀ f ∈ Hebrew.finalForms,
      Text.isBlank f.2 = false ∧ Hebrew.isNonLetter f.2 = false := by decide
  rw [letterText]
  split
  · decide
  · refine ⟨by simp, fun d hd => ?_⟩
    obtain rfl := List.mem_singleton.mp hd
    obtain h | ⟨f, hf, -, h⟩ := toRegular_cases c
    · rw [h]
      exact (isOrdinary_iff.mp hc).2
    · rw [h]
      exact hregular f hf

theorem signText_spec {c : Char} (hc : isOrdinary c = true) :
    signText c ≠ [] ∧ ∀ d ∈ signText c, Text.isBlank d = false := by
  rw [signText]
  split
  · decide
  · split
    · decide
    · obtain ⟨hne, hd⟩ := letterText_spec hc
      exact ⟨hne, fun d h => (hd d h).1⟩

theorem mem_intercalate {sep c : Char} {ts : List Text} (h : c ∈ List.intercalate [sep] ts) :
    c = sep ∨ ∃ t ∈ ts, c ∈ t := by
  induction ts with
  | nil => simp at h
  | cons t ts ih =>
    cases ts with
    | nil => exact .inr ⟨t, by simp, by simpa using h⟩
    | cons u rest =>
      simp only [List.intercalate_cons_cons, List.mem_append, List.mem_singleton, or_assoc] at h
      obtain h | h | h := h
      · exact .inr ⟨t, by simp, h⟩
      · exact .inl h
      · obtain h | ⟨s, hs, hc⟩ := ih h
        · exact .inl h
        · exact .inr ⟨s, List.mem_cons_of_mem t hs, hc⟩

theorem mem_spaced {c : Char} {lead trail : Bool} {items : List Text}
    (h : c ∈ spaced [] lead trail items) : c = ' ' ∨ ∃ s ∈ items, c ∈ s := by
  simp only [spaced, List.nil_append, List.mem_append] at h
  obtain (h | h) | h := h
  · refine .inl ?_
    revert h
    cases lead <;> simp
  · exact mem_intercalate h
  · refine .inl ?_
    revert h
    cases trail <;> simp

theorem flatMap_ne_nil {f : Char → Text} {s : Text} (hs : s ≠ []) (hf : ∀ c ∈ s, f c ≠ []) :
    s.flatMap f ≠ [] := by
  cases s with
  | nil => exact absurd rfl hs
  | cons c s => simp [hf c (by simp)]

/-- The substitutions on a query whose blocks have been replaced: each item is dealt with by itself,
and slots for tags stand before the spaces after items. -/
theorem normalizeSource_spaced {items : List Text} (hitems : items ≠ [])
    (h : ∀ s ∈ items, s ≠ [] ∧ (∀ c ∈ s, isOrdinary c = true) ∧
      (s.flatMap signText).getLast? ≠ some '>') (lead trail : Bool) :
    normalizeSource (spaced [] lead trail items) =
      spaced tagSlot lead trail (items.map (·.flatMap signText)) := by
  have hplain : ∀ c ∈ spaced [] lead trail items, c ∉ interfering := by
    intro c hc
    obtain rfl | ⟨s, hs, hc⟩ := mem_spaced hc
    · decide
    · exact (isOrdinary_iff.mp ((h s hs).2.1 c hc)).1
  have hletters := substituteLetters_eq hplain
  have hcollapse : collapseBlanks (substituteLetters (spaced [] lead trail items)) =
      (spaced [] lead trail items).flatMap letterText := by
    rw [hletters, flatMap_spaced (by decide)]
    refine collapseBlanks_spaced (by simpa using hitems) ?_ lead trail
    simp only [List.forall_mem_map]
    intro s hs
    obtain ⟨hne, hord, -⟩ := h s hs
    refine ⟨flatMap_ne_nil hne fun c hc => (letterText_spec (hord c hc)).1, fun d hd => ?_⟩
    obtain ⟨c, hc, hd⟩ := List.mem_flatMap.mp hd
    exact ((letterText_spec (hord c hc)).2 d hd).1
  have hdrop : dropNonLetters ((spaced [] lead trail items).flatMap letterText) =
      (spaced [] lead trail items).flatMap letterText := by
    refine List.filter_eq_self.mpr fun d hd => ?_
    obtain ⟨c, hc, hd⟩ := List.mem_flatMap.mp hd
    obtain rfl | ⟨s, hs, hc⟩ := mem_spaced hc
    · have : letterText ' ' = [' '] := by decide
      rw [this, List.mem_singleton] at hd
      rw [hd]
      decide
    · rw [((letterText_spec ((h s hs).2.1 c hc)).2 d hd).2]
      rfl
  rw [normalizeSource, hcollapse, hdrop, substituteSigns_eq hplain, flatMap_spaced (by decide)]
  refine insertTagSlots_spaced (by simpa using hitems) ?_ lead trail
  simp only [List.forall_mem_map]
  intro s hs
  obtain ⟨hne, hord, hlast⟩ := h s hs
  refine ⟨flatMap_ne_nil hne fun c hc => (signText_spec (hord c hc)).1, fun hmem => ?_, hlast⟩
  obtain ⟨c, hc, hmem⟩ := List.mem_flatMap.mp hmem
  exact absurd ((signText_spec (hord c hc)).2 ' ' hmem) (by decide)

end VerseSearch.Query
