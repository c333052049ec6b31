import VerseSearch.Proofs.Query.Compilation

/-! # What the substitutions do to a bracket expression

Inside brackets a bare shin can end a range, begin one or stand alone, so the substitutions work on the
items of a bracket expression and not on its characters.

* `SetPart`: an item of a bracket expression, a character or a range.
* `Substitution.apply_setText`: a substitution that deals with each item by itself.
* `resolved`: the items that take the place of an item.
* `normalizeSource_setText`: the pattern of a query that is a bracket expression.
-/

namespace VerseSearch.Query
set_option autoImplicit false

open Hebrew (bareShin shin sin tav shinDot sinDot toRegular toRegular_eq_iff toRegular_cases)

/-! ## Bracket expressions -/

/-- An item of a bracket expression. -/
inductive SetPart where
  | one (c : Char)
  | range (a b : Char)
  deriving Repr, DecidableEq

namespace SetPart

def text : SetPart → Text
  | one c => [c]
  | range a b => [a, '-', b]

/-- The item without final forms. -/
def regular : SetPart → SetPart
  | one c => one (toRegular c)
  | range a b => range (toRegular a) (toRegular b)

/-- What holds of a character by itself, of the first and of the last character of a range. -/
def Only (P Q R : Char → Prop) : SetPart → Prop
  | one c => P c
  | range a b => Q a ∧ R b

theorem Only.imp {P Q R P' Q' R' : Char → Prop} (hP : ∀ c, P c → P' c) (hQ : ∀ c, Q c → Q' c)
    (hR : ∀ c, R c → R' c) {p : SetPart} (hp : p.Only P Q R) : p.Only P' Q' R' := by
  cases p with
  | one c => exact hP c hp
  | range a b => exact ⟨hQ a hp.1, hR b hp.2⟩

end SetPart

/-- The items without brackets. -/
def partsText (parts : List SetPart) : Text := parts.flatMap SetPart.text

/-- The bracket expression of some items. -/
def setText (parts : List SetPart) : Text := '[' :: partsText parts ++ [']']

/-- What belongs to the notation of bracket expressions. -/
def setNotation : Text := ['[', ']', '-']

/-- An item that is written without the notation of bracket expressions, but for one dash. -/
abbrev SetPart.IsPlain (p : SetPart) : Prop :=
  p.Only (· ∉ setNotation) (· ∉ setNotation) (· ∉ setNotation)

theorem ne_dash {c : Char} (hc : c ∉ setNotation) : c ≠ '-' := fun h => hc (h ▸ by decide)

theorem insideAfter_of_plain {c : Char} (hc : c ∉ setNotation) : insideAfter true c = true := by
  have hclose : c ≠ ']' := fun h => hc (h ▸ by decide)
  simp [insideAfter, hclose]

theorem SetPart.IsPlain.ends {p : SetPart} (hp : p.IsPlain) :
    p.text.head? ≠ some '-' ∧ p.text.getLast? ≠ some '-' := by
  cases p with
  | one c => simpa [text] using ne_dash hp
  | range a b => simp [text, ne_dash hp.1, ne_dash hp.2]

theorem SetPart.IsPlain.foldl_insideAfter {p : SetPart} (hp : p.IsPlain) :
    p.text.foldl insideAfter true = true := by
  cases p with
  | one c => exact insideAfter_of_plain hp
  | range a b =>
    simp only [text, List.foldl_cons, List.foldl_nil, insideAfter_of_plain hp.1]
    exact insideAfter_of_plain hp.2

theorem head?_partsText {parts : List SetPart} (hparts : ∀ p ∈ parts, p.IsPlain) (rest : Text)
    (hrest : rest.head? ≠ some '-') : (partsText parts ++ rest).head? ≠ some '-' := by
  cases parts with
  | nil => exact hrest
  | cons p parts =>
    have hp := (hparts p (List.mem_cons_self ..)).ends.1
    cases p <;> exact hp

/-! ## Substitutions, item by item -/

namespace Substitution

/-- A target that stands within an item: it holds no bracket, and wherever it is cut in two, a dash
stands on one side of the cut. -/
structure IsTied (r : Substitution) : Prop where
  nonempty : r.target ≠ []
  brackets : '[' ∉ r.target ∧ ']' ∉ r.target
  cut : ∀ n < r.target.length, 0 < n → r.target[n - 1]? = some '-' ∨ r.target[n]? = some '-'

instance (r : Substitution) : Decidable r.IsTied :=
  decidable_of_iff (r.target ≠ [] ∧ ('[' ∉ r.target ∧ ']' ∉ r.target) ∧
      ∀ n < r.target.length, 0 < n → r.target[n - 1]? = some '-' ∨ r.target[n]? = some '-')
    ⟨fun h => ⟨h.1, h.2.1, h.2.2⟩, fun h => ⟨h.nonempty, h.brackets, h.cut⟩⟩

theorem occursAt_cons {r : Substitution} (hr : r.IsTied) {c : Char} (hc : c ∉ r.target)
    (previous : Option Char) (t : Text) : r.occursAt previous (c :: t) = false := by
  rw [occursAt, Bool.and_eq_false_iff, Bool.eq_false_iff]
  left
  intro h
  obtain ⟨d, target, htarget⟩ := List.exists_cons_of_ne_nil hr.nonempty
  obtain ⟨rest, hrest⟩ := List.isPrefixOf_iff_prefix.mp h
  rw [htarget, List.cons_append] at hrest
  obtain rfl := (List.cons.inj hrest).1
  exact hc (htarget ▸ List.mem_cons_self ..)

/-- A target does not reach from a text that does not end with a dash into one that does not begin
with a dash. -/
theorem occursAt_append {r : Substitution} (hr : r.IsTied) {s rest : Text} (hne : s ≠ [])
    (hs : s.getLast? ≠ some '-') (hrest : rest.head? ≠ some '-') (previous : Option Char) :
    r.occursAt previous (s ++ rest) = r.occursAt previous s := by
  have hprefix : r.target <+: s ++ rest ↔ r.target <+: s := by
    refine ⟨fun h => ?_, fun h => h.trans (List.prefix_append s rest)⟩
    obtain h | ⟨cut, hcut⟩ := List.prefix_or_prefix_of_prefix h (List.prefix_append s rest)
    · exact h
    cases cut with
    | nil => simp [← hcut]
    | cons c cut =>
      have hc : rest.head? = some c := by
        obtain ⟨tail, htail⟩ := h
        rw [← hcut, List.append_assoc, List.append_cancel_left_eq] at htail
        rw [← htail]
        rfl
      have hlength : 0 < s.length := List.length_pos_iff.mpr hne
      obtain hdash | hdash := hr.cut s.length (by rw [← hcut]; simp) hlength
      · rw [← hcut, List.getElem?_append_left (by omega), ← List.getLast?_eq_getElem?] at hdash
        exact absurd hdash hs
      · rw [← hcut, List.getElem?_append_right (Nat.le_refl _), Nat.sub_self] at hdash
        exact absurd (hc.trans hdash) hrest
  rw [occursAt, occursAt, Bool.eq_iff_iff, Bool.and_eq_true, Bool.and_eq_true,
    List.isPrefixOf_iff_prefix, List.isPrefixOf_iff_prefix, hprefix]

theorem applyFrom_append_of_isTied {r : Substitution} (hr : r.IsTied) {s rest : Text}
    (hs : s.getLast? ≠ some '-') (hrest : rest.head? ≠ some '-') {skip : ℕ} (hskip : skip ≤ s.length)
    (previous : Option Char) (inside : Bool) :
    ∃ previous', r.applyFrom skip previous inside (s ++ rest) =
      r.applyFrom skip previous inside s ++
        r.applyFrom 0 previous' (s.foldl insideAfter inside) rest := by
  induction s generalizing skip previous inside with
  | nil =>
    obtain rfl : skip = 0 := Nat.le_zero.mp hskip
    exact ⟨previous, by rw [applyFrom]; rfl⟩
  | cons c s ih =>
    have hlast : s.getLast? ≠ some '-' := fun h => hs (by rw [List.getLast?_cons, h]; rfl)
    cases skip with
    | succ skip =>
      simp only [List.cons_append, applyFrom, List.foldl_cons]
      exact ih hlast (Nat.le_of_succ_le_succ hskip) ..
    | zero =>
      have hoccurs := occursAt_append hr (List.cons_ne_nil c s) hs hrest previous
      rw [List.cons_append] at hoccurs
      simp only [List.cons_append, applyFrom, hoccurs, List.foldl_cons]
      split
      · next htarget =>
        have hlength : r.target.length - 1 ≤ s.length := by
          have hprefix := (Bool.and_eq_true_iff.mp htarget).1
          have hle := (List.isPrefixOf_iff_prefix.mp hprefix).length_le
          rw [List.length_cons] at hle
          omega
        obtain ⟨previous', heq⟩ := ih hlast hlength (some c) (insideAfter inside c)
        exact ⟨previous', by rw [heq, List.append_assoc]⟩
      · obtain ⟨previous', heq⟩ := ih hlast (Nat.zero_le _) (some c) (insideAfter inside c)
        exact ⟨previous', by rw [heq]; rfl⟩

/-- A substitution puts some items in the place of an item inside of brackets. -/
def Turns (r : Substitution) (p : SetPart) (ps : List SetPart) : Prop :=
  ∀ previous, r.applyFrom 0 previous true p.text = partsText ps

theorem applyFrom_partsText {r : Substitution} (hr : r.IsTied) {f : SetPart → List SetPart}
    {parts : List SetPart} (hparts : ∀ p ∈ parts, p.IsPlain ∧ r.Turns p (f p)) (previous : Option Char) :
    r.applyFrom 0 previous true (partsText parts ++ [']']) = partsText (parts.flatMap f) ++ [']'] := by
  induction parts generalizing previous with
  | nil =>
    have hoccurs := occursAt_cons hr hr.brackets.2 previous []
    simp [partsText, applyFrom, hoccurs]
  | cons p parts ih =>
    obtain ⟨⟨hplain, hp⟩, hparts⟩ := List.forall_mem_cons.mp hparts
    have hinside := hplain.foldl_insideAfter
    have hrest : (partsText parts ++ [']']).head? ≠ some '-' :=
      head?_partsText (fun q hq => (hparts q hq).1) _ (by decide)
    obtain ⟨previous', heq⟩ :=
      applyFrom_append_of_isTied hr hplain.ends.2 hrest (Nat.zero_le _) previous true
    have hsplit : partsText (p :: parts) ++ [']'] = p.text ++ (partsText parts ++ [']']) := by
      simp [partsText]
    rw [hsplit, heq, hp, hinside, ih hparts]
    simp [partsText]

theorem apply_setText {r : Substitution} (hr : r.IsTied) {f : SetPart → List SetPart}
    {parts : List SetPart} (hparts : ∀ p ∈ parts, p.IsPlain ∧ r.Turns p (f p)) :
    r.apply (setText parts) = setText (parts.flatMap f) := by
  have hoccurs := occursAt_cons hr hr.brackets.1 none (partsText parts ++ [']'])
  rw [setText, List.cons_append, apply, applyFrom, hoccurs]
  exact congrArg ('[' :: ·) (applyFrom_partsText hr hparts (some '['))

end Substitution

/-! ## Targets in an item -/

namespace Substitution

/-- A target that begins with the dash of a range. -/
theorem applyFrom_range_end {r : Substitution} {x : Char} (htarget : r.target = ['-', x]) {a b : Char}
    (hp : (SetPart.range a b).IsPlain) (previous : Option Char) :
    r.applyFrom 0 previous true [a, '-', b] =
      a :: if b = x ∧ r.notAfter ≠ some a then r.inside else ['-', b] := by
  have hfirst : r.occursAt previous [a, '-', b] = false := by
    simp [occursAt, htarget, (ne_dash hp.1).symm]
  have hlast : r.occursAt (some '-') [b] = false := by simp [occursAt, htarget]
  have hdash : r.occursAt (some a) ['-', b] = true ↔ b = x ∧ r.notAfter ≠ some a := by
    rw [occursAt, htarget, @eq_comm _ b x]
    cases r.notAfter with
    | none => simp
    | some c => simp [@eq_comm _ c a]
  rw [applyFrom_of_not_occursAt hfirst, insideAfter_of_plain hp.1]
  by_cases h : b = x ∧ r.notAfter ≠ some a
  · rw [applyFrom_of_occursAt (hdash.mpr h), if_pos h, htarget]
    exact congrArg (a :: ·) (List.append_nil _)
  · have hdash : r.occursAt (some a) ['-', b] = false := Bool.eq_false_iff.mpr fun hb => h (hdash.mp hb)
    rw [applyFrom_of_not_occursAt hdash, if_neg h, applyFrom_of_not_occursAt hlast]
    rfl

/-- A target that ends with the dash of a range. -/
theorem applyFrom_range_start {r : Substitution} {x : Char} (htarget : r.target = [x, '-'])
    (hafter : r.notAfter = none) {a b : Char} (hp : (SetPart.range a b).IsPlain)
    (previous : Option Char) :
    r.applyFrom 0 previous true [a, '-', b] = (if a = x then r.inside else [a, '-']) ++ [b] := by
  have hdash : r.occursAt (some a) ['-', b] = false := by
    simp [occursAt, htarget, (ne_dash hp.2).symm]
  have hlast : ∀ previous, r.occursAt previous [b] = false := by simp [occursAt, htarget]
  by_cases h : a = x
  · have hfirst : r.occursAt previous [a, '-', b] = true := by simp [occursAt, htarget, hafter, h]
    have hskip : r.applyFrom 1 (some a) true ['-', b] = [b] := by
      rw [applyFrom, applyFrom_of_not_occursAt (hlast _)]
      rfl
    rw [applyFrom_of_occursAt hfirst, if_pos h, insideAfter_of_plain hp.1, htarget]
    exact congrArg (r.inside ++ ·) hskip
  · have hfirst : r.occursAt previous [a, '-', b] = false := by
      simp [occursAt, htarget, Ne.symm h]
    rw [applyFrom_of_not_occursAt hfirst, insideAfter_of_plain hp.1, applyFrom_of_not_occursAt hdash,
      applyFrom_of_not_occursAt (hlast _), if_neg h]
    rfl

theorem turns_self {r : Substitution} {x : Char} (hx : x ∈ r.target) {p : SetPart}
    (hp : x ∉ p.text) : r.Turns p [p] := fun previous => by
  rw [applyFrom_of_not_mem hx hp, partsText, List.flatMap_singleton]

theorem turns_one_of_dash {r : Substitution} (hdash : '-' ∈ r.target) {c : Char}
    (hc : c ∉ setNotation) : r.Turns (.one c) [.one c] :=
  turns_self hdash (by simpa [SetPart.text] using (ne_dash hc).symm)

end Substitution

/-! ## The substitutions on items -/

/-- A range up to the last letter. -/
def endAtTav : SetPart → List SetPart
  | .range a b =>
    if b = tav ∧ a ≠ tav then [.range a 'ר', .one sin, .one shin, .one tav] else [.range a b]
  | p => [p]

/-- A range up to shin. -/
def endAtShin : SetPart → List SetPart
  | .range a b => if b = bareShin then [.range a 'ר', .one sin, .one shin] else [.range a b]
  | p => [p]

/-- A range from shin on. -/
def beginAtShin : SetPart → List SetPart
  | .range a b => if a = bareShin then [.one sin, .one shin, .range tav b] else [.range a b]
  | p => [p]

/-- A character by itself, in the place of which stand some items. -/
def expandOne (x : Char) (ps : List SetPart) : SetPart → List SetPart
  | .one c => if c = x then ps else [.one c]
  | p => [p]

section
variable {p : SetPart} (hp : p.IsPlain)
include hp

theorem turns_rangeToTav : rangeToTav.Turns p (endAtTav p) := by
  cases p with
  | one c => exact Substitution.turns_one_of_dash (by decide) hp
  | range a b =>
    intro previous
    rw [SetPart.text, Substitution.applyFrom_range_end rfl hp, endAtTav]
    have hafter : rangeToTav.notAfter ≠ some a ↔ a ≠ tav := by
      simp [rangeToTav, @eq_comm _ tav a]
    simp only [hafter]
    split <;> rfl

theorem turns_rangeToShin : rangeToShin.Turns p (endAtShin p) := by
  cases p with
  | one c => exact Substitution.turns_one_of_dash (by decide) hp
  | range a b =>
    intro previous
    rw [SetPart.text, Substitution.applyFrom_range_end rfl hp, endAtShin]
    simp only [rangeToShin, ne_eq, reduceCtorEq, not_false_eq_true, and_true]
    split <;> rfl

theorem turns_rangeFromShin : rangeFromShin.Turns p (beginAtShin p) := by
  cases p with
  | one c => exact Substitution.turns_one_of_dash (by decide) hp
  | range a b =>
    intro previous
    rw [SetPart.text, Substitution.applyFrom_range_start rfl rfl hp, beginAtShin]
    split <;> rfl

end

theorem turns_expandOne {r : Substitution} {x : Char} (htarget : r.target = [x])
    (hafter : r.notAfter = none) {ps : List SetPart} (hps : partsText ps = r.inside) {p : SetPart}
    (hp : ∀ a b, p = .range a b → x ∉ p.text) : r.Turns p (expandOne x ps p) := by
  cases p with
  | one c =>
    intro previous
    rw [SetPart.text, Substitution.applyFrom_cons htarget hafter, expandOne]
    split
    · exact (List.append_nil _).trans hps.symm
    · rfl
  | range a b => exact Substitution.turns_self (by simp [htarget]) (hp a b rfl)

/-! ## Items of letters and signs -/

/-- Whether a range may begin or end with a character. -/
def isEnd (c : Char) : Bool := Hebrew.isLetter c || c = bareShin

/-- A letter, a bare shin or one of the two signs, or a range of letters and bare shins. -/
def SetPart.IsSpelled (p : SetPart) : Prop :=
  p.Only (isSign · = true) (isEnd · = true) (isEnd · = true)

/-- The same, but no range ends with a bare shin. -/
def SetPart.IsHalfComposed (p : SetPart) : Prop :=
  p.Only (isSign · = true) (isEnd · = true) (Hebrew.isLetter · = true)

/-- The same, but no range begins or ends with a bare shin. -/
def SetPart.IsComposed (p : SetPart) : Prop :=
  p.Only (isSign · = true) (Hebrew.isLetter · = true) (Hebrew.isLetter · = true)

theorem isSign_of_isEnd {c : Char} (hc : isEnd c = true) : isSign c = true := by
  simp only [isEnd, isSign, Bool.or_eq_true] at hc ⊢
  exact .inl (.inl hc)

theorem isEnd_of_isLetter {c : Char} (hc : Hebrew.isLetter c = true) : isEnd c = true := by
  rw [isEnd, hc, Bool.true_or]

theorem not_mem_setNotation_of_isSign {c : Char} (hc : isSign c = true) : c ∉ setNotation := fun hmem =>
  have hsub : ∀ c ∈ setNotation, c ∈ interfering := by decide
  (isOrdinary_iff.mp (isSign_spec hc).1).1 (hsub c hmem)

namespace SetPart
variable {p : SetPart}

theorem IsSpelled.isPlain (hp : p.IsSpelled) : p.IsPlain :=
  hp.imp (fun _ => not_mem_setNotation_of_isSign)
    (fun _ hc => not_mem_setNotation_of_isSign (isSign_of_isEnd hc))
    fun _ hc => not_mem_setNotation_of_isSign (isSign_of_isEnd hc)

theorem IsSpelled.mem_text (hp : p.IsSpelled) {c : Char} (hc : c ∈ p.text) :
    c = '-' ∨ isSign c = true := by
  cases p with
  | one d =>
    obtain rfl := List.mem_singleton.mp hc
    exact .inr hp
  | range a b =>
    simp only [text, List.mem_cons, List.not_mem_nil, or_false] at hc
    obtain rfl | rfl | rfl := hc
    · exact .inr (isSign_of_isEnd hp.1)
    · exact .inl rfl
    · exact .inr (isSign_of_isEnd hp.2)

theorem IsHalfComposed.isSpelled (hp : p.IsHalfComposed) : p.IsSpelled :=
  hp.imp (fun _ => id) (fun _ => id) fun _ => isEnd_of_isLetter

theorem IsComposed.isSpelled (hp : p.IsComposed) : p.IsSpelled :=
  hp.imp (fun _ => id) (fun _ => isEnd_of_isLetter) fun _ => isEnd_of_isLetter

theorem IsSpelled.regular (hp : p.IsSpelled) : p.regular.IsSpelled := by
  have hsign : ∀ c ∈ Hebrew.letters ++ [bareShin, '#', '@'], isSign (toRegular c) = true := by decide
  have hend : ∀ c ∈ bareShin :: Hebrew.letters, isEnd (toRegular c) = true := by decide
  have hend' : ∀ c, isEnd c = true → isEnd (toRegular c) = true := fun c hc =>
    hend c (by simpa [isEnd, Hebrew.isLetter, or_comm] using hc)
  cases p with
  | one c => exact hsign c (mem_of_isSign hp)
  | range a b => exact ⟨hend' a hp.1, hend' b hp.2⟩

theorem IsSpelled.endAtTav (hp : p.IsSpelled) : ∀ q ∈ endAtTav p, q.IsSpelled := by
  cases p with
  | one c => exact List.forall_mem_singleton.mpr hp
  | range a b =>
    rw [Query.endAtTav]
    split
    · simp only [List.forall_mem_cons]
      exact ⟨⟨hp.1, rfl⟩, rfl, rfl, rfl, nofun⟩
    · exact List.forall_mem_singleton.mpr hp

theorem IsSpelled.endAtShin (hp : p.IsSpelled) : ∀ q ∈ endAtShin p, q.IsHalfComposed := by
  cases p with
  | one c => exact List.forall_mem_singleton.mpr hp
  | range a b =>
    rw [Query.endAtShin]
    split
    · simp only [List.forall_mem_cons]
      exact ⟨⟨hp.1, rfl⟩, rfl, rfl, nofun⟩
    · next hb =>
      have hletter : Hebrew.isLetter b = true := by simpa [isEnd, hb] using hp.2
      exact List.forall_mem_singleton.mpr ⟨hp.1, hletter⟩

theorem IsHalfComposed.beginAtShin (hp : p.IsHalfComposed) : ∀ q ∈ beginAtShin p, q.IsComposed := by
  cases p with
  | one c => exact List.forall_mem_singleton.mpr hp
  | range a b =>
    rw [Query.beginAtShin]
    split
    · simp only [List.forall_mem_cons]
      exact ⟨rfl, rfl, ⟨rfl, hp.2⟩, nofun⟩
    · next ha =>
      have hletter : Hebrew.isLetter a = true := by simpa [isEnd, ha] using hp.1
      exact List.forall_mem_singleton.mpr ⟨hletter, hp.2⟩

theorem IsComposed.expandOne (hp : p.IsComposed) (x : Char) {ps : List SetPart}
    (hps : ∀ q ∈ ps, q.IsComposed) : ∀ q ∈ expandOne x ps p, q.IsComposed := by
  cases p with
  | one c =>
    rw [Query.expandOne]
    split
    · exact hps
    · exact List.forall_mem_singleton.mpr hp
  | range a b => exact List.forall_mem_singleton.mpr hp

/-- No range of letters holds a character that is not a letter. -/
theorem IsComposed.not_mem_range (hp : p.IsComposed) {x : Char} (hx : Hebrew.isLetter x = false)
    (hdash : x ≠ '-') : ∀ a b, p = .range a b → x ∉ p.text := by
  rintro a b rfl hmem
  simp only [text, List.mem_cons, List.not_mem_nil, or_false] at hmem
  obtain rfl | rfl | rfl := hmem
  · exact absurd (hx.symm.trans hp.1) (by decide)
  · exact hdash rfl
  · exact absurd (hx.symm.trans hp.2) (by decide)

end SetPart

/-! ## Whole bracket expressions -/

theorem forall_mem_flatMap {P Q : SetPart → Prop} {f : SetPart → List SetPart} {parts : List SetPart}
    (hparts : ∀ p ∈ parts, P p) (hf : ∀ p, P p → ∀ q ∈ f p, Q q) : ∀ q ∈ parts.flatMap f, Q q := by
  intro q hq
  obtain ⟨p, hp, hq⟩ := List.mem_flatMap.mp hq
  exact hf p (hparts p hp) q hq

theorem regularize_setText (parts : List SetPart) :
    Hebrew.regularize (setText parts) = setText (parts.map SetPart.regular) := by
  have hpart : ∀ p : SetPart, p.text.map toRegular = p.regular.text := by
    rintro (c | ⟨a, b⟩) <;> rfl
  have hparts : (partsText parts).map toRegular = partsText (parts.map SetPart.regular) := by
    rw [partsText, List.map_flatMap, partsText, List.flatMap_map]
    exact List.flatMap_congr fun p _ => hpart p
  rw [Hebrew.regularize, setText, List.cons_append, List.map_cons, List.map_append, hparts]
  rfl

/-- What takes the place of an item when shin and sin are dealt with. -/
def composed (p : SetPart) : List SetPart :=
  (endAtTav p.regular).flatMap fun p => (endAtShin p).flatMap fun p => (beginAtShin p).flatMap
    (expandOne bareShin [.one sin, .one shin])

/-- What takes the place of an item when the two signs are dealt with. -/
def expanded (p : SetPart) : List SetPart :=
  (expandOne '@' (matres.map .one) p).flatMap (expandOne '#' [.range 'א' tav])

/-- What takes the place of an item. -/
def resolved (p : SetPart) : List SetPart := (composed p).flatMap expanded

theorem flatMap_composed (parts : List SetPart) :
    ((((parts.map SetPart.regular).flatMap endAtTav).flatMap endAtShin).flatMap beginAtShin).flatMap
      (expandOne bareShin [.one sin, .one shin]) = parts.flatMap composed := by
  rw [List.flatMap_map, List.flatMap_assoc, List.flatMap_assoc, List.flatMap_assoc]
  rfl

theorem substituteSigns_setText {parts : List SetPart} (hparts : ∀ p ∈ parts, p.IsComposed) :
    substituteSigns (setText parts) = setText (parts.flatMap expanded) ∧
      ∀ q ∈ parts.flatMap expanded, q.IsComposed := by
  have hmothers : ∀ q ∈ matres.map SetPart.one, q.IsComposed := List.forall_mem_map.mpr fun c hc => by
    have hall : ∀ c ∈ matres, isSign c = true := by decide
    exact hall c hc
  have hletters : ∀ q ∈ [SetPart.range 'א' tav], q.IsComposed :=
    List.forall_mem_singleton.mpr ⟨rfl, rfl⟩
  have h₁ := forall_mem_flatMap hparts fun p hp => hp.expandOne '@' hmothers
  have h₂ := forall_mem_flatMap h₁ fun p hp => hp.expandOne '#' hletters
  have hmatres : ∀ p ∈ parts, p.IsPlain ∧
      matresSubstitution.Turns p (expandOne '@' (matres.map .one) p) := fun p hp =>
    ⟨(hparts p hp).isSpelled.isPlain,
      turns_expandOne rfl rfl rfl ((hparts p hp).not_mem_range (by decide) (by decide))⟩
  have hany : ∀ p ∈ _, p.IsPlain ∧ anyLetterSubstitution.Turns p (expandOne '#' [.range 'א' tav] p) :=
    fun p hp => ⟨(h₁ p hp).isSpelled.isPlain,
      turns_expandOne rfl rfl rfl ((h₁ p hp).not_mem_range (by decide) (by decide))⟩
  have hassoc : (parts.flatMap (expandOne '@' (matres.map .one))).flatMap
      (expandOne '#' [.range 'א' tav]) = parts.flatMap expanded := List.flatMap_assoc
  rw [hassoc] at h₂
  refine ⟨?_, h₂⟩
  rw [substituteSigns, Substitution.apply_setText (by decide) hmatres,
    Substitution.apply_setText (by decide) hany, hassoc]

section
variable {parts : List SetPart} (hparts : ∀ p ∈ parts, p.IsSpelled)
include hparts

theorem mem_setText {c : Char} (hc : c ∈ setText parts) : c ∈ setNotation ∨ isSign c = true := by
  rw [setText, List.cons_append, List.mem_cons, List.mem_append, List.mem_singleton] at hc
  obtain rfl | hc | rfl := hc
  · exact .inl (by decide)
  · obtain ⟨p, hp, hc⟩ := List.mem_flatMap.mp hc
    obtain rfl | hsign := (hparts p hp).mem_text hc
    · exact .inl (by decide)
    · exact .inr hsign
  · exact .inl (by decide)

/-- No character of a bracket expression is white space, a mark or a dot. -/
theorem plain_of_mem_setText {c : Char} (hc : c ∈ setText parts) :
    Text.isBlank c = false ∧ Hebrew.isNonLetter c = false ∧ c ≠ shinDot ∧ c ≠ sinDot := by
  have hnotation : ∀ c ∈ setNotation,
      Text.isBlank c = false ∧ Hebrew.isNonLetter c = false ∧ c ≠ shinDot ∧ c ≠ sinDot := by decide
  obtain hc | hc := mem_setText hparts hc
  · exact hnotation c hc
  · obtain ⟨hmem, hblank, hmark⟩ := isOrdinary_iff.mp (isSign_spec hc).1
    exact ⟨hblank, hmark, fun h => hmem (h ▸ by decide), fun h => hmem (h ▸ by decide)⟩

theorem compose_setText : Hebrew.compose (setText parts) = setText parts :=
  Hebrew.compose_of_not_mem (fun hmem => (plain_of_mem_setText hparts hmem).2.2.1 rfl)
    fun hmem => (plain_of_mem_setText hparts hmem).2.2.2 rfl

theorem substituteLetters_setText : substituteLetters (setText parts) = setText (parts.flatMap composed) ∧
    ∀ q ∈ parts.flatMap composed, q.IsComposed := by
  have hshins : ∀ q ∈ [SetPart.one sin, .one shin], q.IsComposed := by
    simp only [List.forall_mem_cons]
    exact ⟨rfl, rfl, nofun⟩
  -- what the items are before each of the substitutions
  have h₀ : ∀ p ∈ parts.map SetPart.regular, p.IsSpelled :=
    List.forall_mem_map.mpr fun p hp => (hparts p hp).regular
  have h₁ := forall_mem_flatMap h₀ fun p hp => hp.endAtTav
  have h₂ := forall_mem_flatMap h₁ fun p hp => hp.endAtShin
  have h₃ := forall_mem_flatMap h₂ fun p hp => hp.beginAtShin
  have h₄ := forall_mem_flatMap h₃ fun p hp => hp.expandOne bareShin hshins
  have htav := Substitution.apply_setText (by decide) fun p hp =>
    ⟨(h₀ p hp).isPlain, turns_rangeToTav (h₀ p hp).isPlain⟩
  have hto := Substitution.apply_setText (by decide) fun p hp =>
    ⟨(h₁ p hp).isPlain, turns_rangeToShin (h₁ p hp).isPlain⟩
  have hfrom := Substitution.apply_setText (by decide) fun p hp =>
    have hplain := (h₂ p hp).isSpelled.isPlain
    ⟨hplain, turns_rangeFromShin hplain⟩
  have hlone : ∀ p ∈ _, p.IsPlain ∧ loneShin.Turns p (expandOne bareShin [.one sin, .one shin] p) :=
    fun p hp => ⟨(h₃ p hp).isSpelled.isPlain,
      turns_expandOne rfl rfl rfl ((h₃ p hp).not_mem_range (by decide) (by decide))⟩
  rw [flatMap_composed] at h₄
  refine ⟨?_, h₄⟩
  rw [substituteLetters, regularize_setText, compose_setText h₀, ← flatMap_composed]
  simp only [shinSubstitutions, List.foldl_cons, List.foldl_nil]
  rw [htav, hto, hfrom, Substitution.apply_setText (by decide) hlone]

theorem collapseBlanks_setText : collapseBlanks (setText parts) = setText parts := by
  have h := collapseBlanksFrom_append (s := setText parts) (by simp [setText])
    (fun c hc => (plain_of_mem_setText hparts hc).1) false []
  simpa [collapseBlanks, collapseBlanksFrom] using h

/-- A bracket expression becomes the bracket expression of what its items become. -/
theorem normalizeSource_setText : normalizeSource (setText parts) = setText (parts.flatMap resolved) ∧
    ∀ q ∈ parts.flatMap resolved, q.IsComposed := by
  obtain ⟨hletters, hcomposed⟩ := substituteLetters_setText hparts
  obtain ⟨hsigns, hresolved⟩ := substituteSigns_setText hcomposed
  have hassoc : (parts.flatMap composed).flatMap expanded = parts.flatMap resolved := List.flatMap_assoc
  rw [hassoc] at hsigns hresolved
  have hspelled : ∀ q ∈ parts.flatMap composed, q.IsSpelled := fun q hq => (hcomposed q hq).isSpelled
  have hdrop : dropNonLetters (setText (parts.flatMap composed)) = setText (parts.flatMap composed) :=
    List.filter_eq_self.mpr fun c hc => by rw [(plain_of_mem_setText hspelled hc).2.1]; rfl
  have hspace : ' ' ∉ setText (parts.flatMap resolved) := fun hmem =>
    absurd (plain_of_mem_setText (fun q hq => (hresolved q hq).isSpelled) hmem).1 (by decide)
  refine ⟨?_, hresolved⟩
  rw [normalizeSource, hletters, collapseBlanks_setText hspelled, hdrop, hsigns,
    insertTagSlots_of_not_mem hspace]

end

end VerseSearch.Query
