import VerseSearch.Proofs.Hebrew.SearchableForms
import VerseSearch.Proofs.Matching.Scanning
import VerseSearch.Proofs.Query.SetRewriting

/-! # Letters in bracket expressions

Which bracket expressions over letters are patterns, and which letters these patterns match. The rules
for shin run one after the other and each of them by the text alone, so a range from shin to tav ends up
with its ends the wrong way round.

* `readItems_partsText`, `readItems_partsText_error`: what the reader makes of items.
* `resolved_range`: the items that take the place of a range.
* `SetPart.denotes`: the letters that an item denotes in the alphabet.
* `SetPart.finds`, `SetPart.isBroken`: the letters that the pattern of an item matches, and the ranges
  that have no pattern.
* `any_resolved`, `all_inOrder_resolved`: these two are right for what takes the place of an item.
* `isFaithful_iff`: the items of which the pattern matches what they denote.
* `compile_letterSet`: a bracket expression as a query.
-/

namespace VerseSearch.Query
set_option autoImplicit false

open Hebrew (bareShin shin sin tav toRegular toRegular_eq_iff isPlainLetter)
open Pattern (SetItem CharSet readItems setSigns)

/-! ## Reading items -/

namespace SetPart

/-- The item as it is read. -/
def item : SetPart → SetItem
  | one c => .code c.toNat
  | range a b => .range a.toNat b.toNat

/-- Whether the code points of a range are in order. -/
def inOrder : SetPart → Bool
  | one _ => true
  | range a b => a.toNat ≤ b.toNat

/-- Whether a character is in an item by its code point. -/
def holds : SetPart → Char → Bool
  | one c, d => d = c
  | range a b, d => a.toNat ≤ d.toNat && d.toNat ≤ b.toNat

end SetPart

theorem not_mem_setSigns_of_isSign {c : Char} (hc : isSign c = true) : c ∉ setSigns := by
  have hall : ∀ c ∈ Hebrew.letters ++ [bareShin, '#', '@'], c ∉ setSigns := by decide
  exact hall c (mem_of_isSign hc)

theorem SetPart.IsComposed.range_ends {a b : Char} (hp : (SetPart.range a b).IsComposed) :
    a ∉ setSigns ∧ b ∉ setSigns :=
  ⟨not_mem_setSigns_of_isSign (isSign_of_isEnd (isEnd_of_isLetter hp.1)),
    not_mem_setSigns_of_isSign (isSign_of_isEnd (isEnd_of_isLetter hp.2))⟩

theorem readItems_text [Pattern.CharNames] {p : SetPart} (hp : p.IsComposed)
    (horder : p.inOrder = true) {rest : Text}
    (hrest : rest.head? ≠ some '-') (start pos : ℕ) (items : List SetItem) :
    readItems start pos items (p.text ++ rest) =
      readItems start (pos + p.text.length) (p.item :: items) rest := by
  cases p with
  | one c => exact Pattern.readItems_code (not_mem_setSigns_of_isSign hp) hrest start pos items
  | range a b =>
    exact Pattern.readItems_range hp.range_ends.1 hp.range_ends.2 (of_decide_eq_true horder) start pos
      items rest

section
variable {parts : List SetPart} (hparts : ∀ p ∈ parts, p.IsComposed)
include hparts

theorem head?_partsText_append (rest : Text) : (partsText parts ++ ']' :: rest).head? ≠ some '-' :=
  head?_partsText (fun p hp => (hparts p hp).isSpelled.isPlain) _ (by simp)

theorem readItems_partsText [Pattern.CharNames] (horder : ∀ p ∈ parts, p.inOrder = true) (start pos : ℕ)
    (items : List SetItem) (hne : items ≠ [] ∨ parts ≠ []) (rest : Text) :
    readItems start pos items (partsText parts ++ ']' :: rest) =
      .ok (items.reverse ++ parts.map SetPart.item, pos + (partsText parts).length + 1) := by
  induction parts generalizing pos items with
  | nil =>
    have hitems : items ≠ [] := hne.resolve_right fun h => h rfl
    rw [partsText, List.flatMap_nil, List.nil_append, Pattern.readItems_close hitems]
    simp
  | cons p parts ih =>
    obtain ⟨hp, hparts⟩ := List.forall_mem_cons.mp hparts
    obtain ⟨hpo, horder⟩ := List.forall_mem_cons.mp horder
    have hsplit : partsText (p :: parts) = p.text ++ partsText parts := List.flatMap_cons
    rw [hsplit, List.append_assoc, readItems_text hp hpo (head?_partsText_append hparts rest),
      ih hparts horder _ _ (.inl (List.cons_ne_nil _ _))]
    simp [Nat.add_assoc]

/-- The first range that is not in order is what is wrong. -/
theorem readItems_partsText_error [Pattern.CharNames] (hbad : ∃ p ∈ parts, p.inOrder = false)
    (start pos : ℕ) (items : List SetItem) (rest : Text) : ∃ lo hi offset noticed,
      readItems start pos items (partsText parts ++ ']' :: rest) =
        Pattern.fail (.badRange lo hi) offset noticed := by
  induction parts generalizing pos items with
  | nil =>
    obtain ⟨p, hp, -⟩ := hbad
    exact absurd hp List.not_mem_nil
  | cons p parts ih =>
    obtain ⟨hp, hparts⟩ := List.forall_mem_cons.mp hparts
    have hsplit : partsText (p :: parts) = p.text ++ partsText parts := List.flatMap_cons
    rw [hsplit, List.append_assoc]
    cases horder : p.inOrder with
    | true =>
      rw [readItems_text hp horder (head?_partsText_append hparts rest)]
      refine ih hparts ?_ _ _
      obtain ⟨q, hq, hqo⟩ := hbad
      obtain rfl | hq := List.mem_cons.mp hq
      · exact absurd (horder.symm.trans hqo) (by decide)
      · exact ⟨q, hq, hqo⟩
    | false =>
      cases p with
      | one c => cases horder
      | range a b =>
        have hlt : b.toNat < a.toNat := Nat.not_le.mp (of_decide_eq_false horder)
        exact ⟨[a], [b], pos, pos + 3,
          Pattern.readItems_badRange hp.range_ends.1 hp.range_ends.2 hlt start pos items _⟩

end

theorem accepts_items (parts : List SetPart) (d : Char) :
    ({ items := parts.map SetPart.item } : CharSet).accepts d = parts.any (·.holds d) := by
  have hitem : ∀ p : SetPart, CharSet.itemAccepts { items := parts.map SetPart.item } d p.item =
      p.holds d := by
    rintro (c | ⟨a, b⟩)
    · simp [CharSet.itemAccepts, CharSet.variants, SetPart.item, SetPart.holds, Char.toNat_inj, eq_comm]
    · simp [CharSet.itemAccepts, CharSet.variants, SetPart.item, SetPart.holds]
  rw [CharSet.accepts, Bool.bne_false, List.any_map]
  congr 1
  funext p
  exact hitem p

/-! ## What items become -/

theorem resolved_one {c : Char} (hc : isSign c = true) : resolved (.one c) =
    if c = '#' then [.range 'א' tav] else if c = '@' then matres.map .one
    else if c = bareShin then [.one sin, .one shin] else [.one (toRegular c)] := by
  have hall : ∀ c ∈ Hebrew.letters ++ [bareShin, '#', '@'], resolved (.one c) =
      if c = '#' then [.range 'א' tav] else if c = '@' then matres.map .one
      else if c = bareShin then [.one sin, .one shin] else [.one (toRegular c)] := by decide
  exact hall c (mem_of_isSign hc)

/-- The first character of the range that takes the place of a range from `a` on. -/
def lower (a : Char) : Char := if a = bareShin then tav else toRegular a

/-- The last character of the range that takes the place of a range from `a` to `b`. -/
def upper (a b : Char) : Char := if b = bareShin ∨ b = tav ∧ a ≠ tav then 'ר' else toRegular b

/-- What stands before the range that takes the place of a range from `a` on. -/
def addedBefore (a : Char) : List SetPart := if a = bareShin then [.one sin, .one shin] else []

/-- What stands after the range that takes the place of a range from `a` to `b`. -/
def addedAfter (a b : Char) : List SetPart :=
  if b = bareShin then [.one sin, .one shin]
  else if b = tav ∧ a ≠ tav then [.one sin, .one shin, .one tav] else []

/-- What the rules for ranges from and up to shin make of a range. -/
theorem composed_range (a b : Char) :
    ((endAtShin (.range a b)).flatMap fun p => (beginAtShin p).flatMap
      (expandOne bareShin [.one sin, .one shin])) =
    addedBefore a ++ .range (if a = bareShin then tav else a) (if b = bareShin then 'ר' else b) ::
      if b = bareShin then [.one sin, .one shin] else [] := by
  have hbegin : ∀ b, (beginAtShin (.range a b)).flatMap (expandOne bareShin [.one sin, .one shin]) =
      addedBefore a ++ [.range (if a = bareShin then tav else a) b] := by
    intro b
    rw [beginAtShin, addedBefore]
    by_cases ha : a = bareShin
    · rw [if_pos ha, if_pos ha, if_pos ha]
      rfl
    · rw [if_neg ha, if_neg ha, if_neg ha]
      rfl
  rw [endAtShin]
  by_cases hb : b = bareShin
  · rw [if_pos hb, if_pos hb, if_pos hb, List.flatMap_cons, hbegin, List.append_assoc]
    rfl
  · rw [if_neg hb, if_neg hb, if_neg hb, List.flatMap_singleton, hbegin]

theorem resolved_range (a b : Char) :
    resolved (.range a b) = addedBefore a ++ .range (lower a) (upper a b) :: addedAfter a b := by
  have hbare : ∀ c, toRegular c = bareShin ↔ c = bareShin := fun c => toRegular_eq_iff (by decide)
  have htav : ∀ c, toRegular c = tav ↔ c = tav := fun c => toRegular_eq_iff (by decide)
  have hbefore : addedBefore (toRegular a) = addedBefore a := by simp only [addedBefore, hbare]
  have hcomposed : composed (.range a b) =
      addedBefore a ++ .range (lower a) (upper a b) :: addedAfter a b := by
    have hcond : toRegular b = tav ∧ toRegular a ≠ tav ↔ b = tav ∧ a ≠ tav := by
      simp only [ne_eq, htav]
    rw [composed, SetPart.regular, endAtTav, lower, upper, addedAfter]
    by_cases ht : b = tav ∧ a ≠ tav
    · have hb : b ≠ bareShin := ht.1 ▸ by decide
      rw [if_pos (hcond.mpr ht), List.flatMap_cons, composed_range, if_neg hb, if_pos ht,
        if_pos (Or.inr ht), hbefore]
      simp only [hbare, List.append_assoc]
      rfl
    · rw [if_neg fun h => ht (hcond.mp h), List.flatMap_singleton, composed_range, if_neg ht, hbefore]
      simp only [hbare, ht, or_false]
  -- the rules for the signs leave all of it as it is
  have hbefore' : (addedBefore a).flatMap expanded = addedBefore a := by
    rw [addedBefore]
    split <;> rfl
  have hafter : (addedAfter a b).flatMap expanded = addedAfter a b := by
    rw [addedAfter]
    split
    · rfl
    · split <;> rfl
  rw [resolved, hcomposed, List.flatMap_append, hbefore', List.flatMap_cons, hafter]
  rfl

example : resolved (.range bareShin tav) =
    [.one sin, .one shin, .range tav 'ר', .one sin, .one shin, .one tav] := by decide

/-! ## What items mean -/

/-- Whether a character is a shin or a sin, composed or not. -/
def isShin (c : Char) : Bool := c = bareShin || c = shin || c = sin

/-- The place of a letter in the alphabet. Shin and sin have the place of the bare shin, which comes
between resh and tav. -/
def place (c : Char) : ℕ := if isShin c then bareShin.toNat else (toRegular c).toNat

namespace SetPart

/-- A letter, a bare shin or a sign, or a range in alphabetical order. -/
def isWellFormed : SetPart → Bool
  | one c => isSign c
  | range a b => isEnd a && isEnd b && place a ≤ place b

/-- The letters that an item denotes. -/
def denotes : SetPart → Char → Bool
  | one c, d =>
    if c = '#' then true
    else if c = '@' then matres.contains d
    else if c = bareShin then d = shin || d = sin
    else d = toRegular c
  | range a b, d => place a ≤ place d && place d ≤ place b

/-- The letters that the pattern of an item matches. The sign for any letter misses shin and sin, and a
range up to a composed letter goes by code points. -/
def finds : SetPart → Char → Bool
  | one c, d => if c = '#' then !isShin d else (one c).denotes d
  | range a b, d =>
    if b = shin || b = sin then
      a = bareShin && isShin d || (lower a).toNat ≤ d.toNat && d.toNat ≤ b.toNat
    else (range a b).denotes d

/-- A range from shin or sin of which nothing is left to match. -/
def isBroken : SetPart → Bool
  | one _ => false
  | range a b => isShin a && (b = bareShin || b = tav) || a = sin && b = shin

/-- An item of which the pattern matches what it denotes. -/
def isFaithful : SetPart → Bool
  | one c => c ≠ '#'
  | range a b => !isShin a && b ≠ shin && b ≠ sin || a = shin && b = sin

end SetPart

theorem SetPart.isWellFormed_range {a b : Char} : (SetPart.range a b).isWellFormed = true ↔
    isEnd a = true ∧ isEnd b = true ∧ place a ≤ place b := by
  simp [SetPart.isWellFormed, and_assoc]

/-- What a range may begin and end with. -/
def ends : Text := bareShin :: Hebrew.letters

theorem mem_ends {c : Char} (hc : isEnd c = true) : c ∈ ends := by
  simpa [isEnd, ends, Hebrew.isLetter, or_comm] using hc

theorem place_of_isShin {c : Char} (hc : isShin c = true) : place c = 0x5e9 := by
  rw [place, hc]
  rfl

/-- The place of a letter other than shin and sin is its code point. -/
theorem place_of_not_isShin {c : Char} (hc : isEnd c = true) (hshin : isShin c = false) :
    place c = (toRegular c).toNat ∧ place c ≤ 0x5ea ∧ place c ≠ 0x5e9 ∧ (c = tav ↔ place c = 0x5ea) := by
  have hall : ∀ c ∈ ends, isShin c = false → place c = (toRegular c).toNat ∧ place c ≤ 0x5ea ∧
      place c ≠ 0x5e9 ∧ (c = tav ↔ place c = 0x5ea) := by decide
  exact hall c (mem_ends hc) hshin

theorem shin_of_isPlainLetter {d : Char} (hd : isPlainLetter d = true) (hshin : isShin d = true) :
    0xfb2a ≤ d.toNat ∧ (d = sin ∨ d = shin) := by
  have hall : ∀ d ∈ Hebrew.letters, isShin d = true → 0xfb2a ≤ d.toNat ∧ (d = sin ∨ d = shin) := by
    decide
  exact hall d (Hebrew.mem_letters_of_isPlainLetter hd) hshin

/-- The range that takes the place of a range in alphabetical order is in order unless the range is
broken. -/
theorem inOrder_range_iff {a b : Char} (hp : (SetPart.range a b).isWellFormed = true) :
    (SetPart.range (lower a) (upper a b)).inOrder = !(SetPart.range a b).isBroken := by
  have hall : ∀ a ∈ ends, ∀ b ∈ ends, place a ≤ place b →
      (SetPart.range (lower a) (upper a b)).inOrder = !(SetPart.range a b).isBroken := by
    decide +kernel
  obtain ⟨ha, hb, hle⟩ := SetPart.isWellFormed_range.mp hp
  exact hall a (mem_ends ha) b (mem_ends hb) hle

theorem any_shins {d : Char} (hd : isPlainLetter d = true) :
    [SetPart.one sin, .one shin].any (·.holds d) = isShin d := by
  have hshin : isShin d = true ↔ d = sin ∨ d = shin := by
    refine ⟨fun h => (shin_of_isPlainLetter hd h).2, ?_⟩
    rintro (rfl | rfl) <;> decide
  rw [Bool.eq_iff_iff, hshin]
  simp [SetPart.holds]

theorem any_addedBefore (a : Char) {d : Char} (hd : isPlainLetter d = true) :
    (addedBefore a).any (·.holds d) = true ↔ a = bareShin ∧ isShin d = true := by
  rw [addedBefore]
  by_cases h : a = bareShin
  · rw [if_pos h, any_shins hd]
    simp only [h, true_and]
  · simp [h]

theorem any_addedAfter (a b : Char) {d : Char} (hd : isPlainLetter d = true) :
    (addedAfter a b).any (·.holds d) = true ↔
      (b = bareShin ∨ b = tav ∧ a ≠ tav) ∧ isShin d = true ∨ b = tav ∧ a ≠ tav ∧ d = tav := by
  rw [addedAfter]
  by_cases hb : b = bareShin
  · have htav : bareShin ≠ tav := by decide
    simp only [hb, if_true, any_shins hd, htav, false_and, or_false, true_and]
  by_cases ht : b = tav ∧ a ≠ tav
  · have hsplit : [SetPart.one sin, .one shin, .one tav] = [.one sin, .one shin] ++ [.one tav] := rfl
    rw [if_neg hb, if_pos ht, hsplit, List.any_append, any_shins hd]
    simp [ht, SetPart.holds]
  · rw [if_neg hb, if_neg ht]
    simp only [hb, ht, or_self, false_and, List.any_nil, Bool.false_eq_true, false_or, false_iff]
    exact fun h => ht ⟨h.1, h.2.1⟩

/-- What the range of code points holds, and what is added before and after it. -/
theorem any_resolved_range (a b : Char) {d : Char} (hd : isPlainLetter d = true) :
    (resolved (.range a b)).any (·.holds d) = true ↔
      a = bareShin ∧ isShin d = true ∨ (lower a).toNat ≤ d.toNat ∧ d.toNat ≤ (upper a b).toNat ∨
        (b = bareShin ∨ b = tav ∧ a ≠ tav) ∧ isShin d = true ∨ b = tav ∧ a ≠ tav ∧ d = tav := by
  rw [resolved_range, List.any_append, List.any_cons, Bool.or_eq_true, Bool.or_eq_true,
    any_addedBefore a hd, any_addedAfter a b hd, SetPart.holds, Bool.and_eq_true, decide_eq_true_eq,
    decide_eq_true_eq]

theorem isShin_of_not_broken {a b : Char} (hp : (SetPart.range a b).isWellFormed = true)
    (hbroken : (SetPart.range a b).isBroken = false) (hcomposed : ¬(b = shin ∨ b = sin)) :
    isShin a = false := by
  obtain ⟨-, hb, hle⟩ := SetPart.isWellFormed_range.mp hp
  rw [Bool.eq_false_iff]
  intro hshin
  rw [place_of_isShin hshin] at hle
  have hend : b = bareShin ∨ b = tav := by
    by_cases hbare : b = bareShin
    · exact .inl hbare
    · have hnot : isShin b = false := by simp [isShin, hbare, not_or.mp hcomposed]
      obtain ⟨-, hmost, hne, htav⟩ := place_of_not_isShin hb hnot
      exact .inr (htav.mpr (by omega))
  have hbroken' : (SetPart.range a b).isBroken = true := by
    obtain rfl | rfl := hend <;> simp [SetPart.isBroken, hshin]
  rw [hbroken] at hbroken'
  cases hbroken'

/-- From a letter other than shin to a letter that is not composed a range holds what it denotes. -/
theorem held_iff {a b : Char} (hp : (SetPart.range a b).isWellFormed = true)
    (hshin : isShin a = false) (hcomposed : ¬(b = shin ∨ b = sin)) {d : Char}
    (hd : isPlainLetter d = true) : ((lower a).toNat ≤ d.toNat ∧ d.toNat ≤ (upper a b).toNat ∨
      (b = bareShin ∨ b = tav ∧ a ≠ tav) ∧ isShin d = true ∨ b = tav ∧ a ≠ tav ∧ d = tav) ↔
      place a ≤ place d ∧ place d ≤ place b := by
  obtain ⟨ha, hb, hle⟩ := SetPart.isWellFormed_range.mp hp
  obtain ⟨hplace, hmost, hne, htav⟩ := place_of_not_isShin ha hshin
  have hlower : (lower a).toNat = place a := by
    have hbare : a ≠ bareShin := by
      rintro rfl
      cases hshin
    rw [lower, if_neg hbare, hplace]
  have hresh : (if b = bareShin ∨ b = tav ∧ a ≠ tav then 'ר' else toRegular b).toNat =
      if b = bareShin ∨ b = tav ∧ a ≠ tav then 0x5e8 else (toRegular b).toNat := by
    split <;> rfl
  have hend : isShin b = false → place b = (toRegular b).toNat ∧ place b ≤ 0x5ea ∧ place b ≠ 0x5e9 ∧
      (b = tav ↔ place b = 0x5ea) := place_of_not_isShin hb
  have hbare : b = bareShin → place b = 0x5e9 := by rintro rfl; rfl
  have hlast : b = tav → place b = 0x5ea := by rintro rfl; rfl
  have hnot : b ≠ bareShin → isShin b = false := fun h => by simp [isShin, h, not_or.mp hcomposed]
  rw [hlower, upper, hresh]
  cases hshin' : isShin d with
  | true =>
    obtain ⟨hcode, -⟩ := shin_of_isPlainLetter hd hshin'
    have hd' : place d = 0x5e9 := place_of_isShin hshin'
    have hne' : d ≠ tav := by
      rintro rfl
      cases hshin'
    simp only [hne', and_false, or_false, and_true]
    grind
  | false =>
    have hletter := isEnd_of_isLetter (Bool.and_eq_true_iff.mp hd).1
    obtain ⟨hd', hmost', hne', htav'⟩ := place_of_not_isShin hletter hshin'
    rw [Hebrew.toRegular_of_isPlainLetter hd] at hd'
    simp only [Bool.false_eq_true, and_false, false_or]
    grind

theorem any_resolved {p : SetPart} (hp : p.isWellFormed = true) (hbroken : p.isBroken = false)
    {d : Char} (hd : isPlainLetter d = true) : (resolved p).any (·.holds d) = p.finds d := by
  have hmem := Hebrew.mem_letters_of_isPlainLetter hd
  cases p with
  | one c =>
    have hany : ∀ d ∈ Hebrew.letters, isPlainLetter d = true →
        [SetPart.range 'א' tav].any (·.holds d) = !isShin d := by decide
    have hmatres : ∀ d ∈ Hebrew.letters,
        (matres.map SetPart.one).any (·.holds d) = matres.contains d := by decide
    rw [resolved_one hp, SetPart.finds, SetPart.denotes]
    by_cases hsign : c = '#'
    · rw [if_pos hsign, if_pos hsign, hany d hmem hd]
    by_cases hmother : c = '@'
    · rw [if_neg hsign, if_neg hsign, if_neg hsign, if_pos hmother, if_pos hmother, hmatres d hmem]
    by_cases hbare : c = bareShin
    · rw [if_neg hsign, if_neg hsign, if_neg hsign, if_neg hmother, if_neg hmother, if_pos hbare,
        if_pos hbare]
      simp [SetPart.holds, Bool.or_comm]
    · simp [hsign, hmother, hbare, SetPart.holds]
  | range a b =>
    rw [Bool.eq_iff_iff, any_resolved_range a b hd, SetPart.finds]
    by_cases hcomposed : b = shin ∨ b = sin
    · have hbare : b ≠ bareShin := by
        rintro rfl
        exact absurd hcomposed (by decide)
      have htav : b ≠ tav := by
        rintro rfl
        exact absurd hcomposed (by decide)
      have hupper : upper a b = b := by
        have hregular : toRegular b = b := by obtain rfl | rfl := hcomposed <;> rfl
        simp [upper, hbare, htav, hregular]
      simp [hcomposed, hbare, htav, hupper]
    · have hshin := isShin_of_not_broken hp hbroken hcomposed
      have hnot : a ≠ bareShin := by
        rintro rfl
        cases hshin
      simp only [hnot, false_and, false_or, held_iff hp hshin hcomposed hd]
      simp [hcomposed, SetPart.denotes]

theorem resolved_ne_nil {p : SetPart} (hp : p.isWellFormed = true) : resolved p ≠ [] := by
  cases p with
  | one c =>
    have hall : ∀ c ∈ Hebrew.letters ++ [bareShin, '#', '@'], resolved (.one c) ≠ [] := by decide
    exact hall c (mem_of_isSign hp)
  | range a b =>
    rw [resolved_range]
    exact List.append_ne_nil_of_right_ne_nil _ (List.cons_ne_nil _ _)

theorem all_inOrder_resolved {p : SetPart} (hp : p.isWellFormed = true) :
    (resolved p).all (·.inOrder) = !p.isBroken := by
  cases p with
  | one c =>
    have hall : ∀ c ∈ Hebrew.letters ++ [bareShin, '#', '@'],
        (resolved (.one c)).all (·.inOrder) = true := by decide
    exact hall c (mem_of_isSign hp)
  | range a b =>
    have hbefore : (addedBefore a).all (·.inOrder) = true := by
      rw [addedBefore]
      split <;> rfl
    have hafter : (addedAfter a b).all (·.inOrder) = true := by
      rw [addedAfter]
      split
      · rfl
      · split <;> rfl
    rw [resolved_range, List.all_append, hbefore, List.all_cons, hafter, inOrder_range_iff hp,
      Bool.true_and, Bool.and_true]

/-- From a letter other than a composed one to a composed one a range holds tav as well. -/
theorem finds_tav {a b : Char} (hp : (SetPart.range a b).isWellFormed = true)
    (ha : isShin a = true → a = bareShin) (hcomposed : b = shin ∨ b = sin) :
    (SetPart.range a b).finds tav = true ∧ (SetPart.range a b).denotes tav = false := by
  obtain ⟨hend, -⟩ := SetPart.isWellFormed_range.mp hp
  have htav : tav.toNat = 0x5ea := rfl
  have hlower : (lower a).toNat ≤ tav.toNat := by
    rw [lower]
    by_cases hbare : a = bareShin
    · rw [if_pos hbare]
    · obtain ⟨hplace, hmost, -⟩ :=
        place_of_not_isShin hend (Bool.eq_false_iff.mpr fun h => hbare (ha h))
      rw [if_neg hbare, htav]
      omega
  have hupper : tav.toNat ≤ b.toNat ∧ place b = 0x5e9 := by obtain rfl | rfl := hcomposed <;> decide
  constructor
  · simp [SetPart.finds, hcomposed, hlower, hupper.1]
  · have hplace : place tav = 0x5ea := rfl
    simp [SetPart.denotes, hplace, hupper.2]

/-- Of the ranges up to a composed letter only the one from shin to sin is matched as it should be. -/
theorem eq_shin_sin_of_same {a b : Char} (hp : (SetPart.range a b).isWellFormed = true)
    (hcomposed : b = shin ∨ b = sin) (hbroken : (SetPart.range a b).isBroken = false)
    (hsame : ∀ d, isPlainLetter d = true → (SetPart.range a b).finds d = (SetPart.range a b).denotes d) :
    a = shin ∧ b = sin := by
  by_cases ha : isShin a = true → a = bareShin
  · obtain ⟨hfinds, hdenotes⟩ := finds_tav hp ha hcomposed
    rw [hsame tav (by decide), hdenotes] at hfinds
    cases hfinds
  · obtain rfl | rfl : a = shin ∨ a = sin := by
      simp only [isShin, Bool.or_eq_true, decide_eq_true_eq, or_assoc, not_forall] at ha
      obtain ⟨hshin, hbare⟩ := ha
      exact hshin.resolve_left hbare
    · obtain rfl | rfl := hcomposed
      · exact absurd (hsame sin (by decide)) (by decide)
      · exact ⟨rfl, rfl⟩
    · obtain rfl | rfl := hcomposed
      · cases hbroken
      · exact absurd (hsame shin (by decide)) (by decide)

/-- The rules for ranges from shin, the sign for any letter and ranges up to composed letters are what
keeps a pattern from matching what its items denote. -/
theorem isFaithful_iff {p : SetPart} (hp : p.isWellFormed = true) : p.isFaithful = true ↔
    p.isBroken = false ∧ ∀ d, isPlainLetter d = true → p.finds d = p.denotes d := by
  cases p with
  | one c =>
    by_cases hc : c = '#'
    · subst hc
      refine ⟨nofun, fun h => ?_⟩
      exact absurd (h.2 shin (by decide)) (by decide)
    · refine ⟨fun _ => ⟨rfl, fun d _ => ?_⟩, fun _ => by simpa [SetPart.isFaithful] using hc⟩
      rw [SetPart.finds, if_neg hc]
  | range a b =>
    by_cases hcomposed : b = shin ∨ b = sin
    · have hfaithful : (SetPart.range a b).isFaithful = true ↔ a = shin ∧ b = sin := by
        have hnot : ¬(b ≠ shin ∧ b ≠ sin) := fun hne => hcomposed.elim hne.1 hne.2
        simp [SetPart.isFaithful, hnot, and_assoc]
      rw [hfaithful]
      refine ⟨?_, fun h => eq_shin_sin_of_same hp hcomposed h.1 h.2⟩
      rintro ⟨rfl, rfl⟩
      have hall : ∀ d ∈ Hebrew.letters, isPlainLetter d = true →
          (SetPart.range shin sin).finds d = (SetPart.range shin sin).denotes d := by decide
      exact ⟨rfl, fun d hd => hall d (Hebrew.mem_letters_of_isPlainLetter hd) hd⟩
    · obtain ⟨hb, hb'⟩ := not_or.mp hcomposed
      have hfaithful : (SetPart.range a b).isFaithful = !isShin a := by
        simp [SetPart.isFaithful, hb, hb']
      rw [hfaithful, Bool.not_eq_true']
      refine ⟨fun hshin => ⟨?_, fun d _ => ?_⟩, fun h => isShin_of_not_broken hp h.1 hcomposed⟩
      · simp [SetPart.isBroken, hshin, hb]
      · simp [SetPart.finds, hb, hb']

/-! ## Compiling -/

theorem isSpelled_of_isWellFormed {p : SetPart} (hp : p.isWellFormed = true) : p.IsSpelled := by
  cases p with
  | one c => exact hp
  | range a b =>
    obtain ⟨ha, hb, -⟩ := SetPart.isWellFormed_range.mp hp
    exact ⟨ha, hb⟩

theorem isAllBlank_setText (parts : List SetPart) : (setText parts).isAllBlank = false :=
  List.all_eq_false.mpr ⟨'[', List.mem_cons_self .., by decide⟩

theorem not_mem_setText {parts : List SetPart} (hparts : ∀ p ∈ parts, p.IsSpelled) :
    '<' ∉ setText parts := fun hmem => by
  obtain h | h := mem_setText hparts hmem
  · exact absurd h (by decide)
  · exact absurd h (by decide)

section
variable (l : Lexicon) (verbsOnly : Bool) (limit : ℕ) {parts : List SetPart}

theorem compile_setText_eq [Pattern.CharNames] [Text.Ranking] (hparts : ∀ p ∈ parts, p.IsSpelled) :
    compile l (setText parts) verbsOnly limit =
      match Pattern.parse (setText (parts.flatMap resolved)) with
      | .error e => .error (e.toCompileError .invalidPattern)
      | .ok p => .ok ⟨setText (parts.flatMap resolved), p, verbsOnly, []⟩ := by
  have hresolves : Resolves l verbsOnly limit (setText parts) (setText parts) [] :=
    resolves_text (not_mem_setText hparts)
  have hsource := (normalizeSource_setText hparts).1
  have h := compile_eq_of_resolves (isAllBlank_setText parts) (by simp [setText]) hresolves
    (hsource ▸ isAllBlank_setText _)
  rwa [hsource] at h

theorem head?_partsText_ne {parts : List SetPart} (hparts : ∀ p ∈ parts, p.IsComposed) (rest : Text) :
    (partsText parts).head? ≠ some '^' ∧ (partsText parts ++ ']' :: rest).head? ≠ some '^' := by
  cases parts with
  | nil => simp [partsText]
  | cons p parts =>
    have hp := hparts p (List.mem_cons_self ..)
    have hcaret : ∀ c, isSign c = true → c ≠ '^' := by
      rintro c hc rfl
      exact absurd hc (by decide)
    cases p with
    | one c => simpa [partsText, SetPart.text] using hcaret c hp
    | range a b =>
      simpa [partsText, SetPart.text] using hcaret a (isSign_of_isEnd (isEnd_of_isLetter hp.1))

/-- A range that is not in order after the substitutions is what is wrong with the query. -/
theorem compile_setText_error [Pattern.CharNames] [Text.Ranking] (hparts : ∀ p ∈ parts, p.IsSpelled)
    (hbad : ∃ q ∈ parts.flatMap resolved, q.inOrder = false) : ∃ lo hi place,
      compile l (setText parts) verbsOnly limit =
        .error (.query (.invalidPattern ⟨.badRange lo hi, some place⟩)) := by
  have hcomposed := (normalizeSource_setText hparts).2
  obtain ⟨lo, hi, offset, noticed, hread⟩ := readItems_partsText_error hcomposed hbad 0 1 [] []
  have hparse := Pattern.parse_of_readItems_error (head?_partsText_ne hcomposed []).2 (by simp) hread
  refine ⟨lo, hi, .of (setText (parts.flatMap resolved)) offset, ?_⟩
  rw [compile_setText_eq l verbsOnly limit hparts, setText, List.cons_append, hparse]
  rfl

/-- Otherwise the pattern is one for the characters in the items. -/
theorem compile_setText_ok [Pattern.CharNames] [Text.Ranking] (hparts : ∀ p ∈ parts, p.IsSpelled)
    (hne : parts.flatMap resolved ≠ []) (horder : ∀ q ∈ parts.flatMap resolved, q.inOrder = true) :
    ∃ c, compile l (setText parts) verbsOnly limit = .ok c ∧
      c.pattern.node.Denotes (Pattern.oneWith fun d =>
        (parts.flatMap resolved).any (·.holds d) = true) := by
  have hcomposed := (normalizeSource_setText hparts).2
  have hreads := Pattern.readsOne_items (head?_partsText_ne hcomposed []).1 fun start pos rest =>
    readItems_partsText hcomposed horder start pos [] (.inr hne) rest
  have hlast : (setText (parts.flatMap resolved)).getLast? ≠ some '\\' := by
    rw [setText, List.getLast?_concat]
    decide
  obtain ⟨p, hp, hdenotes⟩ := Pattern.parse_of_readsAs hreads.readsAs hlast
  refine ⟨⟨setText (parts.flatMap resolved), p, verbsOnly, []⟩, ?_, ?_⟩
  · rw [compile_setText_eq l verbsOnly limit hparts, setText, hp]
  · simpa only [CharSet.language, List.reverse_nil, List.nil_append, accepts_items] using hdenotes

end

/-- A bracket expression over letters and signs, in any number and order. It fails if one of its items
is a broken range; otherwise its pattern matches the letters that the items find, and if all items are
faithful, those that they denote. -/
theorem compile_letterSet [Pattern.CharNames] [Text.Ranking] (l : Lexicon) (verbsOnly : Bool)
    (limit : ℕ) {parts : List SetPart}
    (hne : parts ≠ []) (hparts : ∀ p ∈ parts, p.isWellFormed = true) :
    ((∃ p ∈ parts, p.isBroken = true) → ∃ lo hi place, compile l (setText parts) verbsOnly limit =
      .error (.query (.invalidPattern ⟨.badRange lo hi, some place⟩))) ∧
    ((∀ p ∈ parts, p.isBroken = false) → ∃ c, compile l (setText parts) verbsOnly limit = .ok c ∧
      ∀ s n d, s[n]? = some d → isPlainLetter d = true →
        ((n, n + 1) ∈ c.pattern.findAll s ↔ ∃ p ∈ parts, p.finds d = true)) ∧
    ((∀ p ∈ parts, p.isFaithful = true) → ∃ c, compile l (setText parts) verbsOnly limit = .ok c ∧
      ∀ s n d, s[n]? = some d → isPlainLetter d = true →
        ((n, n + 1) ∈ c.pattern.findAll s ↔ ∃ p ∈ parts, p.denotes d = true)) ∧
    ∀ p ∈ parts, p.isFaithful = true ↔
      p.isBroken = false ∧ ∀ d, isPlainLetter d = true → p.finds d = p.denotes d := by
  have hspelled : ∀ p ∈ parts, p.IsSpelled := fun p hp => isSpelled_of_isWellFormed (hparts p hp)
  have hcompiles : (∀ p ∈ parts, p.isBroken = false) → ∃ c, compile l (setText parts) verbsOnly limit =
      .ok c ∧ ∀ s n d, s[n]? = some d → isPlainLetter d = true →
        ((n, n + 1) ∈ c.pattern.findAll s ↔ ∃ p ∈ parts, p.finds d = true) := by
    intro hbroken
    have horder : ∀ q ∈ parts.flatMap resolved, q.inOrder = true := by
      intro q hq
      obtain ⟨p, hp, hq⟩ := List.mem_flatMap.mp hq
      have hall := all_inOrder_resolved (hparts p hp)
      rw [hbroken p hp] at hall
      exact List.all_eq_true.mp hall q hq
    have hresolved : parts.flatMap resolved ≠ [] := by
      obtain ⟨p, rest, rfl⟩ := List.exists_cons_of_ne_nil hne
      have hp := resolved_ne_nil (hparts p (List.mem_cons_self ..))
      rw [List.flatMap_cons]
      exact List.append_ne_nil_of_left_ne_nil hp _
    obtain ⟨c, hc, hdenotes⟩ := compile_setText_ok l verbsOnly limit hspelled hresolved horder
    refine ⟨c, hc, fun s n d hn hd => ?_⟩
    rw [Pattern.mem_findAll_iff_of_oneWith hdenotes hn, List.any_flatMap, List.any_eq_true]
    exact exists_congr fun p => and_congr_right fun hp => by
      rw [any_resolved (hparts p hp) (hbroken p hp) hd]
  refine ⟨?_, hcompiles, fun hfaithful => ?_, fun p hp => isFaithful_iff (hparts p hp)⟩
  · rintro ⟨p, hp, hbroken⟩
    have hall := all_inOrder_resolved (hparts p hp)
    rw [hbroken, Bool.not_true, List.all_eq_false] at hall
    obtain ⟨q, hq, horder⟩ := hall
    exact compile_setText_error l verbsOnly limit hspelled
      ⟨q, List.mem_flatMap.mpr ⟨p, hp, hq⟩, by simpa using horder⟩
  · have hsame := fun p hp => (isFaithful_iff (hparts p hp)).mp (hfaithful p hp)
    obtain ⟨c, hc, hfinds⟩ := hcompiles fun p hp => (hsame p hp).1
    refine ⟨c, hc, fun s n d hn hd => (hfinds s n d hn hd).trans ?_⟩
    exact exists_congr fun p => and_congr_right fun hp => by rw [(hsame p hp).2 d hd]

/-- A range from shin to tav is no pattern, though it denotes shin. -/
theorem compile_letterSet_of_shin_to_tav :
    let parts := [SetPart.range bareShin tav]
    parts ≠ [] ∧ (∀ p ∈ parts, p.isWellFormed = true) ∧ setText parts = "[ש-ת]".toList ∧
      (∃ lo hi place, compile ⟨[]⟩ (setText parts) false 5 =
        .error (.query (.invalidPattern ⟨.badRange lo hi, some place⟩))) ∧
      (SetPart.range bareShin tav).denotes shin = true := by
  intro parts
  have hparts : ∀ p ∈ parts, p.isWellFormed = true := List.forall_mem_singleton.mpr rfl
  have hne : parts ≠ [] := List.cons_ne_nil _ _
  obtain ⟨herror, -⟩ := compile_letterSet ⟨[]⟩ false 5 hne hparts
  exact ⟨hne, hparts, by decide, herror ⟨_, List.mem_cons_self .., rfl⟩, rfl⟩

end VerseSearch.Query
