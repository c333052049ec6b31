import VerseSearch.Proofs.Matching.SourceText
import VerseSearch.Proofs.Query.Rewriting
import VerseSearch.SearchString

/-! # The languages of queries

* `described`: what a sign of a query describes, as a language.
* `matched`: what its pattern matches; the two agree on texts of letters (`mem_matched_iff`).
* `entriesLanguage`: the language of the pattern that takes the place of a block.
* `slotLanguage`: an optional tag.
* `readsAs_spaced`: the language of the pattern of a whole query.
-/

namespace VerseSearch.Query
set_option autoImplicit false

open Computability
open Hebrew (bareShin shin sin tav toRegular toRegular_eq_iff)
open Text (digits mem_digits_of_mem_ofNat)
open Pattern (CharSet ReadsAs ReadsOne NoAppetite oneOf oneWith)

/-! ## Signs -/

/-- What a sign of a query describes: a bare shin is a shin or a sin, a final form is its letter, and
two signs stand for any letter and for any number of the letters that may stand for vowels. -/
def described (c : Char) : Language Char :=
  if c = '@' then (oneOf ['א', 'ה', 'ו', 'י'])∗
  else if c = '#' then oneOf Hebrew.letters
  else if c = bareShin then oneOf [shin, sin]
  else oneOf [toRegular c]

/-- The set that takes the place of the sign for any letter. -/
def anyLetter : CharSet := { items := [.range 0x5d0 0x5ea, .code 0xfb2a, .code 0xfb2b] }

/-- What the pattern of a sign matches. -/
def matched (c : Char) : Language Char := if c = '#' then anyLetter.language else described c

/-- The signs of queries. -/
def isSign (c : Char) : Bool := Hebrew.isLetter c || c = bareShin || c = '#' || c = '@'

theorem accepts_anyLetter {c : Char} (hc : c ∈ Hebrew.letters) : anyLetter.accepts c = true := by
  revert c
  decide

theorem toRegular_not_mem_signs {c : Char} (hc : c ∉ Pattern.signs) : toRegular c ∉ Pattern.signs := by
  have hfinal : ∀ s ∈ Pattern.signs, ∀ f ∈ Hebrew.finalForms, s ≠ f.1 ∧ s ≠ f.2 := by decide
  intro h
  exact hc ((toRegular_eq_iff (hfinal _ h)).mp rfl ▸ h)

theorem readsOne_anyLetter [Pattern.CharNames] :
    ReadsOne anyLetterSubstitution.outside anyLetter.language := by
  have hitems : ∀ start pos rest, Pattern.readItems start pos []
      (['א', '-', tav, shin, sin] ++ ']' :: rest) =
      .ok ([.range 0x5d0 0x5ea, .code 0xfb2a, .code 0xfb2b], pos + 5 + 1) := by
    intro start pos rest
    rw [List.cons_append, List.cons_append, List.cons_append,
      Pattern.readItems_range (by decide) (by decide) (by decide)]
    exact Pattern.readItems_codes (by decide) start (pos + 3) _ (.inl (by decide)) rest
  exact Pattern.readsOne_items (by decide) hitems

/-- What a sign becomes is read as what the pattern of the sign matches. -/
theorem readsAs_signText [Pattern.CharNames] {c : Char} (hc : c ∉ Pattern.signs) :
    ReadsAs (signText c) (matched c) ∧ NoAppetite (signText c) := by
  rw [signText, matched, described]
  by_cases hmatres : c = '@'
  · subst hmatres
    have hset := Pattern.readsOne_set ['א', 'ה', 'ו', 'י'] (by decide) (by decide)
    exact ⟨hset.star, .cons (by decide) _⟩
  by_cases hany : c = '#'
  · subst hany
    exact ⟨readsOne_anyLetter.readsAs, .cons (by decide) _⟩
  simp only [if_neg hmatres, if_neg hany, letterText]
  by_cases hbare : c = bareShin
  · simp only [if_pos hbare]
    have hset := Pattern.readsOne_set [sin, shin] (by decide) (by decide)
    have hswap : oneOf [sin, shin] = oneOf [shin, sin] := by
      ext u
      change (∃ d ∈ [sin, shin], u = [d]) ↔ ∃ d ∈ [shin, sin], u = [d]
      simp [or_comm]
    rw [hswap] at hset
    exact ⟨hset.readsAs, .cons (by decide) _⟩
  · simp only [if_neg hbare, Pattern.oneOf_singleton]
    have hregular := toRegular_not_mem_signs hc
    refine ⟨(Pattern.readsOne_char hregular).readsAs, .cons ⟨fun h => ?_, fun h => ?_⟩ []⟩
    · exact hregular (h ▸ by decide)
    · exact hregular (h ▸ by decide)

theorem readsAs_flatMap_signText [Pattern.CharNames] {t : Text} (ht : ∀ c ∈ t, c ∉ Pattern.signs) :
    ReadsAs (t.flatMap signText) (t.map matched).prod ∧ NoAppetite (t.flatMap signText) :=
  Pattern.readsAs_flatMap (fun c hc => (readsAs_signText (ht c hc)).1)
    fun c hc => (readsAs_signText (ht c hc)).2

/-! ## Described and matched texts -/

theorem mem_prod_of_subset {L M : Char → Language Char} {t u : Text}
    (h : ∀ c ∈ t, ∀ v, (∀ d ∈ v, d ∈ u) → v ∈ L c → v ∈ M c) (hu : u ∈ (t.map L).prod) :
    u ∈ (t.map M).prod := by
  induction t generalizing u with
  | nil => exact hu
  | cons c t ih =>
    rw [List.map_cons, List.prod_cons, Language.mem_mul] at hu ⊢
    obtain ⟨v, hv, w, hw, rfl⟩ := hu
    refine ⟨v, h c (by simp) v (by simp +contextual) hv, w, ih (fun d hd x hx => ?_) hw, rfl⟩
    exact h d (by simp [hd]) x fun e he => List.mem_append_right v (hx e he)

theorem mem_described_of_mem_matched {c : Char} {u : Text} (hu : ∀ d ∈ u, d ∈ Hebrew.letters)
    (h : u ∈ matched c) : u ∈ described c := by
  rw [matched] at h
  by_cases hany : c = '#'
  · subst hany
    rw [if_pos rfl] at h
    obtain ⟨d, -, rfl⟩ := h
    exact ⟨d, hu d (by simp), rfl⟩
  · rwa [if_neg hany] at h

theorem mem_matched_of_mem_described {c : Char} {u : Text} (h : u ∈ described c) : u ∈ matched c := by
  rw [matched]
  by_cases hany : c = '#'
  · subst hany
    obtain ⟨d, hd, rfl⟩ := h
    rw [if_pos rfl]
    exact ⟨d, accepts_anyLetter hd, rfl⟩
  · rwa [if_neg hany]

/-- Among texts of letters the pattern of a text of signs matches what the signs describe. -/
theorem mem_matched_iff {t u : Text} (hu : ∀ d ∈ u, d ∈ Hebrew.letters) :
    u ∈ (t.map matched).prod ↔ u ∈ (t.map described).prod := by
  refine ⟨mem_prod_of_subset fun c _ v hv => ?_, mem_prod_of_subset fun c _ v _ => ?_⟩
  · exact mem_described_of_mem_matched fun d hd => hu d (hv d hd)
  · exact mem_matched_of_mem_described

theorem accepts_toRegular {c : Char} (hc : c ∈ Hebrew.letters) :
    anyLetter.accepts (toRegular c) = true := by
  revert c
  decide

theorem accepts_of_mem_matched {c : Char} (hc : isSign c = true) {u : Text} (hu : u ∈ matched c) :
    ∀ d ∈ u, anyLetter.accepts d = true := by
  have hmothers : ∀ e ∈ ['א', 'ה', 'ו', 'י'], anyLetter.accepts e = true := by decide
  rw [matched, described] at hu
  split at hu
  · obtain ⟨d, hd, rfl⟩ := hu
    simpa using hd
  split at hu
  · obtain ⟨us, rfl, hus⟩ := Language.mem_kstar.mp hu
    intro d hd
    obtain ⟨v, hv, hd⟩ := List.mem_flatten.mp hd
    obtain ⟨e, he, rfl⟩ := hus v hv
    obtain rfl := List.mem_singleton.mp hd
    exact hmothers _ he
  split at hu
  · obtain ⟨d, hd, rfl⟩ := hu
    have hshins : ∀ e ∈ [shin, sin], anyLetter.accepts e = true := by decide
    simpa using hshins d hd
  next hmatres hany hbare =>
  obtain ⟨d, hd, rfl⟩ := hu
  have hletter : c ∈ Hebrew.letters := by
    simpa [isSign, hany, hmatres, hbare, Hebrew.isLetter] using hc
  obtain rfl := List.mem_singleton.mp hd
  simpa using accepts_toRegular hletter

theorem ne_nil_of_mem_matched {c : Char} (hc : c ≠ '@') {u : Text} (hu : u ∈ matched c) : u ≠ [] := by
  rw [matched, described, if_neg hc] at hu
  split at hu
  · obtain ⟨d, -, rfl⟩ := hu
    simp
  split at hu
  · obtain ⟨d, -, rfl⟩ := hu
    simp
  · obtain ⟨d, -, rfl⟩ := hu
    simp

theorem accepts_of_mem_prod {t : Text} (ht : ∀ c ∈ t, isSign c = true) {u : Text}
    (hu : u ∈ (t.map matched).prod) : ∀ d ∈ u, anyLetter.accepts d = true := by
  induction t generalizing u with
  | nil =>
    obtain rfl : u = [] := hu
    simp
  | cons c t ih =>
    rw [List.map_cons, List.prod_cons, Language.mem_mul] at hu
    obtain ⟨v, hv, w, hw, rfl⟩ := hu
    intro d hd
    obtain hd | hd := List.mem_append.mp hd
    · exact accepts_of_mem_matched (ht c (by simp)) hv d hd
    · exact ih (fun e he => ht e (by simp [he])) hw d hd

theorem ne_nil_of_mem_prod {t : Text} (ht : ∃ c ∈ t, c ≠ '@') {u : Text}
    (hu : u ∈ (t.map matched).prod) : u ≠ [] := by
  obtain ⟨c, hc, hne⟩ := ht
  obtain ⟨before, after, rfl⟩ := List.append_of_mem hc
  rw [List.map_append, List.map_cons, List.prod_append, List.prod_cons, Language.mem_mul] at hu
  obtain ⟨v, -, w, hw, rfl⟩ := hu
  obtain ⟨x, hx, y, -, rfl⟩ := Language.mem_mul.mp hw
  simp [ne_nil_of_mem_matched hne hx]

/-! ## Tags -/

theorem digits_spec {c : Char} (hc : c ∈ digits) : Text.isDigit c = true ∧ signText c = [c] ∧
    c ∉ Pattern.signs ∧ isOrdinary c = true ∧ anyLetter.accepts c = false := by
  have hall : ∀ c ∈ digits, Text.isDigit c = true ∧ signText c = [c] ∧ c ∉ Pattern.signs ∧
      isOrdinary c = true ∧ anyLetter.accepts c = false := by decide
  exact hall c hc

theorem flatMap_signText_self {t : Text} (ht : ∀ c ∈ t, signText c = [c]) : t.flatMap signText = t := by
  rw [List.flatMap_congr ht, List.flatMap_singleton']

/-- An optional tag, of digits of any script. -/
def slotLanguage : Language Char :=
  {['<']} * (oneWith (fun c => Text.isDigit c = true) * (oneWith fun c => Text.isDigit c = true)∗) *
    {['>']} + 1

theorem mem_slotLanguage {u : Text} : u ∈ slotLanguage ↔ u = [] ∨ ∃ digits, digits ≠ [] ∧
    (∀ c ∈ digits, Text.isDigit c = true) ∧ u = '<' :: (digits ++ ['>']) := by
  rw [slotLanguage, Language.mem_add, Language.mem_one, or_comm, mul_assoc, Pattern.mem_singleton_mul]
  refine or_congr_right ⟨?_, ?_⟩
  · rintro ⟨v, hv, rfl⟩
    obtain ⟨digits, hdigits, rfl⟩ := Pattern.mem_mul_singleton.mp hv
    obtain ⟨hne, hdigits⟩ := Pattern.mem_plus_oneWith.mp hdigits
    exact ⟨digits, hne, hdigits, rfl⟩
  · rintro ⟨digits, hne, hdigits, rfl⟩
    exact ⟨_, Pattern.mem_mul_singleton.mpr
      ⟨digits, Pattern.mem_plus_oneWith.mpr ⟨hne, hdigits⟩, rfl⟩, rfl⟩

theorem readsAs_self [Pattern.CharNames] {c : Char} (hc : c ∉ Pattern.signs) : ReadsAs [c] {[c]} :=
  (Pattern.readsOne_char hc).readsAs

theorem readsOne_tagSlot [Pattern.CharNames] : ReadsOne tagSlot slotLanguage := by
  have hopen := readsAs_self (c := '<') (by decide)
  have hclose := readsAs_self (c := '>') (by decide)
  have htag := (hopen.append Pattern.readsOne_digit.plus (.cons (by decide) _)).append hclose
    (.cons (by decide) _)
  have hgroup := (htag.bar Pattern.readsAs_nil.readsChoice).plain (by simp)
  rw [List.sum_cons, List.sum_singleton] at hgroup
  exact hgroup

/-! ## Blocks -/

/-- The words of letters with the tag of one of some entries. -/
def entriesLanguage (entries : List Entry) : Language Char :=
  anyLetter.language * anyLetter.language∗ *
    ({['<']} * (((entries.map fun e => Text.ofNat e.tag).map fun t => {t}).sum * {['>']}))

theorem mem_entriesLanguage {entries : List Entry} {u : Text} :
    u ∈ entriesLanguage entries ↔ ∃ w e, w ≠ [] ∧ (∀ c ∈ w, anyLetter.accepts c = true) ∧
      e ∈ entries ∧ u = SearchString.segment w (Text.ofNat e.tag) := by
  rw [entriesLanguage, Language.mem_mul]
  constructor
  · rintro ⟨w, hw, _, hrest, rfl⟩
    obtain ⟨rest, htagged, rfl⟩ := Pattern.mem_singleton_mul.mp hrest
    obtain ⟨tag, htag, rfl⟩ := Pattern.mem_mul_singleton.mp htagged
    obtain ⟨hne, hw⟩ := Pattern.mem_plus_oneWith.mp hw
    obtain ⟨e, he, rfl⟩ := List.mem_map.mp (Pattern.mem_sum_singletons.mp htag)
    refine ⟨w, e, hne, hw, he, ?_⟩
    rw [SearchString.segment, List.append_assoc]
    rfl
  · rintro ⟨w, e, hne, hw, he, rfl⟩
    have htag := Pattern.mem_sum_singletons.mpr (List.mem_map_of_mem (f := fun e => Text.ofNat e.tag) he)
    refine ⟨w, Pattern.mem_plus_oneWith.mpr ⟨hne, hw⟩, '<' :: (Text.ofNat e.tag ++ ['>']), ?_, ?_⟩
    · exact Pattern.mem_singleton_mul.mpr ⟨_, Pattern.mem_mul_singleton.mpr ⟨_, htag, rfl⟩, rfl⟩
    · rw [SearchString.segment, List.append_assoc, List.cons_append]

/-- What takes the place of a block is read as the words of its entries. -/
theorem readsOne_entriesPattern [Pattern.CharNames] {entries : List Entry} (hne : entries ≠ []) :
    ReadsOne ((entriesPattern entries).flatMap signText) (entriesLanguage entries) := by
  set tags := entries.map fun e => Text.ofNat e.tag with htags
  have hdigits : ∀ t ∈ tags, ∀ c ∈ t, c ∈ digits := by
    rw [htags, List.forall_mem_map]
    exact fun e _ c => mem_digits_of_mem_ofNat
  have hself : ∀ c ∈ List.intercalate ['|'] tags, signText c = [c] := by
    intro c hc
    obtain rfl | ⟨t, ht, hc⟩ := mem_intercalate hc
    · decide
    · exact (digits_spec (hdigits t ht c hc)).2.1
  have hhead : (List.intercalate ['|'] tags).head? ≠ some '?' := by
    intro h
    obtain h | ⟨t, ht, hc⟩ := mem_intercalate (List.mem_of_head? h)
    · exact absurd h (by decide)
    · exact absurd (hdigits t ht '?' hc) (by decide)
  have hreads : List.Forall₂ ReadsAs tags (tags.map fun t => {t}) :=
    List.forall₂_map_right_iff.mpr <| List.forall₂_same.mpr fun t ht =>
      (Pattern.readsAs_text fun c hc => (digits_spec (hdigits t ht c hc)).2.2.1).1
  have hchoice := (Pattern.readsChoice_intercalate (by simpa [htags] using hne) hreads).capture
    (by simpa [htags] using hne) hhead
  have hletters := readsOne_anyLetter.plus.append (readsAs_self (c := '<') (by decide))
    (.cons (by decide) _)
  have hbody := (hletters.append hchoice.readsAs (.cons (by decide) _)).append
    (readsAs_self (c := '>') (by decide)) (.cons (by decide) _)
  have hgroup := hbody.readsChoice.capture (by simp) (by exact nofun)
  have hsource : (entriesPattern entries).flatMap signText = '(' :: (anyLetterSubstitution.outside ++
      ['+'] ++ ['<'] ++ '(' :: (List.intercalate ['|'] tags ++ [')']) ++ ['>'] ++ [')']) := by
    have hopen : "(#+<(".toList.flatMap signText =
        '(' :: (anyLetterSubstitution.outside ++ ['+', '<', '(']) := by decide
    have hclose : ")>)".toList.flatMap signText = [')', '>', ')'] := by decide
    rw [entriesPattern, List.flatMap_append, List.flatMap_append, hopen, hclose,
      flatMap_signText_self hself]
    simp
  rw [hsource, entriesLanguage, ← mul_assoc, ← mul_assoc]
  rwa [List.sum_singleton] at hgroup

/-! ## Items and spaces -/

/-- Items with an optional tag and a space between any two of them, and the same after them or
not. -/
def spacedLanguage (trail : Bool) : List (Language Char) → Language Char
  | [] => 1
  | [L] => L * if trail then slotLanguage * {[' ']} else 1
  | L :: M :: rest => L * (slotLanguage * ({[' ']} * spacedLanguage trail (M :: rest)))

/-- Items with slots are read as items with optional tags. -/
theorem readsAs_spaced [Pattern.CharNames] {α : Type} {text : α → Text} {L : α → Language Char}
    {items : List α}
    (hitems : items ≠ []) (h : ∀ i ∈ items, ReadsAs (text i) (L i) ∧ NoAppetite (text i))
    (lead trail : Bool) :
    ReadsAs (spaced tagSlot lead trail (items.map text))
      ((if lead then {[' ']} else 1) * spacedLanguage trail (items.map L)) := by
  have hspace := readsAs_self (c := ' ') (by decide)
  have hslot := readsOne_tagSlot.readsAs.append hspace (.cons (by decide) _)
  have hinner : ReadsAs (spaced tagSlot false trail (items.map text))
      (spacedLanguage trail (items.map L)) ∧ NoAppetite (spaced tagSlot false trail (items.map text)) := by
    induction items with
    | nil => exact absurd rfl hitems
    | cons i items ih =>
      obtain ⟨hi, hhead⟩ := h i (by simp)
      cases items with
      | nil =>
        simp only [List.map_cons, List.map_nil, spaced_singleton, spacedLanguage]
        cases trail with
        | false => simpa using ⟨hi, hhead⟩
        | true => exact ⟨hi.append hslot (.cons (by decide) _), hhead.append (.cons (by decide) _)⟩
      | cons j items =>
        obtain ⟨hrest, hnext⟩ := ih (by simp) fun k hk => h k (List.mem_cons_of_mem i hk)
        simp only [List.map_cons, spaced_cons_cons, spacedLanguage] at hrest hnext ⊢
        have hall := hi.append (hslot.append hrest hnext) (.cons (by decide) _)
        rw [List.append_assoc, List.singleton_append, mul_assoc] at hall
        exact ⟨hall, hhead.append (.cons (by decide) _)⟩
  cases lead with
  | false => simpa using hinner.1
  | true =>
    rw [spaced_lead]
    exact hspace.append hinner.1 hinner.2

end VerseSearch.Query
