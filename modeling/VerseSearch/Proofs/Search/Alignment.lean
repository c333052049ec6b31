import VerseSearch.Proofs.Search.Layout

/-! # Items of a query along the parts of a search string

* `Fits`: an item fits a part, with an optional tag after it or with the part open at an end.
* `Aligned`: items fit the first parts of a search string, one after the other.
* `spaced_prefix_iff`, `spaced_infix_iff`: the language of items with spaces between them has a text
  at the start of the parts, or anywhere in the search string, when the items are aligned there.
-/

namespace VerseSearch.SearchString
set_option autoImplicit false

open Query (slotLanguage spacedLanguage mem_slotLanguage)

/-! ## One item -/

/-- A text of the language stands in the part: from its start on, unless the part is open on the left,
and up to its end or to a tag, unless it is open on the right. -/
def Fits (L : Language Char) (openLeft openRight : Bool) (seg : Text) : Prop :=
  ∃ a v b, seg = a ++ (v ++ b) ∧ v ∈ L ∧ (openLeft = false → a = []) ∧
    (openRight = false → b ∈ slotLanguage)

theorem fits_openLeft_iff {L : Language Char} {openRight : Bool} {seg : Text} :
    Fits L true openRight seg ↔ ∃ a s, seg = a ++ s ∧ Fits L false openRight s := by
  constructor
  · rintro ⟨a, v, b, rfl, hv, -, hb⟩
    exact ⟨a, v ++ b, rfl, [], v, b, rfl, hv, fun _ => rfl, hb⟩
  · rintro ⟨a, s, rfl, a', v, b, rfl, hv, ha, hb⟩
    obtain rfl := ha rfl
    exact ⟨a, v, b, rfl, hv, nofun, hb⟩

/-- A text of the language of an item, which is not empty and holds no separator. -/
def InWords (L : Language Char) : Prop := ∀ v ∈ L, v ≠ [] ∧ Hebrew.separator ∉ v

theorem separator_not_mem_slot {slot : Text} (h : slot ∈ slotLanguage) : Hebrew.separator ∉ slot := by
  obtain rfl | ⟨digits, -, hdigits, rfl⟩ := mem_slotLanguage.mp h
  · simp
  · intro hmem
    simp only [List.mem_cons, List.mem_append, List.not_mem_nil, or_false] at hmem
    obtain h | h | h := hmem
    · exact absurd h (by decide)
    · exact absurd (hdigits _ h) (by decide)
    · exact absurd h (by decide)

/-! ## Items in a row -/

/-- Items fit the first parts, one after the other. The first part is open on the left or not, and the
last one is open on the right if no space follows. -/
def Aligned (trail : Bool) : Bool → List (Language Char) → List Text → Prop
  | _, [], _ => True
  | _, _ :: _, [] => False
  | openLeft, L :: Ls, seg :: segs =>
    Fits L openLeft (Ls.isEmpty && !trail) seg ∧ Aligned trail false Ls segs

theorem aligned_openLeft_iff {trail : Bool} {Ls : List (Language Char)} (hLs : Ls ≠ [])
    {segs : List Text} : Aligned trail true Ls segs ↔
      ∃ a s post, segs = (a ++ s) :: post ∧ Aligned trail false Ls (s :: post) := by
  obtain ⟨L, Ls, rfl⟩ := List.exists_cons_of_ne_nil hLs
  cases segs with
  | nil => simp [Aligned]
  | cons seg segs =>
    simp only [Aligned, fits_openLeft_iff]
    constructor
    · rintro ⟨⟨a, s, rfl, hfits⟩, hrest⟩
      exact ⟨a, s, segs, rfl, hfits, hrest⟩
    · rintro ⟨a, s, post, heq, hfits, hrest⟩
      obtain ⟨rfl, rfl⟩ := List.cons.inj heq
      exact ⟨⟨a, s, rfl, hfits⟩, hrest⟩

section
variable {L K : Language Char} (hL : InWords L) {segs : List Text}
include hL

theorem prefix_of_body {v y : Text} (hv : v ∈ L) (h : body segs = v ++ y) :
    ∃ b post, segs = (v ++ b) :: post ∧ y = b ++ Hebrew.separator :: body post := by
  obtain ⟨hne, hsep⟩ := hL v hv
  cases segs with
  | nil => exact absurd (List.append_eq_nil_iff.mp h.symm).1 hne
  | cons seg segs =>
    rw [body_cons] at h
    obtain ⟨b, rfl, hb⟩ := prefix_of_not_mem hsep h
    exact ⟨b, segs, rfl, hb⟩

theorem last_prefix_iff : (∃ u after, body segs = u ++ after ∧ u ∈ L) ↔
    ∃ seg post, segs = seg :: post ∧ Fits L false true seg := by
  constructor
  · rintro ⟨u, after, h, hu⟩
    obtain ⟨b, post, rfl, -⟩ := prefix_of_body hL hu h
    exact ⟨_, post, rfl, [], u, b, rfl, hu, fun _ => rfl, nofun⟩
  · rintro ⟨_, post, rfl, a, v, b, rfl, hv, ha, -⟩
    obtain rfl := ha rfl
    exact ⟨v, b ++ Hebrew.separator :: body post, by rw [body_cons]; simp, hv⟩

theorem item_prefix_iff (hparted : Parted segs) :
    (∃ u after, body segs = u ++ after ∧ u ∈ L * (slotLanguage * ({[' ']} * K))) ↔
      ∃ seg post, segs = seg :: post ∧ Fits L false false seg ∧
        ∃ u after, body post = u ++ after ∧ u ∈ K := by
  constructor
  · rintro ⟨_, after, h, hall⟩
    obtain ⟨v, hv, _, hrest, rfl⟩ := Language.mem_mul.mp hall
    obtain ⟨slot, hslot, _, htail, rfl⟩ := Language.mem_mul.mp hrest
    obtain ⟨u, hu, rfl⟩ := Pattern.mem_singleton_mul.mp htail
    rw [List.append_assoc] at h
    obtain ⟨b, post, rfl, hb⟩ := prefix_of_body hL hv h
    have hsep : Hebrew.separator ∉ b := fun hmem =>
      hparted _ (List.mem_cons_self ..) (List.mem_append_right _ hmem)
    rw [List.append_assoc, List.append_assoc, List.singleton_append] at hb
    obtain ⟨rfl, hbody⟩ := eq_of_not_mem (separator_not_mem_slot hslot) hsep hb
    exact ⟨_, post, rfl, ⟨[], v, slot, rfl, hv, fun _ => rfl, fun _ => hslot⟩, u, after, hbody.symm, hu⟩
  · rintro ⟨_, post, rfl, ⟨a, v, b, rfl, hv, ha, hb⟩, u, after, h, hu⟩
    obtain rfl := ha rfl
    refine ⟨v ++ (b ++ ([' '] ++ u)), after, ?_, ?_⟩
    · rw [body_cons, h]
      simp [Hebrew.separator]
    · exact Language.append_mem_mul hv (Language.append_mem_mul (hb rfl)
        (Pattern.mem_singleton_mul.mpr ⟨u, hu, rfl⟩))

end

/-- Items with spaces between them are taken from the start of the parts when they are aligned
there. -/
theorem spaced_prefix_iff {trail : Bool} {Ls : List (Language Char)} (hLs : Ls ≠ [])
    (hinner : ∀ L ∈ Ls, InWords L) {segs : List Text} (hparted : Parted segs) :
    (∃ u after, body segs = u ++ after ∧ u ∈ spacedLanguage trail Ls) ↔
      Aligned trail false Ls segs := by
  induction Ls generalizing segs with
  | nil => exact absurd rfl hLs
  | cons L Ls ih =>
    have hL := hinner L (by simp)
    cases Ls with
    | nil =>
      cases trail with
      | false =>
        simp only [spacedLanguage, Bool.false_eq_true, if_false, mul_one, last_prefix_iff hL]
        cases segs <;> simp [Aligned]
      | true =>
        have hone : L * (slotLanguage * {[' ']}) = L * (slotLanguage * ({[' ']} * 1)) := by
          rw [mul_one]
        simp only [spacedLanguage, if_true, hone, item_prefix_iff hL hparted]
        constructor
        · rintro ⟨seg, post, rfl, hfits, -⟩
          exact ⟨hfits, trivial⟩
        · intro h
          cases segs with
          | nil => exact h.elim
          | cons seg segs =>
            exact ⟨seg, segs, rfl, h.1, [], body segs, rfl, Language.nil_mem_one⟩
    | cons M Ls =>
      have hrest : ∀ {segs : List Text}, Parted segs → _ :=
        ih (by simp) fun N hN => hinner N (List.mem_cons_of_mem L hN)
      rw [spacedLanguage, item_prefix_iff hL hparted]
      constructor
      · rintro ⟨seg, post, rfl, hfits, htail⟩
        exact ⟨hfits, (hrest hparted.tail).mp htail⟩
      · intro h
        cases segs with
        | nil => exact h.elim
        | cons seg segs =>
          exact ⟨seg, segs, rfl, h.1, (hrest hparted.tail).mpr h.2⟩

theorem exists_first {trail : Bool} {Ls : List (Language Char)} (hLs : Ls ≠ [])
    (hinner : ∀ L ∈ Ls, InWords L) {u : Text} (hu : u ∈ spacedLanguage trail Ls) :
    ∃ v w, u = v ++ w ∧ v ≠ [] ∧ Hebrew.separator ∉ v := by
  obtain ⟨L, Ls, rfl⟩ := List.exists_cons_of_ne_nil hLs
  have hfirst : ∃ K, spacedLanguage trail (L :: Ls) = L * K := by
    cases Ls with
    | nil => exact ⟨_, rfl⟩
    | cons M Ls => exact ⟨_, rfl⟩
  obtain ⟨K, hK⟩ := hfirst
  rw [hK] at hu
  obtain ⟨v, hv, w, -, rfl⟩ := Language.mem_mul.mp hu
  exact ⟨v, w, rfl, hinner L (by simp) v hv⟩

section
variable {trail : Bool} {Ls : List (Language Char)} (hLs : Ls ≠ []) (hinner : ∀ L ∈ Ls, InWords L)
  {segs : List Text} (hparted : Parted segs)
include hLs hinner hparted

/-- A space stands only between two parts, so what follows it begins with a part. -/
theorem lead_infix_iff :
    (∃ u ∈ {[' ']} * spacedLanguage trail Ls, u <:+: assemble segs) ↔
      ∃ pre post, segs = pre ++ post ∧ Aligned trail false Ls post := by
  constructor
  · rintro ⟨_, hall, before, after, h⟩
    obtain ⟨u, hu, rfl⟩ := Pattern.mem_singleton_mul.mp hall
    rw [List.append_assoc, List.append_assoc, List.singleton_append] at h
    obtain ⟨pre, post, rfl, -, hbody⟩ := split_at_separator hparted h.symm
    exact ⟨pre, post, rfl,
      (spaced_prefix_iff hLs hinner hparted.of_append).mp ⟨u, after, hbody.symm, hu⟩⟩
  · rintro ⟨pre, post, rfl, haligned⟩
    obtain ⟨u, after, hbody, hu⟩ :=
      (spaced_prefix_iff hLs hinner hparted.of_append).mpr haligned
    obtain ⟨before, hbefore⟩ := assemble_ends pre
    refine ⟨_, Pattern.mem_singleton_mul.mpr ⟨u, hu, rfl⟩, before, after, ?_⟩
    rw [assemble_append, hbefore, hbody]
    simp [Hebrew.separator]

/-- Without a space before it, the first item may begin inside a part, of which what stands before the
item can be cut off. -/
theorem open_infix_iff :
    (∃ u ∈ spacedLanguage trail Ls, u <:+: assemble segs) ↔
      ∃ pre post, segs = pre ++ post ∧ Aligned trail true Ls post := by
  simp only [aligned_openLeft_iff hLs]
  constructor
  · rintro ⟨u, hu, before, after, h⟩
    obtain ⟨v, w, rfl, hv, hsep⟩ := exists_first hLs hinner hu
    rw [List.append_assoc, List.append_assoc] at h
    obtain ⟨pre, a, c, post, rfl, -, hrest⟩ := split_within hv hsep h.symm
    refine ⟨pre, _, rfl, a, v ++ c, post, rfl,
      (spaced_prefix_iff hLs hinner hparted.of_append.cut).mp ⟨v ++ w, after, ?_, hu⟩⟩
    rw [body_cons, List.append_assoc, List.append_assoc, hrest]
  · rintro ⟨pre, _, rfl, a, s, post, rfl, haligned⟩
    obtain ⟨u, after, hbody, hu⟩ :=
      (spaced_prefix_iff hLs hinner hparted.of_append.cut).mpr haligned
    refine ⟨u, hu, assemble pre ++ a, after, ?_⟩
    rw [assemble_append, body_cons, List.append_assoc a, ← body_cons, hbody]
    simp

/-- Items with spaces between them, and a space before them or not, stand in the search string where
they are aligned with some parts in a row. -/
theorem spaced_infix_iff {lead : Bool} :
    (∃ u ∈ (if lead then {[' ']} else 1) * spacedLanguage trail Ls, u <:+: assemble segs) ↔
      ∃ pre post, segs = pre ++ post ∧ Aligned trail (!lead) Ls post := by
  cases lead with
  | true => exact lead_infix_iff hLs hinner hparted
  | false =>
    simp only [Bool.false_eq_true, if_false, one_mul]
    exact open_infix_iff hLs hinner hparted

end

theorem aligned_iff_getElem? {trail openLeft : Bool} {Ls : List (Language Char)} {segs : List Text} :
    Aligned trail openLeft Ls segs ↔ ∀ i L, Ls[i]? = some L → ∃ seg, segs[i]? = some seg ∧
      Fits L (decide (i = 0) && openLeft) (decide (i + 1 = Ls.length) && !trail) seg := by
  induction Ls generalizing openLeft segs with
  | nil => simp [Aligned]
  | cons L Ls ih =>
    cases segs with
    | nil =>
      refine ⟨fun h => h.elim, fun h => ?_⟩
      obtain ⟨seg, hseg, -⟩ := h 0 L rfl
      cases hseg
    | cons seg segs =>
      have hlast : (decide (0 + 1 = (L :: Ls).length) && !trail) = (Ls.isEmpty && !trail) := by
        cases Ls <;> simp
      have hfirst : (decide (0 = 0) && openLeft) = openLeft := rfl
      have hnext : ∀ i, decide (i + 1 + 1 = (L :: Ls).length) = decide (i + 1 = Ls.length) := by
        intro i
        simp
      have hlater : ∀ i, (decide (i + 1 = 0) && openLeft) = (decide (i = 0) && false) := by
        intro i
        simp
      rw [Aligned, ih]
      constructor
      · rintro ⟨hfits, hrest⟩ i M hM
        cases i with
        | zero =>
          obtain rfl := Option.some.inj hM
          rw [hfirst, hlast]
          exact ⟨seg, rfl, hfits⟩
        | succ i =>
          rw [hnext, hlater]
          exact hrest i M hM
      · intro h
        refine ⟨?_, fun i M hM => ?_⟩
        · obtain ⟨seg', hseg, hfits⟩ := h 0 L rfl
          obtain rfl := Option.some.inj hseg
          rwa [hfirst, hlast] at hfits
        · have hi := h (i + 1) M hM
          rwa [hnext, hlater] at hi

end VerseSearch.SearchString
