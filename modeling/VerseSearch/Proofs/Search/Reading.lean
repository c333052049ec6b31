import VerseSearch.Proofs.Search.Layout

/-! # Reading search strings

* `read`: the forms and the tags that a search string is made of.
* `ofPairs`, `read_ofPairs`: a search string made of forms and tags, and what is read from it.
* `LaidOut`: the layout of a search string.
* `ofWords_unambiguous`: a search string says which forms and tags its words have, and no more.
-/

namespace VerseSearch.SearchString
set_option autoImplicit false

open Hebrew (separator isPlainLetter)

/-! ## The reader -/

/-- The form and the tag in the part of a word. -/
def readSegment (seg : Text) : Option (Text × ℕ) :=
  match List.splitOn '<' seg with
  | [form, tag] =>
    match List.splitOn '>' tag with
    | [digits, []] => (Text.readDigits digits).map fun ds => (form, Text.digitsToNat ds)
    | _ => none
  | _ => none

/-- The forms and the tags between the separators. -/
def read (s : Text) : Option (List (Text × ℕ)) :=
  match List.splitOn separator s with
  | [] :: parts => if parts.getLast? = some [] then parts.dropLast.mapM readSegment else none
  | _ => none

/-- The part of a form and a tag. -/
def ofPair (p : Text × ℕ) : Text := segment p.1 (Text.ofNat p.2)

/-- The search string of forms and tags. -/
def ofPairs (pairs : List (Text × ℕ)) : Text := assemble (pairs.map ofPair)

/-! ## Parts -/

theorem readSegment_ofPair {p : Text × ℕ} (h : ∀ c ∈ p.1, isPlainLetter c = true) :
    readSegment (ofPair p) = some p := by
  have hopen : '<' ∉ Text.ofNat p.2 ++ ['>'] := by
    simp [Text.not_mem_ofNat (c := '<') (by decide)]
  have hclose : '>' ∉ Text.ofNat p.2 := Text.not_mem_ofNat (by decide) p.2
  have hparts : List.splitOn '<' (ofPair p) = [p.1, Text.ofNat p.2 ++ ['>']] := by
    rw [ofPair, segment_eq,
      List.splitOn_append_cons_self_of_not_mem (Hebrew.not_mem_of_plain h (by decide)),
      List.splitOn_eq_singleton hopen]
  have htag : List.splitOn '>' (Text.ofNat p.2 ++ ['>']) = [Text.ofNat p.2, []] :=
    List.splitOn_append_cons_self_of_not_mem hclose []
  have hdigits := Text.readDigits_of_digits (Text.ofNat_ne_nil p.2) digits_of_ofNat
  simp only [readSegment, hparts, htag, hdigits, Option.map_some, Text.digitsToNat_ofNat]

theorem separator_not_mem_ofPair {p : Text × ℕ} (h : ∀ c ∈ p.1, isPlainLetter c = true) :
    separator ∉ ofPair p :=
  separator_not_mem_segment
    (fun c hc => Query.accepts_anyLetter (Hebrew.mem_letters_of_isPlainLetter (h c hc))) digits_of_ofNat

/-! ## Separators -/

theorem splitOn_body {segs : List Text} (h : Parted segs) :
    List.splitOn separator (body segs) = segs ++ [[]] := by
  induction segs with
  | nil => rfl
  | cons seg segs ih =>
    rw [body_cons, List.splitOn_append_cons_self_of_not_mem (h seg (List.mem_cons_self ..)), ih h.tail,
      List.cons_append]

theorem splitOn_assemble {segs : List Text} (h : Parted segs) :
    List.splitOn separator (assemble segs) = [] :: (segs ++ [[]]) := by
  rw [assemble_eq, ← List.nil_append (separator :: body segs),
    List.splitOn_append_cons_self_of_not_mem List.not_mem_nil, splitOn_body h]

/-- Two separators would have an empty part between them. -/
theorem not_adjacent {segs : List Text} (h : Parted segs) (hne : ∀ seg ∈ segs, seg ≠ []) :
    ¬[separator, separator] <:+: assemble segs := by
  rintro ⟨before, rest, heq⟩
  rw [List.append_assoc, List.cons_append, List.cons_append, List.nil_append] at heq
  obtain ⟨pre, post, rfl, -, hpost⟩ := split_at_separator h heq.symm
  cases post with
  | nil => cases hpost
  | cons seg post =>
    have hseg : seg ∈ pre ++ seg :: post := List.mem_append_right _ (List.mem_cons_self ..)
    obtain ⟨c, seg, rfl⟩ := List.exists_cons_of_ne_nil (hne _ hseg)
    rw [body_cons, List.cons_append] at hpost
    obtain rfl : separator = c := (List.cons.inj hpost).1
    exact h _ hseg (List.mem_cons_self ..)

/-! ## The layout -/

/-- Parts with a separator before, between and after them, each with letters and then the digits of a
tag in angle brackets. -/
structure LaidOut (s : Text) (parts : List Text) : Prop where
  starts : s.head? = some separator
  ends : s.getLast? = some separator
  count : s.count separator = parts.length + 1
  apart : ¬[separator, separator] <:+: s
  split : List.splitOn separator s = [] :: (parts ++ [[]])
  part : ∀ part ∈ parts, ∃ form digits, part = form ++ '<' :: (digits ++ ['>']) ∧
    (∀ c ∈ form, isPlainLetter c = true) ∧ digits ≠ [] ∧ ∀ c ∈ digits, c ∈ Text.digits

section
variable {pairs : List (Text × ℕ)} (h : ∀ p ∈ pairs, ∀ c ∈ p.1, isPlainLetter c = true)
include h

theorem parted_ofPairs : Parted (pairs.map ofPair) := by
  intro seg hseg
  obtain ⟨p, hp, rfl⟩ := List.mem_map.mp hseg
  exact separator_not_mem_ofPair (h p hp)

theorem laidOut_ofPairs : LaidOut (ofPairs pairs) (pairs.map ofPair) := by
  have hparted := parted_ofPairs h
  have hne : ∀ seg ∈ pairs.map ofPair, seg ≠ [] := by
    intro seg hseg
    obtain ⟨p, -, rfl⟩ := List.mem_map.mp hseg
    simp [ofPair, segment]
  refine ⟨rfl, ?_, count_assemble hparted, not_adjacent hparted hne, splitOn_assemble hparted, ?_⟩
  · obtain ⟨before, hbefore⟩ := assemble_ends (pairs.map ofPair)
    rw [ofPairs, hbefore, List.getLast?_concat]
  · intro seg hseg
    obtain ⟨p, hp, rfl⟩ := List.mem_map.mp hseg
    exact ⟨p.1, Text.ofNat p.2, segment_eq .., h p hp, Text.ofNat_ne_nil p.2, digits_of_ofNat⟩

theorem read_ofPairs : read (ofPairs pairs) = some pairs := by
  have hparts : (pairs.map ofPair).mapM readSegment = some pairs := by
    induction pairs with
    | nil => rfl
    | cons p pairs ih =>
      obtain ⟨hp, hpairs⟩ := List.forall_mem_cons.mp h
      rw [List.map_cons, List.mapM_cons, readSegment_ofPair hp, ih hpairs]
      rfl
  rw [read, ofPairs, splitOn_assemble (parted_ofPairs h)]
  simp only [List.getLast?_concat, if_true, List.dropLast_concat, hparts]

end

/-! ## The search string of words -/

/-- What a search string is made of: the searchable form of every word and its tag. -/
def formsAndTags (ws : List TaggedWord) : List (Except Hebrew.InvalidCharacter Text × ℤ) :=
  ws.map fun w => (Hebrew.searchable w.word, w.tag)

/-- A form and a natural tag as they come from a word. -/
def found (p : Text × ℕ) : Except Hebrew.InvalidCharacter Text × ℤ := (.ok p.1, p.2)

theorem found_injective : Function.Injective found := by
  rintro ⟨form, n⟩ ⟨form', n'⟩ heq
  obtain ⟨hform, htag⟩ := Prod.mk.inj heq
  obtain rfl : form = form' := Except.ok.inj hform
  obtain rfl : n = n' := Int.ofNat.inj htag
  rfl

theorem Lays.exists_pairs {ws : List TaggedWord} {segs : List Text} (h : Lays ws segs) :
    ∃ pairs : List (Text × ℕ), formsAndTags ws = pairs.map found ∧ segs = pairs.map ofPair ∧
      ∀ p ∈ pairs, ∀ c ∈ p.1, isPlainLetter c = true := by
  induction h with
  | nil => exact ⟨[], rfl, rfl, nofun⟩
  | @cons w seg ws segs hw hrest ih =>
    obtain ⟨form, hform, htag, rfl⟩ := hw
    obtain ⟨pairs, hpairs, rfl, hplain⟩ := ih
    refine ⟨(form, w.tag.toNat) :: pairs, ?_, rfl,
      List.forall_mem_cons.mpr ⟨Hebrew.plain_of_searchable hform, hplain⟩⟩
    have hfound : (Hebrew.searchable w.word, w.tag) = found (form, w.tag.toNat) := by
      rw [found, hform, Int.toNat_of_nonneg htag]
    rw [formsAndTags, List.map_cons, hfound, List.map_cons, ← hpairs, formsAndTags]

theorem exists_pairs {ws : List TaggedWord} (hwords : ∀ w ∈ ws, ∃ n, Hebrew.normalize w.word = .ok n)
    (htags : ∀ w ∈ ws, 0 ≤ w.tag) : ∃ pairs : List (Text × ℕ), formsAndTags ws = pairs.map found ∧
      ofWords ws = .ok (ofPairs pairs) ∧ ∀ p ∈ pairs, ∀ c ∈ p.1, isPlainLetter c = true := by
  obtain ⟨segs, hlays, hstring⟩ := exists_lays hwords htags
  obtain ⟨pairs, hpairs, rfl, hplain⟩ := hlays.exists_pairs
  exact ⟨pairs, hpairs, hstring, hplain⟩

/-- The search string of words that have normalized forms and natural tags has one part for each word,
its forms and tags are read from it, and other such words have the same search string if and only if
they have the same forms and tags. Tags within the bound on the digits of integers are also integers when
they are read as such. -/
theorem ofWords_unambiguous {ws : List TaggedWord}
    (hwords : ∀ w ∈ ws, ∃ n, Hebrew.normalize w.word = .ok n) (htags : ∀ w ∈ ws, 0 ≤ w.tag) :
    ∃ s parts pairs, ofWords ws = .ok s ∧ LaidOut s parts ∧ parts.length = ws.length ∧
      read s = some pairs ∧ pairs.map found = formsAndTags ws ∧
      ((∀ w ∈ ws, w.tag < 10 ^ Text.maxIntegerDigits) →
        ∀ p ∈ pairs, Text.readNat (Text.ofNat p.2) = .ok p.2) ∧
      ∀ ws' : List TaggedWord, (∀ w ∈ ws', ∃ n, Hebrew.normalize w.word = .ok n) →
        (∀ w ∈ ws', 0 ≤ w.tag) → (ofWords ws' = ofWords ws ↔ formsAndTags ws' = formsAndTags ws) := by
  obtain ⟨pairs, hpairs, hstring, hplain⟩ := exists_pairs hwords htags
  have hlength : pairs.length = ws.length := by
    simpa [formsAndTags] using (congrArg List.length hpairs).symm
  refine ⟨_, _, pairs, hstring, laidOut_ofPairs hplain, by rw [List.length_map, hlength],
    read_ofPairs hplain, hpairs.symm, fun hbound p hp => ?_, fun ws' hwords' htags' => ?_⟩
  · have hmem : found p ∈ formsAndTags ws := hpairs ▸ List.mem_map_of_mem hp
    obtain ⟨w, hw, heq⟩ := List.mem_map.mp hmem
    have hlt := hbound w hw
    rw [(Prod.mk.inj heq).2] at hlt
    exact Text.readNat_ofNat (by exact_mod_cast hlt)
  obtain ⟨pairs', hpairs', hstring', hplain'⟩ := exists_pairs hwords' htags'
  rw [hstring, hstring', hpairs, hpairs', (List.map_injective_iff.mpr found_injective).eq_iff,
    Except.ok.injEq]
  refine ⟨fun heq => ?_, congrArg ofPairs⟩
  have hread := read_ofPairs hplain'
  rw [heq, read_ofPairs hplain] at hread
  exact (Option.some.inj hread).symm

/-- A separator and a sheva in a word, and a word that is only a mark. -/
theorem ofWords_unambiguous_of_marks : ∃ s parts pairs,
    ofWords [⟨['א', ' ', 'ב', '\u05b0'], 1⟩, ⟨['\u05c3'], 0⟩] = .ok s ∧ LaidOut s parts ∧
      parts.length = 2 ∧ read s = some pairs ∧
      ofWords [⟨['א', 'ב'], 1⟩, ⟨[], 0⟩] =
        ofWords [⟨['א', ' ', 'ב', '\u05b0'], 1⟩, ⟨['\u05c3'], 0⟩] := by
  have hmarks : ∀ w ∈ [⟨['א', ' ', 'ב', '\u05b0'], 1⟩, (⟨['\u05c3'], 0⟩ : TaggedWord)],
      ∃ n, Hebrew.normalize w.word = .ok n := by
    intro w hw
    refine Hebrew.normalize_of_contains ?_
    revert w
    decide
  have hplain : ∀ w ∈ [⟨['א', 'ב'], 1⟩, (⟨[], 0⟩ : TaggedWord)],
      ∃ n, Hebrew.normalize w.word = .ok n := by
    intro w hw
    refine Hebrew.normalize_of_contains ?_
    revert w
    decide
  obtain ⟨s, parts, pairs, hs, hparts, hlength, hread, -, -, hiff⟩ :=
    ofWords_unambiguous hmarks (by decide)
  exact ⟨s, parts, pairs, hs, hparts, hlength, hread, (hiff _ hplain (by decide)).mpr (by decide +kernel)⟩

end VerseSearch.SearchString
