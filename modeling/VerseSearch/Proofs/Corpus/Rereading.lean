import VerseSearch.Proofs.Corpus.Listing

/-! # Reading loses nothing

* `Corpus.ofLines_listing`: a grouped corpus of readable words is read from its own listing.
* `Corpus.read_some`: a filter restricts what is read without one, and the same lines are rejected.
* `Corpus.listing_of_read`: a corpus that was read lists the words of its lines in order, with a
  filter it lists the books that the filter finds, and its listing is read as the same corpus.
-/

namespace VerseSearch
set_option autoImplicit false

/-! ## The empty pattern -/

namespace Pattern

@[simp] theorem parse_nil [CharNames] : parse [] = .ok ⟨.empty⟩ := by
  have hbody : parseBody [] = .ok ({}, .empty) := by
    rw [parseBody, Reading.run]
    rfl
  rw [parse, splitFinalBackslash]
  simp only [hbody]
  rfl

@[simp] theorem occursIn_empty (t : Text) : occursIn ⟨.empty⟩ t = true := by
  have hmatch : matchAt ⟨.empty⟩ t.toArray 0 false = some 0 := rfl
  rw [occursIn, findFrom, if_pos (Nat.zero_le _)]
  cases t.toArray.size - 0 <;> rw [findWithin, hmatch] <;> rfl

end Pattern

namespace Corpus

/-- The words of a corpus in order, each written as a line. -/
def listing (c : Corpus Text) : List Text := c.located.map (·.line)

/-! ## Without a filter -/

/-- What reading establishes: grouped books, in which the words that the lines give stand in order. -/
theorem ofLines_spec {lines : List Text} {c : Corpus Text} (h : ofLines lines = .ok c) :
    Grouped c.books ∧ List.Forall₂ LineGives (contentLines lines) c.located := by
  obtain ⟨ws, hgives, hcontiguous, rfl⟩ := ofLines_eq_ok_iff.mp h
  obtain ⟨hgrouped, hlocated⟩ := ofLocated_spec hcontiguous
  refine ⟨hgrouped, ?_⟩
  rwa [hlocated, List.reverse_reverse]

theorem ofLines_listing {c : Corpus Text} (h : Grouped c.books)
    (hwords : ∀ w ∈ c.located, w.Readable) : ofLines c.listing = .ok c := by
  have hgives : List.Forall₂ LineGives (contentLines c.listing) c.located := by
    rw [listing, contentLines_line hwords]
    exact forall₂_lineGives_line hwords
  have hcontiguous : Contiguous (c.located.reverse.map (·.place)) := by
    have := h.contiguous_located 1 1 .nil (fun name _ => .newBook nofun) (fun _ _ => nofun)
    rwa [List.append_nil, ← located_eq] at this
  have hbooks : c = ofLocated c.located.reverse := by
    have := h.ofLocated_located 1 1
    rw [← located_eq] at this
    exact congrArg Corpus.mk this.symm
  exact ofLines_eq_ok_iff.mpr ⟨c.located, hgives, hcontiguous, hbooks⟩

/-! ## With a filter -/

theorem read_some [Pattern.CharNames] {source : Text} {p : Pattern} (hp : Pattern.parse source = .ok p)
    (lines : List Text) : read (some source) lines = (read none lines).map (·.restrict p) := by
  cases source with
  | nil =>
    obtain rfl := Except.ok.inj (Pattern.parse_nil.symm.trans hp)
    have hall : ∀ c : Corpus Text, c.restrict ⟨.empty⟩ = c := fun c => by
      simp [restrict]
    simp only [hall]
    cases h : read none lines <;> exact h
  | cons a source =>
    rw [read, read]
    simp [hp]

theorem mem_located_of_mem_restrict {c : Corpus Text} {p : Pattern} {w : LocatedWord}
    (hw : w ∈ (c.restrict p).located) : w ∈ c.located := by
  obtain ⟨b, hb, hw⟩ := List.mem_flatMap.mp hw
  exact List.mem_flatMap.mpr ⟨b, List.mem_of_mem_filter hb, hw⟩

theorem filter_of_read [Pattern.CharNames] {bookFilter : Option Text} {lines : List Text}
    {c : Corpus Text} (h : read bookFilter lines = .ok c) :
    bookFilter = none ∨ ∃ source p, bookFilter = some source ∧ Pattern.parse source = .ok p := by
  cases bookFilter with
  | none => exact .inl rfl
  | some source =>
    cases hp : Pattern.parse source with
    | ok p => exact .inr ⟨source, p, rfl, hp⟩
    | error e =>
      cases source with
      | nil => rw [Pattern.parse_nil] at hp; cases hp
      | cons a source => simp [read, hp] at h

/-- A corpus that was read is grouped, and each of its words is given by one of the lines. -/
theorem located_of_read [Pattern.CharNames] {bookFilter : Option Text} {lines : List Text}
    {c : Corpus Text} (h : read bookFilter lines = .ok c) :
    Grouped c.books ∧ ∀ w ∈ c.located, ∃ line ∈ contentLines lines, LineGives line w := by
  have hnone : ∀ c, read none lines = .ok c →
      Grouped c.books ∧ ∀ w ∈ c.located, ∃ line ∈ contentLines lines, LineGives line w := fun c h => by
    obtain ⟨hgrouped, hgives⟩ := ofLines_spec (ok_of_mapError h)
    exact ⟨hgrouped, exists_of_forall₂ hgives⟩
  obtain rfl | ⟨source, p, rfl, hp⟩ := filter_of_read h
  · exact hnone c h
  · rw [read_some hp] at h
    obtain ⟨whole, hwhole, rfl⟩ := ok_of_map h
    obtain ⟨hgrouped, hwords⟩ := hnone whole hwhole
    exact ⟨hgrouped.filter p.occursIn, fun w hw => hwords w (mem_located_of_mem_restrict hw)⟩

theorem read_spec [Pattern.CharNames] {bookFilter : Option Text} {lines : List Text} {c : Corpus Text}
    (h : read bookFilter lines = .ok c) : Grouped c.books ∧ ∀ w ∈ c.located, w.Readable := by
  obtain ⟨hgrouped, hwords⟩ := located_of_read h
  refine ⟨hgrouped, fun w hw => ?_⟩
  obtain ⟨line, -, hline⟩ := hwords w hw
  exact hline.readable

@[simp] theorem restrict_restrict (c : Corpus Text) (p : Pattern) :
    (c.restrict p).restrict p = c.restrict p := by
  simp [restrict]

theorem read_listing [Pattern.CharNames] {bookFilter : Option Text} {lines : List Text}
    {c : Corpus Text} (h : read bookFilter lines = .ok c) :
    read none c.listing = .ok c ∧ read bookFilter c.listing = .ok c := by
  obtain ⟨hgrouped, hwords⟩ := read_spec h
  have hnone : read none c.listing = .ok c := by
    rw [read, ofLines_listing hgrouped hwords]
    rfl
  refine ⟨hnone, ?_⟩
  obtain rfl | ⟨source, p, rfl, hp⟩ := filter_of_read h
  · exact hnone
  · rw [read_some hp] at h ⊢
    obtain ⟨whole, -, rfl⟩ := ok_of_map h
    rw [hnone]
    exact congrArg Except.ok (restrict_restrict whole p)

/-! ## Listings -/

/-- A corpus that was read without a filter has the words that the lines give, in their order, and
no empty part and no book twice; a filter keeps the books that it finds and rejects the same lines;
and the listing of a corpus that was read is read as the same corpus. -/
theorem listing_of_read [Pattern.CharNames] (lines : List Text) :
    (∀ c, read none lines = .ok c →
      List.Forall₂ LineGives (contentLines lines) c.located ∧ c.bookNames.Nodup ∧
      ∀ b ∈ c.books, b.chapters ≠ [] ∧
        ∀ verses ∈ b.chapters, verses ≠ [] ∧ ∀ words ∈ verses, words ≠ []) ∧
    (∀ source p, Pattern.parse source = .ok p →
      (∀ c, read none lines = .ok c →
        read (some source) lines = .ok ⟨c.books.filter fun b => p.occursIn b.name⟩) ∧
      ∀ e, read (some source) lines = .error e ↔ read none lines = .error e) ∧
    ∀ bookFilter c, read bookFilter lines = .ok c →
      read none c.listing = .ok c ∧ read bookFilter c.listing = .ok c := by
  refine ⟨fun c hc => ?_, fun source p hp => ⟨fun c hc => ?_, fun e => ?_⟩,
    fun bookFilter c hc => read_listing hc⟩
  · obtain ⟨hgrouped, hgives⟩ := ofLines_spec (ok_of_mapError hc)
    exact ⟨hgives, hgrouped.nodup, hgrouped.ne_nil⟩
  · rw [read_some hp, hc]
    rfl
  · rw [read_some hp]
    cases read none lines <;> simp [Except.map]

/-- Two books under a heading, with a blank line between them, a line end and a tag left out. -/
theorem listing_of_read_of_two_books :
    let lines := ["bookName\tchapter\tverse".toList, "Genesis\t1\t1\tאור\t216\r\n".toList,
      "Genesis\t1\t2\tאב".toList, " \n".toList, "Exodus\t1\t1\tאב\t1".toList]
    let genesis : Book Text := ⟨"בראשית".toList, [[[⟨"אור".toList, 216⟩], [⟨"אב".toList, 0⟩]]]⟩
    let exodus : Book Text := ⟨"שמות".toList, [[[⟨"אב".toList, 1⟩]]]⟩
    (List.Forall₂ LineGives (contentLines lines) (located ⟨[genesis, exodus]⟩) ∧
      (bookNames ⟨[genesis, exodus]⟩).Nodup) ∧
    read (some ['ו']) lines = .ok ⟨[exodus]⟩ ∧ read none (listing ⟨[exodus]⟩) = .ok ⟨[exodus]⟩ := by
  intro lines genesis exodus
  have hread : read none lines = .ok ⟨[genesis, exodus]⟩ := by decide +kernel
  have hp : Pattern.parse ['ו'] = .ok ⟨.cat (.one { items := [.code 0x5d5] }) .empty⟩ := by
    decide +kernel
  obtain ⟨hlisted, hfiltered, hagain⟩ := listing_of_read lines
  obtain ⟨hgives, hnodup, -⟩ := hlisted _ hread
  have hexodus : read (some ['ו']) lines = .ok ⟨[exodus]⟩ := (hfiltered _ _ hp).1 _ hread
  exact ⟨⟨hgives, hnodup⟩, hexodus, (hagain _ _ hexodus).1⟩

end Corpus

end VerseSearch
