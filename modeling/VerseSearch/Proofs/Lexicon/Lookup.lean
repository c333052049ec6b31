import VerseSearch.Proofs.Lexicon.Entries

/-! # Entries by their numbers

A table has a place for every number up to the greatest one, so an entry is found at the place that
its number names, and a search meets the entries in the order of their numbers.

* `size_ofEntries`: the size of a table by the greatest number.
* `IsLatest`: an entry that stands for its number, among those that a table is made from.
* `getElem?_ofEntries_eq_some_iff`: what stands at a place.
* `get?_eq_none_iff`, `get?_eq_some_iff`: looking an integer up.
* `mem_find_iff`: which entries a pattern finds.
* `ofEntries_by_number`: size, lookup and search of a table.
-/

namespace VerseSearch
set_option autoImplicit false

namespace Lexicon

variable {es : List Entry} {n : ℕ} {e : Entry}

/-! ## Size -/

@[simp] theorem size_ofEntries (es : List Entry) : (ofEntries es).size = sizeFor es := by
  simp [size, ofEntries]

/-- One more than the greatest number. -/
theorem sizeFor_eq_max (es : List Entry) :
    sizeFor es = match (es.map (·.tag)).max? with
      | none => 0
      | some most => most + 1 := by
  cases hmax : (es.map (·.tag)).max? with
  | none =>
    obtain rfl : es = [] := by simpa using hmax
    rfl
  | some most =>
    obtain ⟨hmem, hle⟩ := List.max?_eq_some_iff.mp hmax
    apply Nat.le_antisymm
    · exact sizeFor_le_iff.mpr fun e he => Nat.lt_succ_of_le (hle _ (List.mem_map_of_mem he))
    · obtain ⟨e, he, rfl⟩ := List.mem_map.mp hmem
      exact tag_lt_sizeFor he

/-! ## Lookup -/

/-- The entry stands for its number: it is the last one with this number, or there is none and it is
the sentinel. -/
def IsLatest (es : List Entry) (e : Entry) : Prop :=
  (∃ before after, es = before ++ e :: after ∧ ∀ later ∈ after, later.tag ≠ e.tag) ∨
    e = .sentinel e.tag ∧ ∀ given ∈ es, given.tag ≠ e.tag

theorem isLatest_find? (es : List Entry) (n : ℕ) :
    IsLatest es ((es.reverse.find? fun e => e.tag = n).getD (.sentinel n)) := by
  cases hfound : es.reverse.find? fun e => e.tag = n with
  | none =>
    refine .inr ⟨rfl, fun given hgiven => ?_⟩
    change given.tag ≠ n
    simpa using List.find?_eq_none.mp hfound given (List.mem_reverse.mpr hgiven)
  | some found =>
    obtain ⟨htag, before, after, hsplit, hbefore⟩ := List.find?_eq_some_iff_append.mp hfound
    obtain rfl : found.tag = n := by simpa using htag
    refine .inl ⟨after.reverse, before.reverse, ?_, fun later hlater => ?_⟩
    · rw [← List.reverse_reverse es, hsplit]
      simp
    · simpa using hbefore later (List.mem_reverse.mp hlater)

theorem getElem?_ofEntries_eq_some_iff : (ofEntries es).entries[n]? = some e ↔
    n < sizeFor es ∧ e.tag = n ∧ IsLatest es e := by
  constructor
  · intro h
    obtain ⟨hn, rfl⟩ := getElem?_ofEntries_eq_some h
    exact ⟨hn, (getElem?_ofEntries_spec h).1, isLatest_find? es n⟩
  · rintro ⟨hn, rfl, ⟨before, after, rfl, hafter⟩ | ⟨he, hnone⟩⟩
    · exact getElem?_ofEntries_of_last hafter
    · have hfind : es.reverse.find? (fun given => given.tag = e.tag) = none :=
        List.find?_eq_none.mpr fun given hgiven => by
          simpa using hnone given (List.mem_reverse.mp hgiven)
      rw [getElem?_ofEntries hn, hfind, Option.getD_none, ← he]

theorem get?_eq_none_iff {l : Lexicon} {tag : ℤ} : l.get? tag = none ↔ tag < 0 ∨ l.size ≤ tag := by
  cases tag with
  | ofNat n =>
    simp only [get?, List.getElem?_eq_none_iff, size, Int.ofNat_eq_natCast]
    omega
  | negSucc n =>
    simp only [get?, true_iff]
    omega

theorem get?_eq_some_iff {tag : ℤ} : (ofEntries es).get? tag = some e ↔
    tag < (ofEntries es).size ∧ e.tag = tag ∧ IsLatest es e := by
  rw [size_ofEntries]
  cases tag with
  | ofNat n =>
    simp only [get?, getElem?_ofEntries_eq_some_iff, Int.ofNat_eq_natCast, Nat.cast_lt, Nat.cast_inj]
  | negSucc n =>
    simp only [get?, reduceCtorEq, false_iff]
    rintro ⟨-, htag, -⟩
    omega

/-- An entry is in a table if it is found under its own number. -/
theorem mem_entries_iff : e ∈ (ofEntries es).entries ↔ (ofEntries es).get? e.tag = some e := by
  rw [List.mem_iff_getElem?]
  constructor
  · rintro ⟨n, hn⟩
    obtain rfl := (getElem?_ofEntries_spec hn).1
    exact hn
  · exact fun h => ⟨e.tag, h⟩

/-! ## Search -/

theorem isMatchedBy_iff {p : Pattern} : e.isMatchedBy p = true ↔
    p.fullMatches (Text.ofNat e.tag) = true ∨
      e.isSentinel = false ∧ p.fullMatches e.searchable = true := by
  simp [Entry.isMatchedBy]

theorem mem_find_iff {l : Lexicon} {p : Pattern} {verbsOnly : Bool} : e ∈ l.find p verbsOnly ↔
    e ∈ l.entries ∧ e.isMatchedBy p = true ∧ (verbsOnly = true → e.isVerb = true) := by
  cases verbsOnly <;> simp [find]

theorem pairwise_find (es : List Entry) (p : Pattern) (verbsOnly : Bool) :
    ((ofEntries es).find p verbsOnly).Pairwise (·.tag < ·.tag) := (pairwise_tag es).filter _

theorem find_true (l : Lexicon) (p : Pattern) :
    l.find p true = (l.find p false).filter (·.isVerb) := by
  simp [find, List.filter_filter, Bool.and_comm]

/-- A table has one more entry than the greatest number, and each integer below is the number of the
entry found under it: the last one given, or a sentinel. A pattern finds, in the order of their
numbers, the entries of which it matches the number, or the searchable form if there is a word. -/
theorem ofEntries_by_number (es : List Entry) :
    ((ofEntries es).size = match (es.map (·.tag)).max? with
      | none => 0
      | some most => most + 1) ∧
    (∀ tag : ℤ, (ofEntries es).get? tag = none ↔ tag < 0 ∨ (ofEntries es).size ≤ tag) ∧
    (∀ (tag : ℤ) e, (ofEntries es).get? tag = some e ↔
      tag < (ofEntries es).size ∧ e.tag = tag ∧ IsLatest es e) ∧
    ∀ p,
      (∀ verbsOnly, ((ofEntries es).find p verbsOnly).Pairwise (·.tag < ·.tag)) ∧
      (∀ e, e ∈ (ofEntries es).find p false ↔ (ofEntries es).get? e.tag = some e ∧
        (p.fullMatches (Text.ofNat e.tag) = true ∨
          e.isSentinel = false ∧ p.fullMatches e.searchable = true)) ∧
      (ofEntries es).find p true = ((ofEntries es).find p false).filter (·.isVerb) := by
  refine ⟨(size_ofEntries es).trans (sizeFor_eq_max es), fun tag => get?_eq_none_iff,
    fun tag e => get?_eq_some_iff, fun p => ⟨pairwise_find es p, fun e => ?_, find_true _ p⟩⟩
  rw [mem_find_iff, mem_entries_iff, isMatchedBy_iff]
  simp

end Lexicon

end VerseSearch
