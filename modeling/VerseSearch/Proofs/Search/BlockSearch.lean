import VerseSearch.Proofs.Query.Compilation
import VerseSearch.Proofs.Search.MarkedWords

/-! # Searches for a block

* `compile_of_blockError`: a block that is not resolved gives its error to the query.
* `wordPattern_of_entries`: the pattern of a block is one for texts inside words.
* `block_marks_its_words`: a query of one block fails as its inside does, and otherwise marks the words
  with letters that have the tag of an entry, each by one match.
-/

namespace VerseSearch
set_option autoImplicit false

/-! ## Errors -/

/-- A query or a part of it is not a pattern. -/
def CompileError.IsInvalidPattern : CompileError → Prop
  | .query (.invalidBlock ..) => True
  | .query (.invalidPattern _) => True
  | .query (.invalidLexiconPattern ..) => True
  | _ => False

/-- A block finds no entries. -/
def CompileError.IsNoMatchingEntries : CompileError → Prop
  | .query (.noMatchingEntries ..) => True
  | _ => False

namespace Query

theorem compile_of_blockError [Pattern.CharNames] [Text.Ranking] {l : Lexicon} {verbsOnly : Bool}
    {limit : ℕ} {p : Text}
    (hp : IsInner p) {e : CompileError} (h : resolveBlock l p verbsOnly limit = .error e) :
    compile l ('<' :: p ++ ['>']) verbsOnly limit = .error e := by
  have hblank : Text.isAllBlank ('<' :: p ++ ['>']) = false := by
    rw [Text.isAllBlank, List.all_eq_false]
    exact ⟨'<', by simp, by decide⟩
  have hsplit : splitBlocks ('<' :: p ++ ['>']) = [.block p] := splitBlocks_block hp []
  rw [compile, hblank, expandRoot_of_head? (by simp)]
  simp only [Bool.false_eq_true, if_false, hsplit, resolvePieces, h]

/-- What a query of one block does, by what its inside finds. -/
theorem compile_block [Pattern.CharNames] [Text.Ranking] (l : Lexicon) (verbsOnly : Bool) (limit : ℕ)
    {p : Text} (hp : IsInner p) :
    (∃ f, findEntries l p verbsOnly = .error (.query (.invalidLexiconPattern p f)) ∧
      compile l ('<' :: p ++ ['>']) verbsOnly limit =
        .error (.query (.invalidBlock ('<' :: p ++ ['>']) f))) ∨
    (∃ lim, findEntries l p verbsOnly = .error (.limit lim) ∧
      compile l ('<' :: p ++ ['>']) verbsOnly limit = .error (.limit lim)) ∨
    (findEntries l p verbsOnly = .ok [] ∧ compile l ('<' :: p ++ ['>']) verbsOnly limit =
      .error (.query (.noMatchingEntries ('<' :: p ++ ['>']) (suggest l p limit)))) ∨
    ∃ entries c, findEntries l p verbsOnly = .ok entries ∧ entries ≠ [] ∧
      compile l ('<' :: p ++ ['>']) verbsOnly limit = .ok c ∧ c.blocks = [blockOf p entries] ∧
      c.pattern.node.Denotes (entriesLanguage entries) := by
  cases hpattern : Pattern.parseAnchored (normalizeBlock p) with
  | error e =>
    have hresolve : resolveBlock l p verbsOnly limit =
        .error (e.toCompileError (.invalidBlock ('<' :: p ++ ['>']))) := by
      rw [resolveBlock, hpattern]
    have hcompile := compile_of_blockError hp hresolve
    rw [findEntries, hpattern]
    cases e with
    | fault f => exact .inl ⟨f, rfl, hcompile⟩
    | limit lim => exact .inr (.inl ⟨lim, rfl, hcompile⟩)
  | ok pattern =>
    have hfind : findEntries l p verbsOnly = .ok (l.find pattern verbsOnly) := by
      rw [findEntries, hpattern]
    right
    right
    cases hentries : l.find pattern verbsOnly with
    | nil =>
      refine .inl ⟨by rw [hfind, hentries], compile_of_blockError hp ?_⟩
      rw [resolveBlock, hpattern]
      simp only [hentries]
    | cons e entries =>
      rw [hentries] at hfind
      obtain ⟨c, hc, hblocks, -, hdenotes⟩ := compile_single (stands_block limit hp hfind (by simp))
      exact .inr ⟨_, c, hfind, by simp, hc, hblocks, hdenotes⟩

/-! ## Words with the tag of an entry -/

theorem wordPattern_of_entries {pattern : Pattern} {entries : List Entry}
    (hp : pattern.node.Denotes (entriesLanguage entries)) :
    WordPattern pattern (entriesLanguage entries) :=
  ⟨hp, fun _ => SearchString.inner_of_mem_entriesLanguage⟩

section
variable {entries : List Entry} {form : Text} {tag : ℕ} (hform : ∀ c ∈ form, anyLetter.accepts c = true)
include hform

/-- A word of an entry stands in the part of a word only at its end, and the tags are equal. -/
theorem part_of_mem_entriesLanguage {a u c : Text} (hu : u ∈ entriesLanguage entries)
    (h : SearchString.segment form (Text.ofNat tag) = a ++ (u ++ c)) :
    c = [] ∧ form ≠ [] ∧ ∃ e ∈ entries, e.tag = tag := by
  obtain ⟨w, e, hne, hw, he, rfl⟩ := mem_entriesLanguage.mp hu
  obtain ⟨rfl, htag, hc⟩ := SearchString.segment_eq_segment hform
    SearchString.digits_of_ofNat hw SearchString.digits_of_ofNat h
  exact ⟨hc, by simp [hne], e, he, (Text.ofNat_injective htag).symm⟩

theorem entries_infix_iff :
    (∃ u ∈ entriesLanguage entries, u <:+: SearchString.segment form (Text.ofNat tag)) ↔
      form ≠ [] ∧ ∃ e ∈ entries, e.tag = tag := by
  constructor
  · rintro ⟨u, hu, a, c, h⟩
    rw [List.append_assoc] at h
    exact (part_of_mem_entriesLanguage hform hu h.symm).2
  · rintro ⟨hne, e, he, rfl⟩
    exact ⟨_, mem_entriesLanguage.mpr ⟨form, e, hne, hform, he, rfl⟩, List.infix_rfl⟩

end

theorem marks_words_of_entries {pattern : Pattern} {entries : List Entry}
    (hp : pattern.node.Denotes (entriesLanguage entries)) {index : ℕ} {book : Text}
    {chapter verse : ℕ} {ws : List TaggedWord} {v : IndexedVerse}
    (hv : VerseIndex.indexVerse index book chapter verse ws = .ok v) (htags : ∀ w ∈ ws, 0 ≤ w.tag) :
    ∃ marked, Marks pattern v marked ∧ marked.Pairwise (· < ·) ∧
      (nonemptyMatches pattern v.searchString).map
        (fun x => Highlight.wordRange v.searchString x.1 x.2) = marked.map (fun n => .ok (n, n)) ∧
      ∀ n, n ∈ marked ↔ ∃ w form, ws[n]? = some w ∧ Hebrew.searchable w.word = .ok form ∧
        form ≠ [] ∧ ∃ e ∈ entries, (e.tag : ℤ) = w.tag := by
  obtain ⟨segs, hlays, hstring⟩ := SearchString.lays_of_indexVerse hv htags
  have hpattern := wordPattern_of_entries hp
  obtain ⟨marked, hmarks, hsorted, hmem⟩ := marks_of_matches hpattern hlays.parted hstring
  have hend : ∀ x n a u c, u ∈ entriesLanguage entries → SpanAt segs x n a u c → c = [] := by
    intro x n a u c hu hspan
    obtain ⟨w, form, -, hform, -, hseg⟩ := hlays.getElem?_iff.mp hspan.getElem?
    exact (part_of_mem_entriesLanguage (SearchString.accepts_of_searchable hform) hu hseg.symm).1
  have hwords : (nonemptyMatches pattern v.searchString).map (wordOf segs) = marked := by
    have hone := pairwise_wordOf hpattern hlays.parted hend
    rw [hstring]
    refine (List.pairwise_map.mpr hone).eq_of_mem_iff hsorted fun n => ?_
    rw [hmem, List.mem_map]
  refine ⟨marked, hmarks, hsorted, ?_, fun n => ?_⟩
  · rw [← hwords, List.map_map, hstring]
    exact List.map_congr_left fun x hx => (wordRange_of_match hlays.parted hpattern hx).2
  · rw [hmem, word_of_match_iff hpattern hlays.parted]
    constructor
    · rintro ⟨seg, hseg, hpart⟩
      obtain ⟨w, form, hw, hform, htag, rfl⟩ := hlays.getElem?_iff.mp hseg
      obtain ⟨hne, e, he, heq⟩ :=
        (entries_infix_iff (SearchString.accepts_of_searchable hform)).mp hpart
      exact ⟨w, form, hw, hform, hne, e, he, by omega⟩
    · rintro ⟨w, form, hw, hform, hne, e, he, heq⟩
      have htag := htags w (List.mem_of_getElem? hw)
      exact ⟨_, hlays.getElem?_iff.mpr ⟨w, form, hw, hform, htag, rfl⟩,
        (entries_infix_iff (SearchString.accepts_of_searchable hform)).mpr ⟨hne, e, he, by omega⟩⟩

/-- A query of one block fails as an invalid pattern, for want of entries or at a limit exactly when its
inside does so by itself. Otherwise it compiles with one block, whose entries are those that the inside
finds, and a search marks the words that have a letter and the tag of an entry, each by one match. -/
theorem block_marks_its_words [Pattern.CharNames] [Text.Ranking] (l : Lexicon) (verbsOnly : Bool)
    (limit : ℕ) {p : Text} (hp : IsInner p) :
    ((∃ e, compile l ('<' :: p ++ ['>']) verbsOnly limit = .error e ∧ e.IsInvalidPattern) ↔
      ∃ e, findEntries l p verbsOnly = .error e ∧ e.IsInvalidPattern) ∧
    ((∃ e, compile l ('<' :: p ++ ['>']) verbsOnly limit = .error e ∧ e.IsNoMatchingEntries) ↔
      findEntries l p verbsOnly = .ok []) ∧
    (∀ lim, compile l ('<' :: p ++ ['>']) verbsOnly limit = .error (.limit lim) ↔
      findEntries l p verbsOnly = .error (.limit lim)) ∧
    ((∃ c, compile l ('<' :: p ++ ['>']) verbsOnly limit = .ok c) ↔
      ∃ entries, findEntries l p verbsOnly = .ok entries ∧ entries ≠ []) ∧
    ∀ c entries, compile l ('<' :: p ++ ['>']) verbsOnly limit = .ok c →
      findEntries l p verbsOnly = .ok entries →
      (∃ b, c.blocks = [b] ∧ b.entries = entries) ∧
      ∀ index book chapter verse ws v,
        VerseIndex.indexVerse index book chapter verse ws = .ok v → (∀ w ∈ ws, 0 ≤ w.tag) →
        ∃ marked, Marks c.pattern v marked ∧ marked.Pairwise (· < ·) ∧
          (nonemptyMatches c.pattern v.searchString).map
            (fun x => Highlight.wordRange v.searchString x.1 x.2) = marked.map (fun n => .ok (n, n)) ∧
          ∀ n, n ∈ marked ↔ ∃ w form, ws[n]? = some w ∧ Hebrew.searchable w.word = .ok form ∧
            form ≠ [] ∧ ∃ e ∈ entries, (e.tag : ℤ) = w.tag := by
  obtain ⟨f, hfind, hcompile⟩ | ⟨lim, hfind, hcompile⟩ | ⟨hfind, hcompile⟩ |
    ⟨entries, c, hfind, hne, hcompile, hblocks, hdenotes⟩ :=
    compile_block l verbsOnly limit hp
  · rw [hfind, hcompile]
    simp [CompileError.IsInvalidPattern, CompileError.IsNoMatchingEntries]
  · rw [hfind, hcompile]
    simp [CompileError.IsInvalidPattern, CompileError.IsNoMatchingEntries]
  · rw [hfind, hcompile]
    simp [CompileError.IsInvalidPattern, CompileError.IsNoMatchingEntries]
  · rw [hfind, hcompile]
    refine ⟨by simp, by simp [hne], by simp, by simp [hne], fun c' entries' hc hentries => ?_⟩
    obtain rfl := Except.ok.inj hc
    obtain rfl := Except.ok.inj hentries
    exact ⟨⟨_, hblocks, rfl⟩, fun _ _ _ _ _ _ hv htags => marks_words_of_entries hdenotes hv htags⟩

/-- The lexicon of one word, which has the number one. -/
def fatherLexicon : Lexicon := ⟨[.sentinel 0, ⟨1, ['א', 'ב'], .noun, ['א', 'ב']⟩]⟩

/-- The block of a word with the number one, which the number eleven does not match, and a block that
exceeds a limit. -/
theorem block_marks_its_words_of_father :
    IsInner ['א', 'ב'] ∧ IsInner "א\x7b4294967295\x7d".toList ∧
      compile ⟨[]⟩ "<א\x7b4294967295\x7d>".toList false 5 = .error (.limit .countTooLarge) ∧
      ∃ c marked, compile fatherLexicon ['<', 'א', 'ב', '>'] false 5 = .ok c ∧
        Marks c.pattern
          ⟨0, [], 0, 0, [['ג'], ['א', 'ב']], [11, 1], " ג<11> אב<1> ".toList⟩ marked ∧
        ∀ n, n ∈ marked ↔ ∃ w form,
          [(⟨['ג'], 11⟩ : TaggedWord), ⟨['א', 'ב'], 1⟩][n]? = some w ∧
          Hebrew.searchable w.word = .ok form ∧ form ≠ [] ∧
          ∃ e ∈ [(⟨1, ['א', 'ב'], .noun, ['א', 'ב']⟩ : Entry)], (e.tag : ℤ) = w.tag := by
  have hfather : IsInner ['א', 'ב'] := ⟨by decide, by decide⟩
  have hlimit : IsInner "א\x7b4294967295\x7d".toList := ⟨by decide, by decide⟩
  have hfind : findEntries fatherLexicon ['א', 'ב'] false =
      .ok [⟨1, ['א', 'ב'], .noun, ['א', 'ב']⟩] := by decide +kernel
  have hexceeds : findEntries ⟨[]⟩ "א\x7b4294967295\x7d".toList false =
      .error (.limit .countTooLarge) := by decide +kernel
  have hv : VerseIndex.indexVerse 0 [] 0 0 [⟨['ג'], 11⟩, ⟨['א', 'ב'], 1⟩] =
      .ok ⟨0, [], 0, 0, [['ג'], ['א', 'ב']], [11, 1], " ג<11> אב<1> ".toList⟩ := by decide +kernel
  obtain ⟨-, -, hlimits, -, -⟩ := block_marks_its_words ⟨[]⟩ false 5 hlimit
  obtain ⟨-, -, -, hcompiles, hmarks⟩ := block_marks_its_words fatherLexicon false 5 hfather
  obtain ⟨c, hc⟩ := hcompiles.mpr ⟨_, hfind, by simp⟩
  obtain ⟨marked, hmarked, -, -, hmem⟩ := (hmarks c _ hc hfind).2 _ _ _ _ _ _ hv (by decide)
  exact ⟨hfather, hlimit, (hlimits _).mpr hexceeds, c, marked, hc, hmarked, hmem⟩

end Query

end VerseSearch
